import Tako.WorkflowWake
import Tako.WorkflowAgreement
import Tako.WorkflowCapacity
import Tako.WorkflowCronTicks
import Tako.WorkflowRetryBudget
import Tako.WorkflowStepValues
import Tako.ChannelPruning
import Tako.ChannelNoLostWakeup
import Tako.PresenceConvergence
import Tako.InstanceRouting
import Tako.InstanceCutover
import Tako.DeployLocks
import Tako.ColdStartAttempts
import Tako.InstanceScalingEffect
import Tako.DeployAtomicity
import Tako.RouteSelection
import Tako.ServiceLeases
import Tako.PrivateHosts
import Tako.GrantAgreement
import Tako.Enrollment
import Tako.RegistryAvailability
import Tako.CertificateCache
import Tako.BackupRestore
import Tako.AppDeletion
import Tako.BackupIndex
import Tako.PrimaryHandoff
import Tako.TunnelSessions
import Tako.RequestLimits
import Tako.CertificateSelection
import Tako.ImageCacheKey
import Tako.MountedFiles
import Tako.LogClock
