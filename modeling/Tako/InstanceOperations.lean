import Mathlib.Data.List.Permutation
import Tako.TaskPools
import Tako.InstanceApp

/-! The operations on an app as programs of calls of its methods and of its
instances' methods. Between two calls of one operation others may make theirs. -/
namespace Tako.Instances
open Tasks
inductive Call where
  -- methods that take the transition mutex or several locks
  | setInstanceState (i : InstanceId) (s : InstanceState)
  | setInstanceHealthState (i : InstanceId) (s : InstanceState)
  | suppressInstanceRouting (i : InstanceId)
  | enableInstanceRouting (i : InstanceId)
  | enableRolloutRouting (ids : List InstanceId)
  | removeInstance (i : InstanceId)
  -- single accesses to the app
  | config
  | updateConfig (config : AppConfig)
  | setAppState (s : AppState)
  | getInstances
  | allocateInstance
  | isInstanceRoutingSuppressed (i : InstanceId)
  -- single accesses to an instance
  | state (i : InstanceId)
  -- `Instance::set_state`, the raw state
  | setReady (i : InstanceId)
  | setStopped (i : InstanceId)
  | setProcess (i : InstanceId) (startedFrom : AppConfig)
  | takeProcess (i : InstanceId)
  | isAlive (i : InstanceId)
  | exit (i : InstanceId)
  | setPort (i : InstanceId) (port : ℕ)
  | endpoint (i : InstanceId)
  | cleanupUpstream (i : InstanceId)
  | hasContainer (i : InstanceId)
  | setContainer (i : InstanceId) (present : Bool)
  | ownsCompose (i : InstanceId)
  | clearCompose (i : InstanceId)
  | lockStop (i : InstanceId)
  | unlockStop (i : InstanceId)
  | awaitExit (i : InstanceId)
  | awaitStarted (i : InstanceId)
  | awaitDrained (i : InstanceId) (deadline : ℕ)
  -- the health checker's counts, the event channels, the log and the clock
  | clearFailures (i : InstanceId)
  | addFailure (i : InstanceId)
  | send (event : AppEvent)
  | logStopFailure (i : InstanceId)
  | now
  | sleepUntil (wake : ℕ)
  -- what is not seen to return
  | never
  deriving DecidableEq, Repr

@[reducible] def Call.Reply : Call → Type
  | .setInstanceState _ _ => InstanceState
  | .setInstanceHealthState _ _ => Bool
  | .enableInstanceRouting _ => Bool
  | .enableRolloutRouting _ => Except (InstanceId × InstanceState) Unit
  | .removeInstance _ => Bool
  | .config => AppConfig
  | .getInstances => List InstanceId
  | .allocateInstance => InstanceId
  | .isInstanceRoutingSuppressed _ => Bool
  | .state _ => InstanceState
  | .isAlive _ => Bool
  | .endpoint _ => Option ℕ
  | .hasContainer _ => Bool
  | .ownsCompose _ => Option Bool
  | .awaitStarted _ => InstanceState
  | .addFailure _ => ℕ
  | .now => ℕ
  | _ => Unit

/-- A call as one step; one that has to wait makes none. -/
def perform : (p : Call) → App → Option (p.Reply × App)
  | .setInstanceState i s, a => some (a.setInstanceStateLocked i s)
  | .setInstanceHealthState i s, a => some (a.setInstanceHealthState i s)
  | .suppressInstanceRouting i, a => some ((), a.suppressInstanceRouting i)
  | .enableInstanceRouting i, a => some (a.enableInstanceRouting i)
  | .enableRolloutRouting ids, a => some (a.enableRolloutRouting ids)
  | .removeInstance i, a => some (a.removeInstance i)
  | .config, a => some (a.config, a)
  | .updateConfig config, a => some ((), { a with config := config })
  | .setAppState s, a => some ((), { a with state := s })
  | .getInstances, a => some (a.instances, a)
  | .allocateInstance, a => some a.allocateInstance
  | .isInstanceRoutingSuppressed i, a => some (decide (i ∈ a.routingSuppressed), a)
  | .state i, a => some (a.stateOf i, a)
  | .setReady i, a => some ((), a.setState i .ready)
  | .setStopped i, a => some ((), a.setState i .stopped)
  | .setProcess i startedFrom, a =>
    some ((), a.modify i ({ · with process := some ⟨startedFrom, false⟩ }))
  | .takeProcess i, a => some ((), a.modify i ({ · with process := none }))
  | .isAlive i, a => some ((a.objects i).isAlive, a)
  | .exit i, a => some ((), a.modify i fun instance_ =>
      { instance_ with process := instance_.process.map ({ · with exited := true }) })
  | .setPort i port, a => some ((), a.modify i ({ · with upstream := some port }))
  | .endpoint i, a => some ((a.objects i).endpoint, a)
  | .cleanupUpstream i, a => some ((), a.modify i ({ · with upstream := none }))
  | .hasContainer i, a => some ((a.objects i).container, a)
  | .setContainer i present, a => some ((), a.modify i ({ · with container := present }))
  | .ownsCompose i, a => some ((a.objects i).compose, a)
  | .clearCompose i, a => some ((), a.modify i ({ · with compose := none }))
  | .lockStop i, a =>
    if (a.objects i).stopLock then none
    else some ((), a.modify i ({ · with stopLock := true }))
  | .unlockStop i, a => some ((), a.modify i ({ · with stopLock := false }))
  | .awaitExit i, a =>
    if (a.objects i).isAlive then none
    else some ((), a.modify i ({ · with process := none }))
  | .awaitStarted i, a =>
    match a.stateOf i with
    | .healthy => some (.healthy, a)
    | .stopped => some (.stopped, a)
    | .unhealthy => some (.unhealthy, a)
    | _ => none
  | .awaitDrained i deadline, a =>
    if 0 < (a.objects i).inFlight ∧ a.now < deadline then none else some ((), a)
  | .clearFailures i, a =>
    some ((), { a with failureCounts := Function.update a.failureCounts i 0 })
  | .addFailure i, a =>
    some (a.failureCounts i + 1,
      { a with failureCounts := Function.update a.failureCounts i (a.failureCounts i + 1) })
  | .send event, a => some ((), { a with events := a.events ++ [event] })
  | .logStopFailure i, a => some ((), { a with stopFailures := a.stopFailures ++ [i] })
  | .now, a => some (a.now, a)
  | .sleepUntil wake, a => if a.now < wake then none else some ((), a)
  | .never, _ => none

abbrev Operation (α : Type) := Script Call Call.Reply α

namespace Operation
def invoke (p : Call) : Operation p.Reply := Script.invoke p

def pick : Operation ℕ := Script.pick

def fails : Operation Bool := do
  return (← pick) ≠ 0

def reordered (ids : List InstanceId) : Operation (List InstanceId) := do
  let n ← pick
  return (ids.permutations[n]?).getD ids

/-- `get_instances`: the values of a map, in any order. -/
def getInstances : Operation (List InstanceId) := do
  reordered (← invoke .getInstances)

/-- `is_alive`: an error of `try_wait` counts as an exit. -/
def isAlive (i : InstanceId) : Operation Bool := do
  if ← fails then return false
  invoke (.isAlive i)

/-- Whether the container of a Compose app could not be stopped; one that is not
owned is left alone. -/
def stopContainerFails (owned : Bool) : Operation Bool :=
  if owned then fails else pure false

def dropCompose (i : InstanceId) : Operation Bool := do
  match ← invoke (.ownsCompose i) with
  | none => return true
  | some owned =>
    if ← stopContainerFails owned then return false
    else
      invoke (.clearCompose i)
      return true

def dropContainer (i : InstanceId) : Operation Bool := do
  if ← invoke (.hasContainer i) then
    if ← fails then return false
    else
      invoke (.setContainer i false)
      return true
  else return true

/-- `start_kill`, and `try_wait` until the process has exited. -/
def reap (i : InstanceId) : Operation Bool := do
  if ← fails then return false
  else if ← fails then return false
  else
    invoke (.awaitExit i)
    invoke (.cleanupUpstream i)
    invoke (.setStopped i)
    return true

def killLocked (i : InstanceId) : Operation Bool := do
  if ← dropCompose i then
    if ← dropContainer i then reap i else return false
  else return false

/-- `Instance::kill`, which returns whether it succeeded. -/
def kill (i : InstanceId) : Operation Bool := do
  invoke (.lockStop i)
  let stopped ← killLocked i
  invoke (.unlockStop i)
  return stopped

inductive InstanceError where
  | spawnError
  | stopError
  | startupTimeout
  | startupTimeoutWithDetail
  | healthCheckFailed
  deriving DecidableEq, Repr

/-- How the wait for a new process ends within the startup timeout, if it does. -/
inductive Startup where
  | ready
  | failed (error : InstanceError)
  | timedOut
  deriving DecidableEq, Repr

/-- `startup_exit_detail` takes the handle and waits for the output, which the
startup timeout may cut short. -/
def startupExitDetail (i : InstanceId) : Operation Startup := do
  invoke (.takeProcess i)
  if ← fails then return .timedOut
  return .failed .healthCheckFailed

/-- `bootstrap.write` and `wait_for_ready` under the startup timeout. -/
def waitForReady (i : InstanceId) : Operation Startup := do
  match ← pick with
  | 0 => return .timedOut
  | 1 => return .failed .spawnError
  -- a line that is no port, or an error of the readiness pipe
  | 2 => return .failed .healthCheckFailed
  -- the readiness pipe is closed
  | 3 => if ← isAlive i then return .failed .healthCheckFailed else startupExitDetail i
  -- the process was seen to be gone
  | 4 => if ← isAlive i then return .timedOut else startupExitDetail i
  | port + 5 =>
    invoke (.setPort i port)
    invoke (.setReady i)
    return .ready

/-- `wait_for_container_health` under the startup timeout, which falls into one
of the rounds. -/
def waitForContainerHealth (i : InstanceId) : ℕ → Operation Startup
  | 0 => return .timedOut
  | rounds + 1 => do
    if ← isAlive i then
      if (← invoke (.endpoint i)).isNone then return .failed .healthCheckFailed
      if ← fails then waitForContainerHealth i rounds
      else
        let _ ← invoke (.setInstanceState i .ready)
        return .ready
    else return .failed .healthCheckFailed

/-- What `spawn` and `spawn_container` do with a process that was started. -/
def settle (i : InstanceId) (startup : Startup) (taken : Bool) :
    Operation (Except InstanceError Unit) := do
  match startup with
  | .ready =>
    let _ ← invoke (.setInstanceState i .healthy)
    invoke (.send (.ready i))
    return .ok ()
  | .failed error =>
    let _ ← invoke (.setInstanceState i .unhealthy)
    let _ ← kill i
    return .error error
  | .timedOut =>
    let _ ← invoke (.setInstanceState i .unhealthy)
    -- `startup_timeout_detail`
    if taken then invoke (.takeProcess i)
    let _ ← kill i
    return .error .startupTimeoutWithDetail

def spawnContainer (i : InstanceId) (config : AppConfig) :
    Operation (Except InstanceError Unit) := do
  -- no free port, or the container could not be started
  if ← fails then return .error .spawnError
  let port ← pick
  invoke (.setContainer i true)
  invoke (.setProcess i config)
  invoke (.setPort i port)
  let _ ← invoke (.setInstanceState i .starting)
  invoke (.send (.started i))
  let startup ← waitForContainerHealth i (← pick)
  settle i startup false

def spawn (i : InstanceId) : Operation (Except InstanceError Unit) := do
  let config ← invoke .config
  if config.compose then return .error .healthCheckFailed
  if config.launch = .container then spawnContainer i config
  else
    if ← fails then return .error .spawnError
    invoke (.setProcess i config)
    let _ ← invoke (.setInstanceState i .starting)
    invoke (.send (.started i))
    let startup ← waitForReady i
    settle i startup true

structure HealthConfig where
  unhealthyThreshold : ℕ := 2
  deadThreshold : ℕ := 3

def probeFailed (health : HealthConfig) (i : InstanceId) (current : InstanceState) :
    Operation Unit := do
  let failures ← invoke (.addFailure i)
  let suppressed ← invoke (.isInstanceRoutingSuppressed i)
  let next :=
    if suppressed then .unhealthy
    else if health.deadThreshold ≤ failures then .stopped
    else if health.unhealthyThreshold ≤ failures then .unhealthy
    else current
  if next ≠ current then
    if ← invoke (.setInstanceHealthState i next) then
      match next with
      | .unhealthy => invoke (.send (.unhealthy i))
      | .stopped => invoke (.send (.dead i))
      | _ => return ()

def checkInstance (health : HealthConfig) (i : InstanceId) : Operation Unit := do
  let current ← invoke (.state i)
  if current = .starting ∨ current = .draining ∨ current = .stopped then return ()
  if ← isAlive i then
    let reachable := (← invoke (.endpoint i)).isSome
    if reachable ∧ !(← fails) then
      invoke (.clearFailures i)
      if current ≠ .healthy then
        if ← invoke (.setInstanceHealthState i .healthy) then
          if current = .unhealthy then invoke (.send (.recovered i))
          else invoke (.send (.healthy i))
    else probeFailed health i current
  else
    invoke (.clearFailures i)
    if ← invoke (.setInstanceHealthState i .stopped) then invoke (.send (.dead i))

/-- `AppManager::stop_app` up to its result. -/
def stopInstances : List InstanceId → Operation (Except InstanceError Unit)
  | [] => return .ok ()
  | i :: rest => do
    let _ ← invoke (.setInstanceState i .draining)
    if ← kill i then
      let _ ← invoke (.removeInstance i)
      stopInstances rest
    else return .error .stopError

def stopApp : Operation (Except InstanceError Unit) := do
  invoke (.setAppState .stopped)
  let config ← invoke .config
  if config.compose then
    if ← fails then return .error .healthCheckFailed
  match ← stopInstances (← getInstances) with
  | .error error => return .error error
  | .ok () =>
    if config.compose then
      if ← fails then return .error .healthCheckFailed
    return .ok ()

/-- `AppManager::start_app` of an app that is not a Compose app. -/
def startInstances : ℕ → Operation (Except InstanceError Unit)
  | 0 => return .ok ()
  | n + 1 => do
    let i ← invoke .allocateInstance
    match ← spawn i with
    | .ok () => startInstances n
    | .error error => return .error error

structure RollingUpdateConfig where
  healthStabilityWindow : ℕ := 8000
  healthStabilityCheckInterval : ℕ := 100
  drainTimeout : ℕ := 30000
  batchSize : ℕ := 1

structure RollingUpdateResult where
  success : Bool
  newInstances : ℕ
  oldInstances : ℕ
  error : Option InstanceError
  deriving DecidableEq, Repr

def RollingUpdateResult.failure (error : InstanceError) : RollingUpdateResult :=
  ⟨false, 0, 0, some error⟩

/-- `start_and_wait_healthy`, whose health timeout may come first. -/
def startAndWaitHealthy (i : InstanceId) : Operation (Except InstanceError Unit) := do
  match ← spawn i with
  | .error error => return .error error
  | .ok () =>
    if ← fails then return .error .startupTimeout
    if (← invoke (.awaitStarted i)) = .healthy then return .ok ()
    else return .error .healthCheckFailed

def allHealthy : List InstanceId → Operation Bool
  | [] => return true
  | i :: rest => do
    if (← invoke (.state i)) = .healthy then allHealthy rest else return false

variable (r : RollingUpdateConfig)
/-- The loop of `wait_for_stable_health`. It has as many rounds as there are before the
deadline, so that a run in which fewer were picked does not come out of it. -/
def staysHealthy (ids : List InstanceId) (deadline : ℕ) : ℕ → Operation Bool
  | 0 => do
    invoke .never
    return false
  | rounds + 1 => do
    if ← allHealthy ids then
      let now ← invoke .now
      if deadline ≤ now then return true
      else
        invoke (.sleepUntil (now + min (deadline - now) (max r.healthStabilityCheckInterval 1)))
        staysHealthy ids deadline rounds
    else return false

def waitForStableHealth (ids : List InstanceId) : Operation Bool := do
  if ids = [] ∨ r.healthStabilityWindow = 0 then return true
  else
    let deadline := (← invoke .now) + r.healthStabilityWindow
    staysHealthy r ids deadline (← pick)

def removeNewInstances : List InstanceId → Operation Unit
  | [] => return ()
  | i :: rest => do
    let _ ← kill i
    let _ ← invoke (.removeInstance i)
    removeNewInstances rest

/-- The inner loop of `update`: a batch of new instances, after those of the
earlier batches. -/
def startBatch (started batch : List InstanceId) :
    ℕ → Operation (Except InstanceError (List InstanceId × List InstanceId))
  | 0 => return .ok (started, batch)
  | n + 1 => do
    let i ← invoke .allocateInstance
    invoke (.suppressInstanceRouting i)
    match ← startAndWaitHealthy i with
    | .ok () => startBatch (started ++ [i]) (batch ++ [i]) n
    | .error error =>
      removeNewInstances started
      let _ ← kill i
      let _ ← invoke (.removeInstance i)
      return .error error

/-- The end of the batch that begins at `start`, in `u32`. -/
def batchEnd (target start : ℕ) : ℕ :=
  min ((start + r.batchSize) % 4294967296) target

def startBatches (r : RollingUpdateConfig) (target : ℕ) (started : List InstanceId) :
    List ℕ → Operation (Except InstanceError (List InstanceId))
  | [] => return .ok started
  | start :: rest => do
    match ← startBatch started [] (batchEnd r target start - start) with
    | .error error => return .error error
    | .ok (started, batch) =>
      if ← waitForStableHealth r batch then startBatches r target started rest
      else
        removeNewInstances started
        return .error .healthCheckFailed

/-- `(0..target).step_by(batch_size)`. -/
def batchStarts (target : ℕ) : List ℕ :=
  List.range' 0 ((target + r.batchSize - 1) / r.batchSize) r.batchSize

def drainAndStop (i : InstanceId) : Operation Unit := do
  let _ ← invoke (.setInstanceState i .draining)
  let deadline := (← invoke .now) + r.drainTimeout
  invoke (.awaitDrained i deadline)
  if !(← kill i) then invoke (.logStopFailure i)
  let _ ← invoke (.removeInstance i)

def drainAndStopAll (r : RollingUpdateConfig) : List InstanceId → Operation Unit
  | [] => return ()
  | i :: rest => do
    drainAndStop r i
    drainAndStopAll r rest

def update (config : AppConfig) (target : ℕ) : Operation RollingUpdateResult := do
  let old ← getInstances
  invoke (.updateConfig config)
  match ← startBatches r target [] (batchStarts r target) with
  | .error error => return .failure error
  | .ok started =>
    match ← invoke (.enableRolloutRouting started) with
    | .error _ =>
      removeNewInstances started
      return .failure .healthCheckFailed
    | .ok () =>
      drainAndStopAll r old
      return ⟨true, started.length, old.length, none⟩
end Operation
end Tako.Instances
