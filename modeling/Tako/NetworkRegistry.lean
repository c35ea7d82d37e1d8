import Tako.DerivationRounds
import Tako.AgreeingMap
import Tako.NetworkKeys

/-! The registry of a network. A snapshot is replicated and merged, so its records stand in any
order and may repeat. -/
namespace Tako.Network
open AgreeingMap
structure NetworkDescriptor where
  id : NetworkId
  initialAdmin : DeviceId
deriving DecidableEq

structure Permissions where
  networkAdmin : Bool
  serverAdmin : Bool
  sshUser : Option SshUser
  deployments : Finset AppEnv
deriving DecidableEq

namespace Permissions
def validate (p : Permissions) : Except Error Unit := do
  if p.sshUser.any (fun user => user.text = "tako" ∨ user.text = "root") ∧
      ¬(p.networkAdmin ∧ p.serverAdmin) then
    .error (.permissionDenied
      "SSH access to tako or root requires both network_admin and server_admin")
  if 1024 < p.deployments.card then .error (.invalid "deployment permissions" "too many scopes")

def canDelegate (p child : Permissions) : Bool :=
  p.networkAdmin && (!child.serverAdmin || p.serverAdmin) &&
    (child.sshUser.isNone || p.serverAdmin || child.sshUser = p.sshUser) &&
    (p.serverAdmin || child.deployments ⊆ p.deployments)
end Permissions

inductive SocketAddr where
  | v4 (ip : BitVec 32) (port : ℕ)
  | v6 (ip : BitVec 128) (port flowinfo scopeId : ℕ)
deriving DecidableEq

namespace SocketAddr
/-- An IPv4 address that an IPv6 address maps is that IPv4 address. -/
def canonicalV4 : SocketAddr → Option (BitVec 32)
  | .v4 ip _ => some ip
  | .v6 ip _ _ _ => if ip >>> 32 = 0xffff then some (ip.setWidth 32) else none

/-- Unspecified, loopback, multicast, or the IPv4 broadcast address. -/
def notUnicast (a : SocketAddr) : Bool :=
  match a.canonicalV4, a with
  | some ip, _ => ip = 0 || ip >>> 24 = 127 || ip >>> 28 = 14 || ip = 0xffffffff
  | none, .v6 ip _ _ _ => ip = 0 || ip = 1 || ip >>> 120 = 0xff
  | none, .v4 _ _ => false

def port : SocketAddr → ℕ
  | .v4 _ port => port
  | .v6 _ port _ _ => port

def hasScope : SocketAddr → Bool
  | .v4 _ _ => false
  | .v6 _ _ flowinfo scopeId => scopeId ≠ 0 || flowinfo ≠ 0
end SocketAddr

structure ServerInfo where
  wireguardEndpoint : SocketAddr
  sshHostKey : SshPublicKey
  sshPort : ℕ
  httpsCertificatePem : Option String
  corrosionCaCertificatePem : Option String
  httpsSpkiSha256 : Option KeyFingerprint
  httpsPort : ℕ
deriving DecidableEq

inductive MemberKind where
  | laptop
  | server (info : ServerInfo)
deriving DecidableEq

def MemberKind.deviceKind : MemberKind → DeviceKind
  | .laptop => .laptop
  | .server _ => .server

def MemberKind.isServer : MemberKind → Bool
  | .laptop => false
  | .server _ => true

/-- An admission. It never changes; a snapshot holds it or does not. -/
structure Member where
  networkId : NetworkId
  deviceId : DeviceId
  request : EnrollmentRequest
  kind : MemberKind
  permissions : Permissions
  approvedBy : Option DeviceId
  independentAdmin : Bool
  wgVerified : Bool
  createdAt : ℕ
  expiresAt : Option ℕ
deriving DecidableEq

structure Approval where
  kind : MemberKind
  permissions : Permissions
  approvedBy : Option DeviceId
  independentAdmin : Bool
  createdAt : ℕ
  expiresAt : Option ℕ

def Approval.member (approval : Approval) (verified : VerifiedEnrollment) : Member where
  networkId := verified.networkId
  deviceId := verified.deviceId
  request := verified.request
  kind := approval.kind
  permissions := approval.permissions
  approvedBy := approval.approvedBy
  independentAdmin := approval.independentAdmin
  wgVerified := true
  createdAt := approval.createdAt
  expiresAt := approval.expiresAt

structure Revocation where
  id : RevocationId
  target : DeviceId
  wgFingerprint : KeyFingerprint
  sshFingerprint : KeyFingerprint
  capturedServers : Finset DeviceId
  revokedBy : DeviceId
  createdAt : ℕ
deriving DecidableEq

structure Ack where
  revocation : RevocationId
  server : DeviceId
  boot : BootId
deriving DecidableEq

structure RegistrySnapshot where
  network : NetworkDescriptor
  members : List Member
  revocations : List Revocation
  acks : List Ack

variable (C : Crypto)
/-- `char::is_whitespace`. -/
def isWhitespace (c : Char) : Bool :=
  let n := c.toNat
  (9 ≤ n && n ≤ 13) || n = 32 || n = 0x85 || n = 0xa0 || n = 0x1680 || (0x2000 ≤ n && n ≤ 0x200a) ||
    n = 0x2028 || n = 0x2029 || n = 0x202f || n = 0x205f || n = 0x3000

def trim (text : List Char) : List Char :=
  ((text.dropWhile isWhitespace).reverse.dropWhile isWhitespace).reverse

/-- `replace("\r\n", "\n")`. -/
def unixLines : List Char → List Char
  | '\r' :: '\n' :: rest => '\n' :: unixLines rest
  | c :: rest => c :: unixLines rest
  | [] => []

def maxCertificatePemBytes : ℕ := 16 * 1024

def parseCertificate (pem field : String) : Except Error C.Certificate := do
  if pem = "" ∨ maxCertificatePemBytes < pem.utf8ByteSize then
    .error (.invalid field "expected at most 16 KiB of certificate PEM")
  match C.certificateFromPem pem with
  | none => .error (.invalid field "invalid X.509 certificate PEM")
  | some certificate =>
    let canonical ← C.certificateToPem certificate
    if trim (unixLines pem.toList) ≠ trim canonical.toList then
      .error (.invalid field "expected one certificate with no extra PEM blocks or data")
    .ok certificate

namespace ServerInfo
def httpsSpkiFingerprint (s : ServerInfo) : Except Error (Option KeyFingerprint) :=
  s.httpsCertificatePem.mapM fun pem => do
    let certificate ← parseCertificate C pem "HTTPS certificate"
    let key ← C.certificateKey certificate
    .ok (KeyFingerprint.ofBytes C key)

def validate (s : ServerInfo) : Except Error Unit := do
  let endpoint := s.wireguardEndpoint
  if endpoint.notUnicast ∨ endpoint.hasScope ∨ endpoint.port = 0 ∨ s.sshPort = 0 ∨
      s.httpsPort = 0 then
    .error (.invalid "server endpoint" "expected a unicast endpoint and nonzero ports")
  let derivedSpki ← s.httpsSpkiFingerprint C
  if s.httpsSpkiSha256.any (fun pin => some pin ≠ derivedSpki) then
    .error (.invalid "HTTPS SPKI" "must match the supplied certificate")
  match s.corrosionCaCertificatePem with
  | some pem => let _ ← parseCertificate C pem "Corrosion CA certificate"
  | none => .ok ()
end ServerInfo

namespace Member
variable (m : Member)
def validate : Except Error Unit := do
  m.permissions.validate
  m.request.verify C
  let deviceId ← m.request.deviceIdFor C m.networkId
  if m.deviceId ≠ deviceId ∨ m.kind.deviceKind ≠ m.request.kind then
    .error (.invalid "member" "network, kind, or ID does not match enrollment")
  if m.expiresAt.any (fun expiry => expiry ≤ m.createdAt) ∨
      m.request.expiresAt.any (fun expiry => expiry ≤ m.createdAt) then
    .error (.invalid "member expiry" "approval must precede request and membership expiry")
  if m.independentAdmin ∧ ¬(m.permissions.networkAdmin ∧ m.permissions.serverAdmin) then
    .error (.invalid "independent admin" "requires both administrator capabilities")
  if m.approvedBy = some m.deviceId ∨ (m.independentAdmin ∧ m.approvedBy.isSome) then
    .error (.invalid "approval authority"
      "independent roots require local-operator admission; devices cannot approve themselves")
  match m.kind with
  | .server info => info.validate C
  | .laptop => .ok ()

def live (now : ℕ) : Bool :=
  m.createdAt ≤ now && m.expiresAt.all (fun expiry => now < expiry)

def delegatedBy (parent : Member) : Bool :=
  parent.createdAt ≤ m.createdAt && parent.permissions.canDelegate m.permissions &&
    (!m.kind.isServer || parent.permissions.serverAdmin) &&
    match parent.expiresAt, m.expiresAt with
    | some parent, some child => child ≤ parent
    | some _, none => false
    | none, _ => true
end Member

def Revocation.names (r : Revocation) (id : DeviceId) (wg ssh : KeyFingerprint) : Bool :=
  r.target = id || r.wgFingerprint = wg || r.sshFingerprint = ssh

/-- The maps that `validate` fills. -/
structure Seen where
  members : AList (fun _ : DeviceId => Member)
  wgKeys : AList (fun _ : WgPublicKey => DeviceId)
  sshKeys : AList (fun _ : SshPublicKey => DeviceId)
  addresses : AList (fun _ : List UInt8 => DeviceId)

namespace RegistrySnapshot
variable (s : RegistrySnapshot)
def denied (m : Member) : Except Error Bool := do
  let wg := m.request.wgPublicKey.fingerprint C
  let ssh ← m.request.sshPublicKey.fingerprint C
  .ok (s.revocations.any (fun denial => denial.names m.deviceId wg ssh))

/-- One round of the first loop of `validate`. Keys and addresses of a member
that is denied are not compared. -/
def admitMember (seen : Seen) (m : Member) : Except Error Seen := do
  m.validate C
  if m.networkId ≠ s.network.id then .error (.invalid "member network" "different network")
  else if m.wgVerified = false then .ok seen
  else if conflicts seen.members m.deviceId m then .error (.conflict "member")
  else do
    let seen := { seen with members := seen.members.insert m.deviceId m }
    let denied ← s.denied C m
    let address := s.network.id.address C m.request.wgPublicKey
    if denied then .ok seen
    else if conflicts seen.wgKeys m.request.wgPublicKey m.deviceId ∨
        conflicts seen.sshKeys m.request.sshPublicKey m.deviceId then
      .error (.conflict "public key binding")
    else if conflicts seen.addresses address m.deviceId then .error (.conflict "IPv6 address")
    else
      .ok { seen with
        wgKeys := seen.wgKeys.insert m.request.wgPublicKey m.deviceId
        sshKeys := seen.sshKeys.insert m.request.sshPublicKey m.deviceId
        addresses := seen.addresses.insert address m.deviceId }

def recordRevocation (seen : AList (fun _ : RevocationId => Revocation)) (r : Revocation) :
    Except Error (AList (fun _ : RevocationId => Revocation)) :=
  if conflicts seen r.id r then .error (.conflict "revocation") else .ok (seen.insert r.id r)

def validate : Except Error Unit := do
  let _ ← s.members.foldlM (s.admitMember C) ⟨∅, ∅, ∅, ∅⟩
  let _ ← s.revocations.foldlM recordRevocation ∅

def considerMember (now : ℕ) (pending : AList (fun _ : DeviceId => Member)) (m : Member) :
    Except Error (AList (fun _ : DeviceId => Member)) :=
  if m.wgVerified ∧ m.live now then do
    let denied ← s.denied C m
    .ok (if denied then pending else pending.insert m.deviceId m)
  else .ok pending

def pendingMembers (now : ℕ) : Except Error (AList (fun _ : DeviceId => Member)) :=
  s.members.foldlM (s.considerMember C now) ∅

/-- A root has no approver; everyone else needs an effective one who may
delegate what it has. -/
def approvalRules (network : NetworkDescriptor) : Derivation.Rules DeviceId Member where
  premise := Member.approvedBy
  root m := m.independentAdmin || (m.deviceId = network.initialAdmin && m.permissions.networkAdmin)
  follows := Member.delegatedBy

/-- The loop ends after at most as many rounds as there are pending members. -/
def effectiveMembers (now : ℕ) : Except Error (AList (fun _ : DeviceId => Member)) := do
  s.validate C
  let pending ← s.pendingMembers C now
  .ok ((approvalRules s.network).saturate pending.keys.length pending ∅)

/-- The last loop of `approve_with_authority`. The first member with the same id
decides; what stands behind it is not looked at. -/
def comparePrevious (m : Member) : List Member → Except Error Member
  | [] => .ok m
  | existing :: rest =>
    if existing.deviceId = m.deviceId then
      if existing = m then .ok existing else .error (.conflict "member")
    else if existing.request.wgPublicKey = m.request.wgPublicKey ∨
        existing.request.sshPublicKey = m.request.sshPublicKey then
      .error (.conflict "public key binding")
    else if existing.networkId.address C existing.request.wgPublicKey =
        m.networkId.address C m.request.wgPublicKey then
      .error (.conflict "IPv6 address")
    else comparePrevious m rest

/-- Who approves: a local operator, the bootstrap of an empty registry, or an
effective member that may delegate this much. -/
def checkAuthority (effective : AList (fun _ : DeviceId => Member)) (m : Member)
    (localOperator : Bool) : Except Error Unit :=
  match m.approvedBy with
  | none =>
    if localOperator ∧ m.independentAdmin then .ok ()
    else if m.deviceId ≠ s.network.initialAdmin ∨ m.permissions.networkAdmin = false ∨
        s.members ≠ [] then
      .error (.permissionDenied
        "only the descriptor's initial admin can bootstrap an empty registry")
    else .ok ()
  | some approver =>
    match effective.lookup approver with
    | none => .error (.notEffective approver)
    | some parent =>
      if m.delegatedBy parent then .ok ()
      else .error (.permissionDenied "approval exceeds delegated authority or expiry")

variable (verified : VerifiedEnrollment) (approval : Approval)
def approveWithAuthority (localOperator : Bool) : Except Error Member := do
  let effective ← s.effectiveMembers C approval.createdAt
  let m := approval.member verified
  m.validate C
  if m.networkId ≠ s.network.id then .error (.invalid "approval network" "different network")
  else do
    let denied ← s.denied C m
    if denied then .error (.permissionDenied "revocation overrides approval")
    else if m.independentAdmin ∧ localOperator = false then
      .error (.permissionDenied "device grants cannot create independent roots")
    else do
      s.checkAuthority effective m localOperator
      comparePrevious C m (s.members.filter Member.wgVerified)

def approve : Except Error Member :=
  s.approveWithAuthority C verified approval false

def approveIndependentAdmin : Except Error Member :=
  if approval.independentAdmin = false ∨ approval.approvedBy.isSome then
    .error (.permissionDenied "independent approval requires explicit local-operator authority")
  else s.approveWithAuthority C verified approval true
end RegistrySnapshot
end Tako.Network
