import Mathlib.Data.List.Sort
import Tako.ServiceHosts

/-! Signed leases by which servers announce their apps, and the directory that the proxy keeps of
them. Wall clocks count seconds and may step back; instants count nanoseconds. -/
namespace Tako.Services
open Network Texts AgreeingMap
def maxLeaseSeconds : ℕ := 30

def maxServices : ℕ := 256

def maxServers : ℕ := 256

def serviceNamespace : String := "tako-native-services-v1"

def fromSecs (seconds : ℕ) : ℕ := seconds * 1000000000

def saturatingAdd (a b : ℕ) : ℕ := min (a + b) (2 ^ 64 - 1)

structure ServiceLease where
  networkId : NetworkId
  serverId : DeviceId
  issuedAt : ℕ
  expiresAt : ℕ
  apps : List AppEnv
  signature : String
deriving DecidableEq

structure LocalDeviceKeys where
  deviceId : NetworkId → DeviceKind → Except Error DeviceId
  /-- The signature of a namespace and a message, as PEM. -/
  sign : String → List UInt8 → Except Error String

/-- `serde_json::to_vec` of what a lease signs. -/
abbrev Transcript := ServiceLease → Except Error (List UInt8)

def outOfOrder : List AppEnv → Bool
  | a :: b :: rest => decide (¬a.text < b.text) || outOfOrder (b :: rest)
  | _ => false

variable (C : Crypto) (transcript : Transcript)
namespace ServiceLease
variable (lease : ServiceLease)
def validate : Except Error Unit :=
  if maxServices < lease.apps.length ∨ outOfOrder lease.apps = true ∨
      2048 < lease.signature.utf8ByteSize ∨ lease.expiresAt ≤ lease.issuedAt ∨
      maxLeaseSeconds < lease.expiresAt - lease.issuedAt then
    .error (.invalid "service lease" "invalid lifetime, ordering, or size")
  else .ok ()

def sign (keys : LocalDeviceKeys) (networkId : NetworkId) (apps : List AppEnv) (now : ℕ) :
    Except Error ServiceLease := do
  let serverId ← keys.deviceId networkId .server
  if 2 ^ 64 ≤ now + maxLeaseSeconds then .error (.invalid "service lease" "clock overflow")
  else
    let lease : ServiceLease :=
      { networkId, serverId, issuedAt := now, expiresAt := now + maxLeaseSeconds, apps
        signature := "" }
    lease.validate
    let bytes ← transcript lease
    let signature ← keys.sign serviceNamespace bytes
    .ok { lease with signature }

def verifyMember (network : NetworkId) (m : Member) (now : ℕ) : Except Error (List UInt8) := do
  lease.validate
  if lease.networkId ≠ network ∨ m.networkId ≠ network ∨ m.deviceId ≠ lease.serverId ∨
      m.kind.isServer = false ∨ m.permissions.serverAdmin = false ∨ now < lease.issuedAt ∨
      lease.expiresAt ≤ now then
    .error (.invalid "service lease" "wrong network, publisher, or time")
  else
    let signature ← C.signatureFromPem lease.signature
    let pem ← C.signatureToPem signature
    if C.signatureIsSha256 signature = false ∨ pem ≠ lease.signature then
      .error (.invalid "service lease" "noncanonical signature")
    else
      let bytes ← transcript lease
      C.sshVerify m.request.sshPublicKey.text serviceNamespace bytes signature
      .ok (network.address C m.request.wgPublicKey)

def Signed : Prop :=
  ∃ keys networkId apps now, sign transcript keys networkId apps now = .ok lease
end ServiceLease

inductive IpAddr where
  | v4 (ip : BitVec 32)
  | v6 (ip : BitVec 128)
deriving DecidableEq

def IpAddr.toCanonical : IpAddr → IpAddr
  | .v4 ip => .v4 ip
  | .v6 ip => if ip >>> 32 = 0xffff then .v4 (ip.setWidth 32) else .v6 ip

def ipv6 (bytes : List UInt8) : BitVec 128 :=
  BitVec.ofNat 128 (bytes.foldl (fun n b => n * 256 + b.toNat) 0)

structure Ipv4Net where
  address : BitVec 32
  prefixLen : ℕ

namespace Ipv4Net
variable (net : Ipv4Net)
def network : BitVec 32 :=
  (net.address >>> (32 - net.prefixLen)) <<< (32 - net.prefixLen)

def broadcast : BitVec 32 :=
  net.network ||| ((BitVec.allOnes 32) >>> net.prefixLen)

def contains (ip : BitVec 32) : Bool :=
  ip >>> (32 - net.prefixLen) = net.address >>> (32 - net.prefixLen)
end Ipv4Net

structure ComposeGateway where
  address : BitVec 32
  subnet : Ipv4Net

def ComposeGateway.admits (g : ComposeGateway) (destination peer : IpAddr) : Bool :=
  destination = .v4 g.address &&
    match peer with
    | .v4 ip => g.subnet.contains ip && ip ≠ g.subnet.network && ip ≠ g.subnet.broadcast &&
        ip ≠ g.address
    | .v6 _ => false

structure Placement where
  serverId : DeviceId
  address : BitVec 128
  expiresAt : ℕ
  deadline : ℕ
deriving DecidableEq

inductive PrivateRoute where
  | publicRoute
  | forbidden
  | unavailable
  | localApp (app : AppEnv)
  | remote (app : AppEnv) (address : BitVec 128)
deriving DecidableEq

structure View where
  address : BitVec 128
  peers : List IpAddr
  placements : AppEnv → List Placement
  observedAt : ℕ
  validUntil : ℕ
  deadline : ℕ

/-- Leases by their publisher, each with the instant at which it ends. -/
abbrev Held := AList (fun _ : DeviceId => ServiceLease × ℕ)

structure ServiceDirectory where
  network : NetworkId
  localServer : DeviceId
  gateway : Option ComposeGateway
  view : Option View := none
  latest : Held := ∅
  envelope : Option (ℕ × ℕ) := none
  clockFloor : ℕ := 0

inductive DirectoryError where
  | message (text : String)
  | registry (error : Error)

structure Collected where
  placements : AppEnv → List Placement := fun _ => []
  next : Held := ∅

namespace Collected
def push (placements : AppEnv → List Placement) (p : Placement) (app : AppEnv) :
    AppEnv → List Placement :=
  fun a => if a = app then placements a ++ [p] else placements a

/-- The lease is the only one of its publisher. -/
def accept (acc : Collected) (lease : ServiceLease) (deadline validUntil : ℕ)
    (address : BitVec 128) : Except DirectoryError Collected :=
  if (acc.next.lookup lease.serverId).isSome then
    .error (.message "duplicate service publisher")
  else
    let p : Placement :=
      { serverId := lease.serverId, address, expiresAt := min lease.expiresAt validUntil, deadline }
    .ok { placements :=
            lease.apps.foldl (fun placements app => push placements p app) acc.placements
          next := acc.next.insert lease.serverId (lease, deadline) }
end Collected

structure Rebuilt where
  view : View
  next : Held

namespace ServiceDirectory
variable (d : ServiceDirectory)
def clear : ServiceDirectory := { d with view := none }

def considerLease (effective : AList (fun _ : DeviceId => Member)) (now instant validUntil : ℕ)
    (acc : Collected) (lease : ServiceLease) : Except DirectoryError Collected :=
  match effective.lookup lease.serverId with
  | none => .ok acc
  | some m =>
    match lease.verifyMember C transcript d.network m now with
    | .error _ => .ok acc
    | .ok address =>
      let deadline := instant + fromSecs (lease.expiresAt - now)
      match d.latest.lookup lease.serverId with
      | none => acc.accept lease deadline validUntil (ipv6 address)
      | some (previous, previousDeadline) =>
        if lease.issuedAt < previous.issuedAt then .ok acc
        else if lease.issuedAt = previous.issuedAt then
          if lease ≠ previous then
            .error (.message "conflicting service leases at the same timestamp")
          else acc.accept lease (min deadline previousDeadline) validUntil (ipv6 address)
        else acc.accept lease deadline validUntil (ipv6 address)

def earliestExpiry (effective : AList (fun _ : DeviceId => Member)) (bound : ℕ) : ℕ :=
  effective.entries.foldl (fun t entry => (entry.2.expiresAt).elim t (min t)) bound

def rebuild (registry : RegistrySnapshot) (leases : List ServiceLease) (now instant : ℕ) :
    Except DirectoryError Rebuilt := do
  if registry.network.id ≠ d.network ∨ maxServers < leases.length then
    .error (.message "invalid service snapshot network or size")
  else
    let effective ← (registry.effectiveMembers C now).mapError .registry
    match (effective.lookup d.localServer).filter
        (fun m => m.kind.isServer && m.permissions.serverAdmin) with
    | none => .error (.message "local server is not admitted")
    | some m =>
      let addressOf (m : Member) := ipv6 (d.network.address C m.request.wgPublicKey)
      let validUntil := earliestExpiry effective (saturatingAdd now maxLeaseSeconds)
      let acc ← leases.foldlM (d.considerLease C transcript effective now instant validUntil) {}
      if maxServers < (d.latest.keys ++ acc.next.keys).dedup.length then
        .error (.message "too many observed service publishers")
      else
        .ok
          { next := acc.next
            view :=
              { address := addressOf m
                peers := effective.entries.map fun entry => .v6 (addressOf entry.2)
                placements := fun app => (acc.placements app).insertionSort
                  fun p q => p.address.toNat ≤ q.address.toNat
                observedAt := now
                validUntil
                deadline := instant + fromSecs (validUntil - now) } }

def advanced (now : ℕ) : ServiceDirectory :=
  { d.clear with
    clockFloor := now
    latest := retain (fun _ held => now < held.1.expiresAt) d.latest }

def replace (registry : RegistrySnapshot) (leases : List ServiceLease) (now instant : ℕ) :
    Except DirectoryError Unit × ServiceDirectory :=
  if now < d.clockFloor then (.error (.message "service clock moved backwards"), d.clear)
  else
    match (d.advanced now).rebuild C transcript registry leases now instant with
    | .error e => (.error e, d.advanced now)
    | .ok rebuilt =>
      (.ok (), { d.advanced now with
        latest := rebuilt.next ∪ (d.advanced now).latest
        view := some rebuilt.view })
end ServiceDirectory

structure ServiceSnapshot where
  observedAt : ℕ
  registry : RegistrySnapshot
  leases : List ServiceLease

namespace ServiceDirectory
variable (d : ServiceDirectory)
/-- The end of a snapshot that was presented before does not move. -/
def envelopeDeadline (observedAt proposed : ℕ) : Except DirectoryError ℕ :=
  match d.envelope with
  | some (observed, deadline) =>
    if observedAt < observed then .error (.message "service snapshot rolled back")
    else if observed = observedAt then .ok (min deadline proposed)
    else .ok proposed
  | none => .ok proposed

def narrow (view : View) (expiresAt deadline : ℕ) : View :=
  { view with validUntil := min view.validUntil expiresAt, deadline := min view.deadline deadline }

def replaceSnapshot (snapshot : ServiceSnapshot) (now instant : ℕ) :
    Except DirectoryError Unit × ServiceDirectory :=
  let expiresAt := saturatingAdd snapshot.observedAt 15
  if now < snapshot.observedAt ∨ expiresAt ≤ now then
    (.error (.message "stale service snapshot"), d.clear)
  else
    match d.envelopeDeadline snapshot.observedAt (instant + fromSecs (expiresAt - now)) with
    | .error e => (.error e, d.clear)
    | .ok deadline =>
      if deadline ≤ instant then (.error (.message "service snapshot expired"), d.clear)
      else
        match d.clear.replace C transcript snapshot.registry snapshot.leases now instant with
        | (.error e, d') => (.error e, d')
        | (.ok _, d') =>
          (.ok (), { d' with
            view := d'.view.map (narrow · expiresAt deadline)
            envelope := some (snapshot.observedAt, deadline) })

def current (now instant : ℕ) : Option View :=
  d.view.filter fun v => v.observedAt ≤ now ∧ now < v.validUntil ∧ instant < v.deadline

def placements (app : AppEnv) (now instant : ℕ) : List Placement :=
  match d.current now instant with
  | none => []
  | some v =>
    ((v.placements app).filter fun p => now < p.expiresAt ∧ instant < p.deadline).map fun p =>
      { p with expiresAt := min p.expiresAt v.validUntil, deadline := min p.deadline v.deadline }

def admittedByGateway (destination peer : IpAddr) : Bool :=
  d.gateway.any (·.admits destination peer)

def admits (destination peer : IpAddr) (now instant : ℕ) : Bool :=
  match d.current now instant with
  | none => false
  | some v =>
    (destination = .v6 v.address && v.peers.contains peer) || d.admittedByGateway destination peer

/-- Only the entry for containers may relay, so that what a peer sends cannot loop. -/
def route (authority : Text) (destination peer : IpAddr) (now instant : ℕ) : PrivateRoute :=
  let destination := destination.toCanonical
  let peer := peer.toCanonical
  match classifyHost authority d.network with
  | .publicHost => .publicRoute
  | .reserved => .forbidden
  | .app app =>
    if d.admits destination peer now instant = false then .forbidden
    else
      let placements := d.placements app now instant
      if placements.any (·.serverId = d.localServer) then .localApp app
      else if d.admittedByGateway destination peer then
        match placements.head? with
        | some p => .remote app p.address
        | none => .unavailable
      else .unavailable
end ServiceDirectory

end Tako.Services
