import Mathlib.Algebra.Ring.Nat
import Mathlib.Data.List.Sort
import Tako.NetworkRequests
import Tako.StatefulPrograms

/-! The runtime of a server: requests are authenticated against the registry, and what they change
is in a local database and a replicated store. The store, the disk and the random numbers are
arbitrary. -/
namespace Tako.Network
open AgreeingMap Effects
def maxRegistryRows : ℕ := 10000

def maxRegistryBytes : ℕ := 16 * 1024 * 1024

def maxRecordBytes : ℕ := 128 * 1024

structure RuntimeLimits where
  maxPending : ℕ
  maxChallenges : ℕ
  maxReplays : ℕ
  authWindowSeconds : ℕ
  challengeSeconds : ℕ
  entitlementSeconds : ℕ

def RuntimeLimits.validate (l : RuntimeLimits) : Except RuntimeError Unit :=
  if l.maxPending = 0 ∨ 10000 < l.maxPending ∨ l.maxChallenges = 0 ∨ 4096 < l.maxChallenges ∨
      l.maxReplays = 0 ∨ 100000 < l.maxReplays ∨ l.authWindowSeconds = 0 ∨
      300 < l.authWindowSeconds ∨ l.challengeSeconds = 0 ∨ 300 < l.challengeSeconds ∨
      l.entitlementSeconds = 0 ∨ 30 * 86400 < l.entitlementSeconds then
    .error (.invalid "runtime limits")
  else .ok ()

structure RuntimeConfig where
  network : NetworkDescriptor
  serverId : DeviceId
  bootId : BootId
  limits : RuntimeLimits

structure ServerKeys where
  deviceId : NetworkId → DeviceKind → Except Error DeviceId
  wgPublicKey : Except Error WgPublicKey
  wireguardPrivateKey : Except Error String

structure Identity where
  network : NetworkDescriptor
  server : DeviceId
  lastTime : ℕ
  authWindow : ℕ

structure NonceRow where
  signer : DeviceId
  nonce : RequestId
  expires : ℕ
deriving DecidableEq

/-- The table `observed_records`, by the kind of record. -/
structure Observed where
  members : AList (fun _ : DeviceId => Member) := ∅
  revocations : AList (fun _ : RevocationId => Revocation) := ∅

structure Database where
  identity : Option Identity := none
  consumedNonces : List NonceRow := []
  revocationNonces : List NonceRow := []
  observed : Observed := {}
  registryFailure : Bool := false
  pendingEntitlements : AList (fun _ : RequestId => ℕ × Entitlement) := ∅

/-- What the server keeps of a challenge, and the number of its issue. -/
structure ChallengeState (X : Exchange) where
  pendingId : RequestId
  expiresAt : ℕ
  proof : PendingWgChallenge X
  serial : ℕ

/-- A grant that was accepted, and what it was checked against. -/
structure Accepted where
  grant : ApproveRequest
  approver : DeviceId
  snapshot : RegistrySnapshot
  now : ℕ
  /-- All that the server had observed. -/
  known : Observed

/-- A call of `append_member`, and what it was made for. -/
structure Admission (X : Exchange) where
  member : Member
  entitlement : Entitlement
  signed : SignedRequest
  pendingId : RequestId
  proof : WgProof
  challenge : ChallengeState X
  snapshot : RegistrySnapshot
  now : ℕ
  approvals : ℕ
  /-- All that the server had observed. -/
  known : Observed

/-- What has happened, for the record: the runtime does not read it. -/
structure Journal (X : Exchange) where
  consumed : List (SignedRequest × ℕ) := []
  approvals : List Accepted := []
  issued : List (ChallengeState X) := []
  taken : List (ChallengeState X × Entitlement) := []
  /-- The last of those that were taken, until a member is admitted on it. -/
  answering : Option (ChallengeState X × Entitlement) := none
  admissions : List (Admission X) := []
  denials : List Revocation := []

structure RuntimeState (X : Exchange) where
  db : Database := {}
  challenges : AList (fun _ : RequestId => ChallengeState X) := ∅
  journal : Journal X := {}

structure World (X : Exchange) (Ω : Type) where
  outside : Ω
  state : RuntimeState X := {}

structure Environment (X : Exchange) (Ω : Type) where
  snapshot : Ω → Except RuntimeError RegistrySnapshot × Ω
  appendMember : Member → Ω → Except RuntimeError Unit × Ω
  appendRevocation : Revocation → Ω → Except RuntimeError Unit × Ω
  appendAck : Ack → Ω → Except RuntimeError Unit × Ω
  diskFails : Ω → Bool × Ω
  randomId : Ω → Except Error RequestId × Ω
  generateX25519 : Ω → Except Error X.Private × Ω

structure HostPeer where
  deviceId : DeviceId
  publicKey : WgPublicKey
  allowedIp : List UInt8
  endpoint : Option SocketAddr
  permissions : Permissions

structure SshAuthorization where
  deviceId : DeviceId
  user : SshUser
  publicKey : SshPublicKey

structure HostDesiredState where
  privateKey : String
  address : List UInt8
  peers : List HostPeer
  sshAuthorizations : List SshAuthorization
  snapshot : RegistrySnapshot

structure Server (Ω : Type) where
  crypto : Crypto
  json : Json
  exchange : Exchange
  environment : Environment exchange Ω
  config : RuntimeConfig
  keys : ServerKeys

inductive RegistryOperation where
  | snapshot
  | mutation
deriving DecidableEq

def sqlTime (time : ℕ) : Except RuntimeError ℕ :=
  if 2 ^ 63 ≤ time then .error (.invalid "timestamp exceeds SQLite integer range") else .ok time

def absDiff (a b : ℕ) : ℕ := (a - b) + (b - a)

section
variable (C : Crypto) (J : Json)
def boundedJsonSize (size : ℕ) : Except RuntimeError ℕ :=
  if maxRegistryBytes < size then .error (.capacity "registry bytes") else .ok size

/-- Once there is no room for a row there is none for a later one. -/
def boundAck (rows : ℕ) (acc : ℕ × List Ack) (ack : Ack) : ℕ × List Ack :=
  let size := J.ack ack + if acc.2.isEmpty then 0 else 1
  if rows + acc.2.length < maxRegistryRows ∧ acc.1 + size ≤ maxRegistryBytes then
    (acc.1 + size, acc.2 ++ [ack])
  else acc

variable (s : RegistrySnapshot)
def boundProjection : Except RuntimeError RegistrySnapshot :=
  let rows := s.members.length + s.revocations.length + 1
  if maxRegistryRows < rows then .error (.capacity "registry projection")
  else do
    let bytes ← boundedJsonSize (J.snapshot { s with acks := [] })
    .ok { s with acks := (s.acks.foldl (boundAck J rows) (bytes, [])).2 }

def validateSnapshot (network : NetworkDescriptor) : Except RuntimeError Unit :=
  if s.network ≠ network then .error (.conflict "network descriptor")
  else if maxRegistryRows < s.members.length + s.revocations.length + s.acks.length + 1 then
    .error (.capacity "registry snapshot")
  else do
    let _ ← boundedJsonSize (J.snapshot s)
    ofDomain (s.validate C)

def serverPins (now : ℕ) : Except RuntimeError (List (DeviceId × ServerInfo)) := do
  let effective ← ofDomain (s.effectiveMembers C now)
  .ok (effective.entries.filterMap fun entry =>
    match entry.2.kind with
    | .server info => some (entry.1, info)
    | .laptop => none)

/-- A record that was observed before does not change. -/
def observeRecord {κ τ : Type} [DecidableEq κ] [DecidableEq τ] (key : τ → κ)
    (seen : AList (fun _ : κ => τ)) (record : τ) : Except RuntimeError (AList (fun _ : κ => τ)) :=
  match seen.lookup (key record) with
  | some old => if old ≠ record then .error (.conflict "observed registry record") else .ok seen
  | none => .ok (seen.insert (key record) record)

namespace Observed
variable (o : Observed)
def add (s : RegistrySnapshot) : Except RuntimeError Observed := do
  let members ← s.members.foldlM (observeRecord Member.deviceId) o.members
  let revocations ← s.revocations.foldlM (observeRecord Revocation.id) o.revocations
  .ok { members, revocations }

def memberList : List Member :=
  (o.members.entries.map (·.2)).insertionSort
    fun a b => a.deviceId.bytes.toList ≤ b.deviceId.bytes.toList

def revocationList : List Revocation :=
  (o.revocations.entries.map (·.2)).insertionSort fun a b => a.id.bytes.toList ≤ b.id.bytes.toList

def bytes : ℕ :=
  (o.memberList.map J.member).sum + (o.revocationList.map J.revocation).sum

def read (s : RegistrySnapshot) : Except RuntimeError RegistrySnapshot :=
  if maxRegistryBytes < o.bytes J ∨
      maxRegistryRows < o.memberList.length + o.revocationList.length then
    .error (.capacity "observed registry")
  else .ok { s with members := o.memberList, revocations := o.revocationList }
end Observed
end

namespace Server
variable {Ω : Type} (S : Server Ω)
abbrev Prog (S : Server Ω) (α : Type) := EStateM RuntimeError (World S.exchange Ω) α

section
variable {α : Type}
def ask (f : Ω → α × Ω) : S.Prog α := fun w =>
  let (a, outside) := f w.outside
  .ok a { w with outside }

def call (f : Ω → Except RuntimeError α × Ω) : S.Prog α := do
  let answer ← S.ask f
  fromExcept answer

def update (f : RuntimeState S.exchange → Except RuntimeError (α × RuntimeState S.exchange)) :
    S.Prog α := fun w =>
  match f w.state with
  | .ok (a, state) => .ok a { w with state }
  | .error e => .error e w

def commit (f : RuntimeState S.exchange → Except RuntimeError (α × RuntimeState S.exchange)) :
    S.Prog α := do
  let fails ← S.ask S.environment.diskFails
  refuse (fails = true) .database
  S.update f

/-- A transaction is committed, or the disk or a check fails and nothing is. -/
def transaction (f : Database → Except RuntimeError (α × Database)) : S.Prog α :=
  S.commit fun s => (f s.db).map fun (a, db) => (a, { s with db })

def query (f : Database → α) : S.Prog α := S.transaction fun db => .ok (f db, db)

def record (f : RuntimeState S.exchange → Journal S.exchange) : S.Prog Unit :=
  S.update fun s => .ok ((), { s with journal := f s })

def challenges : S.Prog (AList (fun _ : RequestId => ChallengeState S.exchange)) :=
  S.update fun s => .ok (s.challenges, s)

def setChallenges (f : AList (fun _ : RequestId => ChallengeState S.exchange) →
    AList (fun _ : RequestId => ChallengeState S.exchange)) : S.Prog Unit :=
  S.update fun s => .ok ((), { s with challenges := f s.challenges })
end

section
/-- What makes the registry unreadable until an operator recovers it. -/
def latches (operation : RegistryOperation) : RuntimeError → Bool
  | .capacity reason =>
    operation = .snapshot || (reason ≠ "registry admissions" && reason ≠ "registry record")
  | _ => false

def latch (operation : RegistryOperation) (e : RuntimeError) : S.Prog Unit :=
  if latches operation e then S.transaction fun db => .ok ((), { db with registryFailure := true })
  else pure ()

def withRegistry {α : Type} (operation : RegistryOperation) (action : S.Prog α) : S.Prog α := do
  let failed ← S.query (·.registryFailure)
  refuse (failed = true) (.capacity "registry requires local recovery")
  onError action (S.latch operation)

variable (s : RegistrySnapshot)
/-- The union with what was observed before is validated before it is committed. -/
def observeTransaction (db : Database) : Except RuntimeError (RegistrySnapshot × Database) := do
  let observed ← db.observed.add s
  let union ← observed.read S.json s
  let union ← boundProjection S.json union
  validateSnapshot S.crypto S.json union S.config.network
  .ok (union, { db with observed })

def observe : S.Prog RegistrySnapshot := do
  let s ← fromExcept (boundProjection S.json s)
  fromExcept (validateSnapshot S.crypto S.json s S.config.network)
  S.transaction (S.observeTransaction s)

def snapshot : S.Prog RegistrySnapshot :=
  S.withRegistry .snapshot do
    let s ← S.call S.environment.snapshot
    S.observe s

def advanceClock (now : ℕ) : S.Prog Unit := do
  let now ← fromExcept (sqlTime now)
  S.transaction fun db =>
    match db.identity with
    | some identity =>
      if identity.lastTime ≤ now then
        .ok ((), { db with identity := some { identity with lastTime := now } })
      else .error (.invalid "server clock moved backwards")
    | none => .error (.invalid "server clock moved backwards")

def requireServer (now : ℕ) : Except RuntimeError Unit := do
  let effective ← ofDomain (s.effectiveMembers S.crypto now)
  if (effective.lookup S.config.serverId).any
      (fun m => m.kind.isServer && m.permissions.serverAdmin)
  then .ok ()
  else .error .denied
end

def liveNonces (rows : List NonceRow) (now : ℕ) : List NonceRow :=
  rows.filter fun row => now ≤ row.expires

def principalLimit : ℕ := (S.config.limits.maxReplays + 15) / 16

def consumeTransaction (signed : SignedRequest) (now : ℕ) (db : Database) :
    Except RuntimeError (Unit × Database) := do
  let now ← sqlTime now
  let consumed := liveNonces db.consumedNonces now
  let revocation := liveNonces db.revocationNonces now
  if (consumed ++ revocation).any
      (fun row => row.signer = signed.signer && row.nonce = signed.nonce) then
    .error .replay
  else
    let emergency := signed.request.isRevoke
    let table := if emergency then revocation else consumed
    if S.config.limits.maxReplays ≤ table.length ∨
        S.principalLimit ≤ table.countP (fun row => row.signer = signed.signer) then
      .error (.capacity "replays")
    else
      let expires ← sqlTime (signed.timestamp + S.config.limits.authWindowSeconds)
      let row : NonceRow := ⟨signed.signer, signed.nonce, expires⟩
      .ok ((), { db with
        consumedNonces := if emergency then consumed else consumed ++ [row]
        revocationNonces := if emergency then revocation ++ [row] else revocation
        pendingEntitlements := retain (fun _ row => now < row.1) db.pendingEntitlements })

def consumeNonce (signed : SignedRequest) (now : ℕ) : S.Prog Unit :=
  S.commit fun s => (S.consumeTransaction signed now s.db).map fun (_, db) =>
    ((), { s with
      db, journal := { s.journal with consumed := s.journal.consumed ++ [(signed, now)] } })

section
def pending (id : RequestId) (now : ℕ) : S.Prog Entitlement := do
  let now ← fromExcept (sqlTime now)
  let row ← S.query fun db => (db.pendingEntitlements.lookup id).filter fun row => now < row.1
  let (_, entitlement) ← fromExcept (row.elim (.error .pendingUnavailable) .ok)
  refuse (2 * maxRecordBytes < S.json.entitlement entitlement) (.capacity "pending record")
  pure entitlement

variable (entitlement : Entitlement)
def checkGrant (s : RegistrySnapshot) (now : ℕ) : Except RuntimeError Unit := do
  let grant := entitlement.grant
  ofDomain (grant.request.verify S.crypto)
  ofDomain grant.permissions.validate
  let id ← ofDomain (grant.request.deviceIdFor S.crypto S.config.network.id)
  if grant.kind.deviceKind ≠ grant.request.kind ∨ id = entitlement.approver then
    .error (.invalid "grant kind or self-approval")
  else if grant.expiresAt ≤ now ∨ 2 ^ 63 ≤ grant.expiresAt ∨
      grant.request.expiresAt.any (fun e => e ≤ now || e < grant.expiresAt) ∨
      grant.memberExpiresAt.any (fun e => e ≤ now) then
    .error .pendingUnavailable
  else do
    match grant.kind with
    | .server info => ofDomain (info.validate S.crypto)
    | .laptop => .ok ()
    let effective ← ofDomain (s.effectiveMembers S.crypto now)
    match effective.lookup entitlement.approver with
    | none => .error .denied
    | some parent =>
      let rights := parent.permissions
      if rights.networkAdmin = false ∨
          (grant.permissions.serverAdmin ∧ rights.serverAdmin = false) ∨
          (grant.kind.isServer ∧ rights.serverAdmin = false) ∨
          (grant.permissions.sshUser.isSome ∧ rights.serverAdmin = false ∧
            grant.permissions.sshUser ≠ rights.sshUser) ∨
          (rights.serverAdmin = false ∧ ¬grant.permissions.deployments ⊆ rights.deployments) ∨
          parent.expiresAt.any (fun e => grant.memberExpiresAt.all fun child => e < child) then
        .error .denied
      else do
        let wg := grant.request.wgPublicKey.fingerprint S.crypto
        let ssh ← ofDomain (grant.request.sshPublicKey.fingerprint S.crypto)
        if s.revocations.any (fun revocation => revocation.names id wg ssh) then .error .denied
        else .ok ()

/-- The expiry of a row that is there already is left as it is. -/
def saveRow (db : Database) : Database :=
  let id := entitlement.grant.pendingId
  let expires := (db.pendingEntitlements.lookup id).elim entitlement.grant.expiresAt (·.1)
  { db with pendingEntitlements := db.pendingEntitlements.insert id (expires, entitlement) }

def savePending (note : RuntimeState S.exchange → Journal S.exchange) : S.Prog Unit := do
  refuse (2 * maxRecordBytes < S.json.entitlement entitlement) (.capacity "pending record")
  let _ ← fromExcept (sqlTime entitlement.grant.expiresAt)
  S.commit fun s => .ok ((), { s with db := saveRow entitlement s.db, journal := note s })

/-- A grant with an id that is taken has to be the same one. -/
def checkExisting (previous : Entitlement) : Except RuntimeError Unit :=
  if previous.grant ≠ entitlement.grant ∨ previous.approver ≠ entitlement.approver then
    .error (.conflict "pending ID")
  else .ok ()

def approvePending (grant : ApproveRequest) (approver : DeviceId) (s : RegistrySnapshot)
    (now : ℕ) : S.Prog RpcResponse := do
  let entitlement : Entitlement := ⟨grant, approver, none⟩
  fromExcept (S.checkGrant entitlement s now)
  refuse (S.config.limits.entitlementSeconds < grant.expiresAt - now)
    (.invalid "entitlement exceeds maximum lifetime")
  let pins ← fromExcept (serverPins S.crypto s now)
  refuse (¬pins.any fun pin => pin.1 = S.config.serverId && pin.2.httpsCertificatePem.isSome)
    (.invalid "issuer requires a public HTTPS certificate")
  let note (state : RuntimeState S.exchange) : Journal S.exchange :=
    { state.journal with
      approvals := state.journal.approvals ++ [⟨grant, approver, s, now, state.db.observed⟩] }
  let existing ← S.query fun db => db.pendingEntitlements.lookup grant.pendingId
  match existing with
  | some (_, previous) => do
    fromExcept (checkExisting entitlement previous)
    S.record note
  | none => do
    let count ← S.query fun db => db.pendingEntitlements.keys.length
    refuse (S.config.limits.maxPending ≤ count) (.capacity "pending entitlements")
    S.savePending entitlement note
  pure (.pending
    { request := grant.request, pendingId := grant.pendingId, issuer := S.config.serverId
      expiresAt := grant.expiresAt, trustedServers := pins, snapshot := s })

def activeProfile (s : RegistrySnapshot) (now : ℕ) :
    Except RuntimeError (Option NetworkPublicProfile) :=
  match entitlement.candidate with
  | none => .ok none
  | some candidate =>
    match s.members.find? (fun m => m.deviceId = candidate.deviceId) with
    | none => .ok none
    | some existing =>
      if existing ≠ candidate then .error (.conflict "activated member")
      else do
        let effective ← ofDomain (s.effectiveMembers S.crypto now)
        if (effective.lookup candidate.deviceId).isNone then .error .denied
        else do
          let pins ← serverPins S.crypto s now
          .ok (some ⟨entitlement.grant.request, pins, s⟩)

def issueChallenge (challengeId pendingId : RequestId) (expires : ℕ)
    (proof : PendingWgChallenge S.exchange) : S.Prog Unit :=
  S.update fun s => .ok ((),
    { s with
      challenges := s.challenges.insert challengeId
        ⟨pendingId, expires, proof, s.journal.issued.length⟩
      journal := { s.journal with
        issued := s.journal.issued ++ [⟨pendingId, expires, proof, s.journal.issued.length⟩] } })

def begin (pendingId : RequestId) (entitlement : Entitlement) (s : RegistrySnapshot) (now : ℕ) :
    S.Prog RpcResponse := do
  fromExcept (S.checkGrant entitlement s now)
  let profile ← fromExcept (S.activeProfile entitlement s now)
  match profile with
  | some profile => pure (.active profile)
  | none => do
    S.setChallenges (retain fun _ state => state.pendingId ≠ pendingId)
    let challenges ← S.challenges
    refuse (S.config.limits.maxChallenges ≤ challenges.keys.length) (.capacity "WG challenges")
    let expires := min (now + S.config.limits.challengeSeconds) entitlement.grant.expiresAt
    let privateKey ← S.ask S.environment.generateX25519
    let nonce ← S.ask S.environment.randomId
    let proof ← fromExcept
      (ofDomain (WgChallenge.begin S.crypto S.exchange entitlement.grant.request
      S.config.network.id now expires privateKey nonce))
    let challengeId ← S.ask S.environment.randomId
    let challengeId ← fromExcept (ofDomain challengeId)
    S.issueChallenge challengeId pendingId expires proof
    pure (.challenge challengeId proof.challenge)

/-- A retry admits the very record that the first attempt has stored. -/
def planCandidate (verified : VerifiedEnrollment) (s : RegistrySnapshot) (now : ℕ) :
    Except RuntimeError Member :=
  match entitlement.candidate with
  | some candidate => do
    let approved ← ofDomain (s.approve S.crypto verified
      { kind := candidate.kind, permissions := candidate.permissions
        approvedBy := candidate.approvedBy, independentAdmin := false
        createdAt := candidate.createdAt, expiresAt := candidate.expiresAt })
    if approved ≠ candidate then .error (.conflict "activation journal") else .ok candidate
  | none =>
    ofDomain (s.approve S.crypto verified
      { kind := entitlement.grant.kind, permissions := entitlement.grant.permissions
        approvedBy := some entitlement.approver, independentAdmin := false
        createdAt := now, expiresAt := entitlement.grant.memberExpiresAt })

/-- The challenge of this applicant, which can be used once only. -/
def takeChallenge (pendingId challengeId : RequestId) (entitlement : Entitlement) :
    S.Prog (ChallengeState S.exchange) := do
  let challenges ← S.challenges
  let state ← fromExcept ((challenges.lookup challengeId).elim (.error .challengeUnavailable) .ok)
  refuse (state.pendingId ≠ pendingId) .challengeUnavailable
  S.update fun s => .ok (state,
    { s with
      challenges := s.challenges.erase challengeId
      journal := { s.journal with
        taken := s.journal.taken ++ [(state, entitlement)]
        answering := some (state, entitlement) } })

def complete (signed : SignedRequest) (pendingId challengeId : RequestId) (proof : WgProof)
    (entitlement : Entitlement) (s : RegistrySnapshot) (now : ℕ) : S.Prog RpcResponse := do
  fromExcept (S.checkGrant entitlement s now)
  let profile ← fromExcept (S.activeProfile entitlement s now)
  match profile with
  | some profile => pure (.active profile)
  | none => do
    let state ← S.takeChallenge pendingId challengeId entitlement
    let verified ← fromExcept (ofDomain (state.proof.verify S.exchange proof now))
    let candidate ← fromExcept (S.planCandidate entitlement verified s now)
    let entitlement := { entitlement with candidate := some candidate }
    S.savePending entitlement (·.journal)
    S.withRegistry .mutation do
      S.record fun ⟨db, _, journal⟩ =>
        { journal with
          answering := none
          admissions := journal.admissions ++
            [⟨candidate, entitlement, signed, pendingId, proof, state, s, now,
              journal.approvals.length, db.observed⟩] }
      S.call (S.environment.appendMember candidate)
    let updated ← S.snapshot
    fromExcept (S.requireServer updated now)
    fromExcept (S.checkGrant entitlement updated now)
    let profile ← fromExcept (S.activeProfile entitlement updated now)
    let profile ← fromExcept
      (profile.elim (.error (.corrosion "admission absent after write")) .ok)
    pure (.active profile)
end

def appendRevocation (r : Revocation) : S.Prog Unit := do
  S.record fun state => { state.journal with denials := state.journal.denials ++ [r] }
  S.call (S.environment.appendRevocation r)

def republishRevocation (id : RevocationId) : S.Prog Revocation :=
  S.withRegistry .mutation do
    let row ← S.query fun db => db.observed.revocations.lookup id
    let revocation ← fromExcept (row.elim (.error (.invalid "revocation is not recorded")) .ok)
    refuse (maxRegistryBytes < S.json.revocation revocation) (.capacity "observed registry")
    refuse (revocation.id ≠ id) (.conflict "recorded revocation ID")
    S.appendRevocation revocation
    pure revocation

/-- The denial is recorded before it is published. -/
def revoke (id : RevocationId) (signer target : DeviceId) (s : RegistrySnapshot) (now : ℕ) :
    S.Prog RpcResponse := do
  let revocation ← fromExcept (ofDomain (s.planRevocation S.crypto id signer target now))
  let observed :=
    if revocation ∈ s.revocations then s
    else { s with revocations := s.revocations ++ [revocation] }
  S.withRegistry .mutation do
    let _ ← S.observe observed
    S.appendRevocation revocation
  pure (.revoked revocation)

section
variable (signed : SignedRequest) (s : RegistrySnapshot)
/-- A denial that is recorded already can be published again by whoever made it. -/
def priorRevocation : Option Revocation :=
  match signed.request with
  | .revoke id _ => s.revocations.find? fun r => r.id = id
  | _ => none

def checkRepublication (previous : Revocation) (s : RegistrySnapshot) :
    Except RuntimeError Unit := do
  let target :=
    match signed.request with
    | .revoke _ target => target
    | _ => previous.target
  if previous.revokedBy ≠ signed.signer ∨ previous.target ≠ target then
    .error (.conflict "revocation ID")
  else
    match s.members.find? (fun m => m.deviceId = signed.signer) with
    | none => .error .denied
    | some m => do
      signed.verify S.crypto S.json m.request.sshPublicKey
      if m.wgVerified = false ∨ m.permissions.networkAdmin = false ∨
          (s.members.any (fun m => m.deviceId = target && m.kind.isServer) ∧
            m.permissions.serverAdmin = false) then
        .error .denied
      else .ok ()

/-- The signer of an ordinary request is an effective member. -/
def checkSigner (now : ℕ) : Except RuntimeError Unit := do
  let effective ← ofDomain (s.effectiveMembers S.crypto now)
  match effective.lookup signed.signer with
  | none => .error .denied
  | some m => do
    signed.verify S.crypto S.json m.request.sshPublicKey
    let administers : Bool :=
      match signed.request with
      | .approve _ => true
      | .revoke _ _ => true
      | _ => false
    if administers = true ∧ m.permissions.networkAdmin = false then .error .denied else .ok ()

def applicant (pendingId : RequestId) (signed : SignedRequest) (now : ℕ) : S.Prog Entitlement := do
  let entitlement ← S.pending pendingId now
  let id ← fromExcept (ofDomain
    (entitlement.grant.request.deviceIdFor S.crypto S.config.network.id))
  refuse (id ≠ signed.signer) .authentication
  fromExcept (signed.verify S.crypto S.json entitlement.grant.request.sshPublicKey)
  pure entitlement

def authenticate (now : ℕ) : S.Prog (Option Entitlement) :=
  match signed.request with
  | .begin pendingId => some <$> S.applicant pendingId signed now
  | .complete pendingId _ _ => some <$> S.applicant pendingId signed now
  | _ => do
    fromExcept (S.checkSigner signed s now)
    pure none

def serve (entitlement : Option Entitlement) (s : RegistrySnapshot) (now : ℕ) :
    S.Prog RpcResponse :=
  match signed.request with
  | .authorize action => do
    fromExcept action.validate
    let permissions ← fromExcept (ofDomain (s.permissions S.crypto signed.signer now))
    pure (.authorized signed.signer permissions action)
  | .snapshot => pure (.snapshot s)
  | .approve grant => S.approvePending grant signed.signer s now
  | .begin pendingId => do
    let entitlement ← fromExcept (entitlement.elim (.error .pendingUnavailable) .ok)
    S.begin pendingId entitlement s now
  | .complete pendingId challengeId proof => do
    let entitlement ← fromExcept (entitlement.elim (.error .pendingUnavailable) .ok)
    S.complete signed pendingId challengeId proof entitlement s now
  | .revoke id target => S.revoke id signed.signer target s now

def Addressed (method path : String) (now : ℕ) : Prop :=
  signed.networkId = S.config.network.id ∧ signed.serverId = S.config.serverId ∧
    method = "POST" ∧ path = signed.request.path ∧ now ≤ 2 ^ 63 - 1 - 600 ∧
    absDiff signed.timestamp now ≤ S.config.limits.authWindowSeconds

instance (signed : SignedRequest) (method path : String) (now : ℕ) :
    Decidable (S.Addressed signed method path now) := by
  unfold Addressed
  infer_instance

def handle (method path : String) (now : ℕ) : S.Prog RpcResponse := do
  fromExcept (signed.checkSize S.json)
  refuse (¬S.Addressed signed method path now) .authentication
  S.advanceClock now
  let s ← S.snapshot
  match priorRevocation signed s with
  | some previous => do
    fromExcept (S.checkRepublication signed previous s)
    S.consumeNonce signed now
    let revocation ← S.republishRevocation previous.id
    pure (.revoked revocation)
  | none => do
    fromExcept (S.requireServer s now)
    let entitlement ← S.authenticate signed s now
    S.consumeNonce signed now
    S.setChallenges (retain fun _ challenge => now < challenge.expiresAt)
    S.serve signed entitlement s now
end

def hostPeer (id : DeviceId) (m : Member) : HostPeer where
  deviceId := id
  publicKey := m.request.wgPublicKey
  allowedIp := m.networkId.address S.crypto m.request.wgPublicKey
  endpoint :=
    match m.kind with
    | .laptop => none
    | .server info => some info.wireguardEndpoint
  permissions := m.permissions

def desiredHostState (now : ℕ) : S.Prog HostDesiredState := do
  S.advanceClock now
  let s ← S.snapshot
  let serving : Bool := (S.requireServer s now).toBool
  let effective ← fromExcept (ofDomain (s.effectiveMembers S.crypto now))
  let others := effective.entries.filter fun entry => serving && entry.1 ≠ S.config.serverId
  let privateKey ← fromExcept (ofDomain S.keys.wireguardPrivateKey)
  let key ← fromExcept (ofDomain S.keys.wgPublicKey)
  pure
    { privateKey, address := S.config.network.id.address S.crypto key
      peers := others.map fun entry => S.hostPeer entry.1 entry.2
      sshAuthorizations := others.filterMap fun entry =>
        entry.2.permissions.sshUser.map fun user => ⟨entry.1, user, entry.2.request.sshPublicKey⟩
      snapshot := s }

def acknowledgeAll : List Revocation → S.Prog Unit
  | [] => pure ()
  | r :: rest => do
    S.withRegistry .mutation (S.call (S.environment.appendAck
      ⟨r.id, S.config.serverId, S.config.bootId⟩))
    acknowledgeAll rest

def acknowledgeApplied (applied : RegistrySnapshot) : S.Prog Unit := do
  fromExcept (validateSnapshot S.crypto S.json applied S.config.network)
  let current ← S.snapshot
  refuse (¬applied.revocations.all fun r => r ∈ current.revocations)
    (.conflict "applied revocation")
  S.acknowledgeAll applied.revocations

def freshIdentity : Identity :=
  ⟨S.config.network, S.config.serverId, 0, S.config.limits.authWindowSeconds⟩

/-- The network, the server and the window of a database do not change. -/
def openTransaction (db : Database) : Except RuntimeError (Unit × Database) :=
  let identity := db.identity.getD S.freshIdentity
  if identity.network ≠ S.config.network ∨ identity.server ≠ S.config.serverId ∨
      identity.authWindow ≠ S.config.limits.authWindowSeconds then
    .error (.conflict "local runtime identity")
  else .ok ((), { db with identity := some identity })

def openRuntime : S.Prog Unit := do
  S.setChallenges fun _ => ∅
  fromExcept S.config.limits.validate
  let id ← fromExcept (ofDomain (S.keys.deviceId S.config.network.id .server))
  refuse (id ≠ S.config.serverId) (.invalid "server keys do not match config")
  S.transaction S.openTransaction
  let _ ← S.snapshot
  pure ()

inductive RuntimeCall where
  | openRuntime
  | snapshot
  | handle (signed : SignedRequest) (method path : String) (now : ℕ)
  | republishRevocation (id : RevocationId)
  | desiredHostState (now : ℕ)
  | acknowledgeApplied (applied : RegistrySnapshot)

def RuntimeCall.requests : RuntimeCall → List SignedRequest
  | .handle signed _ _ _ => [signed]
  | _ => []

inductive Answer where
  | done
  | snapshot (s : RegistrySnapshot)
  | response (r : RpcResponse)
  | revocation (r : Revocation)
  | host (h : HostDesiredState)

def Answer.snapshots : Answer → List RegistrySnapshot
  | .snapshot s => [s]
  | .response r => r.snapshots
  | .host h => [h.snapshot]
  | _ => []

/-- Who the host lets in, and by which key. -/
inductive HostEntry where
  | peer (p : HostPeer)
  | ssh (a : SshAuthorization)

def Answer.entries : Answer → List HostEntry
  | .host h => h.peers.map .peer ++ h.sshAuthorizations.map .ssh
  | _ => []

def perform : RuntimeCall → S.Prog Answer
  | .openRuntime => (fun _ => .done) <$> S.openRuntime
  | .snapshot => .snapshot <$> S.snapshot
  | .handle signed method path now => .response <$> S.handle signed method path now
  | .republishRevocation id => .revocation <$> S.republishRevocation id
  | .desiredHostState now => .host <$> S.desiredHostState now
  | .acknowledgeApplied applied => (fun _ => .done) <$> S.acknowledgeApplied applied

def after (w : World S.exchange Ω) (calls : List RuntimeCall) : World S.exchange Ω :=
  calls.foldl (fun w call => final (S.perform call w)) w
end Server

end Tako.Network
