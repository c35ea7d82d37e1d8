import Tako.NetworkRegistry

/-! What devices ask of a server: signed requests, challenges for the WireGuard key of
an applicant, and the answers. -/
namespace Tako.Network
inductive RuntimeError where
  | domain (error : Error)
  | invalid (what : String)
  | authentication
  | denied
  | replay
  | capacity (what : String)
  | conflict (what : String)
  | pendingUnavailable
  | challengeUnavailable
  | transport
  | corrosion (what : String)
  | database
deriving DecidableEq

/-- The `?` on a result of the registry. -/
def ofDomain {α : Type} (x : Except Error α) : Except RuntimeError α := x.mapError .domain

def rpcNamespace : String := "tako-network-rpc-v1"

def maxRpcBytes : ℕ := 128 * 1024

def maxSignatureBytes : ℕ := 2048

inductive ManagementAction where
  | rpc (scope : Option AppEnv) (sha256 : String)
  | releaseArtifact (scope : Option AppEnv) (sha256 : String)
  | logs (scope : Option AppEnv) (sha256 : String)
deriving DecidableEq

namespace ManagementAction
def scope : ManagementAction → Option AppEnv
  | .rpc scope _ => scope
  | .releaseArtifact scope _ => scope
  | .logs scope _ => scope

def sha256 : ManagementAction → String
  | .rpc _ sha256 => sha256
  | .releaseArtifact _ sha256 => sha256
  | .logs _ sha256 => sha256

def isRpc : ManagementAction → Bool
  | .rpc _ _ => true
  | _ => false

def validate (action : ManagementAction) : Except RuntimeError Unit :=
  if action.sha256.utf8ByteSize ≠ 64 ∨
      action.sha256.toList.all (fun c => c.isDigit || ('a' ≤ c && c ≤ 'f')) = false then
    .error (.invalid "management commitment")
  else if action.isRpc = false ∧ action.scope.isNone then
    .error (.invalid "management scope")
  else .ok ()
end ManagementAction

structure ApproveRequest where
  pendingId : RequestId
  request : EnrollmentRequest
  kind : MemberKind
  permissions : Permissions
  expiresAt : ℕ
  memberExpiresAt : Option ℕ
deriving DecidableEq

structure WgProof where
  response : KeyFingerprint
deriving DecidableEq

inductive RpcRequest where
  | authorize (action : ManagementAction)
  | approve (grant : ApproveRequest)
  | begin (pendingId : RequestId)
  | complete (pendingId challengeId : RequestId) (proof : WgProof)
  | snapshot
  | revoke (id : RevocationId) (target : DeviceId)
deriving DecidableEq

namespace RpcRequest
def path : RpcRequest → String
  | .authorize _ => "/v1/network/authorize"
  | .approve _ => "/v1/network/approve"
  | .begin _ => "/v1/network/begin"
  | .complete _ _ _ => "/v1/network/complete"
  | .snapshot => "/v1/network/snapshot"
  | .revoke _ _ => "/v1/network/revoke"

def isRevoke : RpcRequest → Bool
  | .revoke _ _ => true
  | _ => false
end RpcRequest

structure SignedRequest where
  networkId : NetworkId
  serverId : DeviceId
  signer : DeviceId
  timestamp : ℕ
  nonce : RequestId
  request : RpcRequest
  signature : String
deriving DecidableEq

/-- A grant as the server stores it, with the record that it may have admitted. -/
structure Entitlement where
  grant : ApproveRequest
  approver : DeviceId
  candidate : Option Member
deriving DecidableEq

/-- What `serde_json` writes, as far as its length or its bytes matter. -/
structure Json where
  request : RpcRequest → List UInt8
  signed : SignedRequest → ℕ
  snapshot : RegistrySnapshot → ℕ
  member : Member → ℕ
  revocation : Revocation → ℕ
  ack : Ack → ℕ
  entitlement : Entitlement → ℕ

/-- The exchange of X25519 keys and the code over it, as `openssl` computes them. -/
structure Exchange where
  Private : Type
  publicKey : Private → Except Error WgPublicKey
  response : Private → WgPublicKey → List UInt8 → Except Error KeyFingerprint

variable (C : Crypto) (J : Json) (X : Exchange)
namespace SignedRequest
variable (signed : SignedRequest)
def checkSize : Except RuntimeError Unit :=
  if maxSignatureBytes < signed.signature.utf8ByteSize ∨ maxRpcBytes < J.signed signed then
    .error (.capacity "RPC bytes")
  else .ok ()

def transcript : Except RuntimeError (List UInt8) :=
  let body := J.request signed.request
  if maxRpcBytes < body.length then .error (.capacity "RPC body")
  else
    let head := utf8 "tako-network-native-rpc-v1\x00" ++ signed.networkId.bytes.toList ++
      signed.serverId.bytes.toList ++ signed.signer.bytes.toList
    .ok (appendField (appendField head (utf8 "POST")) (utf8 signed.request.path) ++
      toBeBytes 8 signed.timestamp ++ signed.nonce.bytes.toList ++ (C.sha256 body).toList)

/-- A stored key parses, so every failure is one of the signature. -/
def verify (key : SshPublicKey) : Except RuntimeError Unit := do
  signed.checkSize J
  let signature ← (C.signatureFromPem signed.signature).mapError fun _ => .authentication
  let pem ← (C.signatureToPem signature).mapError fun _ => .authentication
  if C.signatureIsSha256 signature = false ∨ pem ≠ signed.signature then .error .authentication
  else
    let bytes ← signed.transcript C J
    (C.sshVerify key.text rpcNamespace bytes signature).mapError fun _ => .authentication
end SignedRequest

structure WgChallenge where
  networkId : NetworkId
  deviceId : DeviceId
  requestDigest : KeyFingerprint
  nonce : RequestId
  ephemeralPublicKey : WgPublicKey
  expiresAt : ℕ
deriving DecidableEq

structure PendingWgChallenge where
  challenge : WgChallenge
  privateKey : X.Private
  request : EnrollmentRequest

namespace WgChallenge
def transcript (c : WgChallenge) : List UInt8 :=
  utf8 "tako-wg-possession-v1\x00" ++ c.networkId.bytes.toList ++ c.deviceId.bytes.toList ++
    c.requestDigest.bytes.toList ++ c.nonce.bytes.toList ++ c.ephemeralPublicKey.bytes.toList ++
    toBeBytes 8 c.expiresAt

def begin (request : EnrollmentRequest) (networkId : NetworkId) (now expiresAt : ℕ)
    (privateKey : Except Error X.Private) (nonce : Except Error RequestId) :
    Except Error (PendingWgChallenge X) := do
  request.verify C
  if expiresAt ≤ now ∨ 300 < expiresAt - now ∨
      request.expiresAt.any (fun expiry => expiry ≤ now) then
    .error (.invalid "challenge expiry" "must be live and at most 300 seconds")
  else
    let privateKey ← privateKey
    let deviceId ← request.deviceIdFor C networkId
    let bytes ← request.canonicalBytes C
    let nonce ← nonce
    let ephemeralPublicKey ← X.publicKey privateKey
    .ok
      { challenge :=
          { networkId, deviceId, requestDigest := KeyFingerprint.ofBytes C bytes, nonce
            ephemeralPublicKey, expiresAt }
        privateKey, request }
end WgChallenge

def PendingWgChallenge.verify (p : PendingWgChallenge X) (proof : WgProof) (now : ℕ) :
    Except Error VerifiedEnrollment := do
  if p.challenge.expiresAt ≤ now ∨ p.request.expiresAt.any (fun expiry => expiry ≤ now) then
    .error (.invalid "WG challenge" "expired")
  else
    let expected ← X.response p.privateKey p.request.wgPublicKey p.challenge.transcript
    if expected ≠ proof.response then
      .error (.invalid "WG proof" "private-key possession not demonstrated")
    else .ok ⟨p.request, p.challenge.networkId, p.challenge.deviceId⟩

structure PendingApprovalProfile where
  request : EnrollmentRequest
  pendingId : RequestId
  issuer : DeviceId
  expiresAt : ℕ
  trustedServers : List (DeviceId × ServerInfo)
  snapshot : RegistrySnapshot

structure NetworkPublicProfile where
  request : EnrollmentRequest
  trustedServers : List (DeviceId × ServerInfo)
  snapshot : RegistrySnapshot

inductive RpcResponse where
  | authorized (signer : DeviceId) (permissions : Permissions) (action : ManagementAction)
  | pending (profile : PendingApprovalProfile)
  | challenge (challengeId : RequestId) (challenge : WgChallenge)
  | active (profile : NetworkPublicProfile)
  | snapshot (snapshot : RegistrySnapshot)
  | revoked (revocation : Revocation)

def RpcResponse.snapshots : RpcResponse → List RegistrySnapshot
  | .pending profile => [profile.snapshot]
  | .active profile => [profile.snapshot]
  | .snapshot s => [s]
  | _ => []

namespace RegistrySnapshot
variable (s : RegistrySnapshot)
def permissions (device : DeviceId) (now : ℕ) : Except Error Permissions := do
  let effective ← s.effectiveMembers C now
  match effective.lookup device with
  | some m => .ok m.permissions
  | none => .error (.notEffective device)

def serverIds : Finset DeviceId :=
  ((s.members.filter fun m => m.wgVerified && m.kind.isServer).map (·.deviceId)).toFinset

def planRevocation (id : RevocationId) (revokedBy target : DeviceId) (now : ℕ) :
    Except Error Revocation := do
  let permissions ← s.permissions C revokedBy now
  if permissions.networkAdmin = false then
    .error (.permissionDenied "revocation requires network administration")
  else
    match s.members.find? (fun m => m.wgVerified && m.deviceId = target) with
    | none => .error (.notEffective target)
    | some m =>
      if m.kind.isServer ∧ permissions.serverAdmin = false then
        .error (.permissionDenied "server revocation requires server administration")
      else
        let sshFingerprint ← m.request.sshPublicKey.fingerprint C
        let revocation : Revocation :=
          { id, target, wgFingerprint := m.request.wgPublicKey.fingerprint C, sshFingerprint
            capturedServers := s.serverIds, revokedBy, createdAt := now }
        if s.revocations.any (fun previous => previous.id = id && previous ≠ revocation) then
          .error (.conflict "revocation")
        else .ok revocation
end RegistrySnapshot

end Tako.Network
