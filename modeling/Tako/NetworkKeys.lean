import Mathlib.Algebra.Ring.Nat
import Mathlib.Data.Finset.Card

/-! Devices of a network: their ids, keys and enrollment requests. What other
crates compute is a parameter. -/
namespace Tako.Network
structure NetworkId where
  bytes : Vector UInt8 16
deriving DecidableEq

structure RequestId where
  bytes : Vector UInt8 16
deriving DecidableEq

structure RevocationId where
  bytes : Vector UInt8 16
deriving DecidableEq

structure BootId where
  bytes : Vector UInt8 16
deriving DecidableEq

structure DeviceId where
  bytes : Vector UInt8 32
deriving DecidableEq

structure KeyFingerprint where
  bytes : Vector UInt8 32
deriving DecidableEq

structure WgPublicKey where
  bytes : Vector UInt8 32
deriving DecidableEq

structure SshPublicKey where
  text : String
deriving DecidableEq

structure DeviceName where
  text : String
deriving DecidableEq

structure SshUser where
  text : String
deriving DecidableEq

/-- `app/environment`. -/
structure AppEnv where
  text : String
deriving DecidableEq

inductive DeviceKind where
  | laptop
  | server
deriving DecidableEq

def DeviceKind.tag : DeviceKind → UInt8
  | .laptop => 0
  | .server => 1

inductive Error where
  | invalid (field reason : String)
  | conflict (what : String)
  | notEffective (device : DeviceId)
  | permissionDenied (why : String)
  | unknownRevocation
  | ssh (message : String)
  | crypto (message : String)
deriving DecidableEq

/-- The crates `openssl` and `ssh_key`. -/
structure Crypto where
  sha256 : List UInt8 → Vector UInt8 32
  /-- `PublicKey::from_openssh`, then `to_bytes`. -/
  sshBytes : String → Except Error (List UInt8)
  Signature : Type
  signatureFromPem : String → Except Error Signature
  signatureIsSha256 : Signature → Bool
  signatureToPem : Signature → Except Error String
  /-- `PublicKey::from_openssh`, then `verify` of a namespace and a message. -/
  sshVerify : String → String → List UInt8 → Signature → Except Error Unit
  Certificate : Type
  certificateFromPem : String → Option Certificate
  certificateToPem : Certificate → Except Error String
  /-- The public key of a certificate in DER. -/
  certificateKey : Certificate → Except Error (List UInt8)

def utf8 (text : String) : List UInt8 := text.toUTF8.data.toList

/-- The `width` low bytes, most significant first. -/
def toBeBytes (width n : ℕ) : List UInt8 :=
  (List.range width).map fun i => UInt8.ofNat (n >>> (8 * (width - 1 - i)))

theorem toBeBytes_succ (width n : ℕ) :
    toBeBytes (width + 1) n = UInt8.ofNat (n >>> (8 * width)) :: toBeBytes width n := by
  unfold toBeBytes
  rw [List.range_succ_eq_map, List.map_cons, List.map_map]
  congr 1
  apply List.map_congr_left
  intro i _
  have hshift : width + 1 - 1 - i.succ = width - 1 - i := by omega
  rw [Function.comp_apply, hshift]

theorem length_toBeBytes (width n : ℕ) : (toBeBytes width n).length = width := by
  simp [toBeBytes]

theorem mod_eq_of_toBeBytes {width m n : ℕ} (h : toBeBytes width m = toBeBytes width n) :
    m % 256 ^ width = n % 256 ^ width := by
  induction width with
  | zero => simp [Nat.mod_one]
  | succ width ih =>
    rw [toBeBytes_succ, toBeBytes_succ] at h
    obtain ⟨hfirst, hrest⟩ := List.cons.inj h
    have hbyte := congrArg UInt8.toNat hfirst
    simp only [UInt8.toNat_ofNat', Nat.shiftRight_eq_div_pow, Nat.pow_mul] at hbyte
    rw [Nat.mod_pow_succ, Nat.mod_pow_succ, ih hrest]
    exact congrArg (n % 256 ^ width + 256 ^ width * ·) hbyte

def appendField (bytes field : List UInt8) : List UInt8 :=
  bytes ++ toBeBytes 4 field.length ++ field

variable (C : Crypto)
def KeyFingerprint.ofBytes (bytes : List UInt8) : KeyFingerprint := ⟨C.sha256 bytes⟩

def WgPublicKey.fingerprint (key : WgPublicKey) : KeyFingerprint :=
  KeyFingerprint.ofBytes C key.bytes.toList

def SshPublicKey.fingerprint (key : SshPublicKey) : Except Error KeyFingerprint := do
  let bytes ← C.sshBytes key.text
  .ok (KeyFingerprint.ofBytes C bytes)

/-- An address of `fd00::/8`: five bytes for the network, ten for the host. -/
def NetworkId.address (network : NetworkId) (key : WgPublicKey) : List UInt8 :=
  let networkHash := C.sha256 (utf8 "tako-network-prefix-v1\x00" ++ network.bytes.toList)
  let hostHash := C.sha256 (utf8 "tako-network-host-v1\x00" ++ network.bytes.toList ++
    key.bytes.toList)
  [0xfd] ++ networkHash.toList.take 5 ++ hostHash.toList.take 10

def DeviceId.fromKeys (network : NetworkId) (kind : DeviceKind) (ssh : SshPublicKey)
    (wg : WgPublicKey) : Except Error DeviceId := do
  let sshBytes ← C.sshBytes ssh.text
  .ok ⟨C.sha256 (utf8 "tako-device-v1\x00" ++ network.bytes.toList ++ [kind.tag] ++ sshBytes ++
    wg.bytes.toList)⟩

def enrollmentVersion : ℕ := 1

def enrollmentNamespace : String := "tako-network-enrollment-v1"

structure EnrollmentRequest where
  version : ℕ
  networkId : Option NetworkId
  kind : DeviceKind
  requestId : RequestId
  deviceId : Option DeviceId
  name : DeviceName
  wgPublicKey : WgPublicKey
  sshPublicKey : SshPublicKey
  expiresAt : Option ℕ
  proof : String
deriving DecidableEq

namespace EnrollmentRequest
variable (r : EnrollmentRequest)
def deviceIdFor (network : NetworkId) : Except Error DeviceId :=
  if r.networkId.any (fun target => target ≠ network) then
    .error (.invalid "network ID" "request targets a different network")
  else DeviceId.fromKeys C network r.kind r.sshPublicKey r.wgPublicKey

def canonicalBytes : Except Error (List UInt8) := do
  let network := r.networkId.elim [0] (fun network => 1 :: network.bytes.toList)
  let device := r.deviceId.elim [0] (fun id => 1 :: id.bytes.toList)
  let expiry := r.expiresAt.elim [0] (fun expiry => 1 :: toBeBytes 8 expiry)
  let head := utf8 "tako-network-enrollment\x00" ++ toBeBytes 4 r.version ++ network ++
    [r.kind.tag] ++ r.requestId.bytes.toList ++ device ++ expiry
  let named := appendField head (utf8 r.name.text) ++ r.wgPublicKey.bytes.toList
  let sshBytes ← C.sshBytes r.sshPublicKey.text
  .ok (appendField named sshBytes)

def checkDeviceId : Except Error Unit :=
  let mismatch := Error.invalid "device ID" "does not match target network, kind, and keys"
  match r.networkId, r.deviceId with
  | some network, some id => do
    let expected ← r.deviceIdFor C network
    if id = expected then .ok () else .error mismatch
  | none, none => .ok ()
  | _, _ => .error mismatch

def verify : Except Error Unit := do
  if r.version ≠ enrollmentVersion then
    .error (.invalid "enrollment version" "unsupported version")
  r.checkDeviceId C
  if 2048 < r.proof.utf8ByteSize then
    .error (.invalid "enrollment proof" "signature too large")
  let noncanonical := Error.invalid "enrollment proof" "expected canonical SHA-256 SSHSIG"
  let signature ← C.signatureFromPem r.proof
  if C.signatureIsSha256 signature = false then .error noncanonical
  let pem ← C.signatureToPem signature
  if pem ≠ r.proof then .error noncanonical
  let bytes ← r.canonicalBytes C
  C.sshVerify r.sshPublicKey.text enrollmentNamespace bytes signature
end EnrollmentRequest

/-- `VerifiedEnrollment`, made once the server has seen the WireGuard proof. -/
structure VerifiedEnrollment where
  request : EnrollmentRequest
  networkId : NetworkId
  deviceId : DeviceId
deriving DecidableEq

end Tako.Network
