import Mathlib.Data.List.Chain
import Tako.NetworkValidity

/-! Authority only shrinks along an approval chain: whatever cycles and orphans a
snapshot holds, who is effective was approved, device by device, from a root. -/
namespace Tako.Network
open RegistrySnapshot
abbrev EffectiveMembers := AList (fun _ : DeviceId => Member)

structure ApprovalChain (effective : EffectiveMembers) (chain : List Member) : Prop where
  effective : ∀ m ∈ chain, effective.lookup m.deviceId = some m
  approved : chain.IsChain fun m approver => m.approvedBy = some approver.deviceId

structure Root (network : NetworkDescriptor) (m : Member) : Prop where
  unapproved : m.approvedBy = none
  admin : m.independentAdmin = true ∨
    (m.deviceId = network.initialAdmin ∧ m.permissions.networkAdmin = true)

theorem root_approvalRules {network : NetworkDescriptor} {m : Member} :
    (approvalRules network).root m = true ↔ m.independentAdmin = true ∨
      (m.deviceId = network.initialAdmin ∧ m.permissions.networkAdmin = true) := by
  unfold approvalRules
  rw [Bool.or_eq_true, Bool.and_eq_true, decide_eq_true_eq]

structure Authorized (m approver : Member) : Prop where
  networkAdmin : approver.permissions.networkAdmin = true
  created : approver.createdAt ≤ m.createdAt
  expires : ∀ expiry, approver.expiresAt = some expiry →
    ∃ expiry', m.expiresAt = some expiry' ∧ expiry' ≤ expiry

structure Confined (m above : Member) : Prop where
  serverAdmin : m.permissions.serverAdmin = false
  server : m.kind.isServer = false
  sshUser : ∀ user, m.permissions.sshUser = some user → above.permissions.sshUser = some user
  deployments : m.permissions.deployments ⊆ above.permissions.deployments

def Bounded (m above : Member) : Prop := above.permissions.serverAdmin = false → Confined m above

theorem Bounded.trans {m approver above : Member} (h : Bounded m approver)
    (h' : Bounded approver above) : Bounded m above := by
  intro habove
  have happrover := h' habove
  have hm := h happrover.serverAdmin
  refine ⟨hm.serverAdmin, hm.server, ?_, hm.deployments.trans happrover.deployments⟩
  intro user huser
  exact happrover.sshUser user (hm.sshUser user huser)

instance : Trans Bounded Bounded Bounded := ⟨Bounded.trans⟩

variable {C : Crypto} {s : RegistrySnapshot} {now : ℕ} {effective : EffectiveMembers}
  {m approver : Member} {id : DeviceId}
namespace Member
theorem authorized_of_delegatedBy (h : m.delegatedBy approver = true) : Authorized m approver := by
  simp only [delegatedBy, Permissions.canDelegate, Bool.and_eq_true, decide_eq_true_eq] at h
  obtain ⟨⟨⟨hcreated, ⟨⟨hadmin, _⟩, _⟩, _⟩, _⟩, hexpires⟩ := h
  refine ⟨hadmin, hcreated, ?_⟩
  intro _ hexpiry
  rw [hexpiry] at hexpires
  cases hm : m.expiresAt with
  | none =>
    rw [hm] at hexpires
    cases hexpires
  | some expiry' =>
    rw [hm] at hexpires
    exact ⟨expiry', rfl, of_decide_eq_true hexpires⟩

theorem bounded_of_delegatedBy (h : m.delegatedBy approver = true) : Bounded m approver := by
  intro hserver
  simp only [delegatedBy, Permissions.canDelegate, Bool.and_eq_true, hserver, Bool.or_false,
    Bool.false_or, Bool.not_eq_true', Bool.or_eq_true, decide_eq_true_eq] at h
  obtain ⟨⟨⟨_, ⟨⟨_, hadmin⟩, huser⟩, hdeployments⟩, hkind⟩, _⟩ := h
  refine ⟨hadmin, hkind, ?_, hdeployments⟩
  intro _ hm
  rw [hm] at huser
  obtain hnone | hsame := huser
  · cases hnone
  · exact hsame.symm
end Member

section
open List
theorem ApprovalChain.split {l l' : List Member} (h : ApprovalChain effective (l ++ l')) :
    ApprovalChain effective l ∧ ApprovalChain effective l' := by
  constructor
  · exact ⟨fun m hm => h.effective m (mem_append_left _ hm), h.approved.left_of_append⟩
  · exact ⟨fun m hm => h.effective m (mem_append_right _ hm), h.approved.right_of_append⟩

theorem deviceId_of_effective (h : Effective C s now id m) : m.deviceId = id :=
  h.allowed.2

theorem approver_of_effective {parentId : DeviceId} (h : Effective C s now id m)
    (hby : m.approvedBy = some parentId) :
    ∃ approver, Effective C s now parentId approver ∧ m.delegatedBy approver = true := by
  cases h with
  | root _ hpremise =>
    have hnone : m.approvedBy = none := hpremise
    rw [hnone] at hby
    cases hby
  | @step _ k' _ b _ hpremise hparent hfollows =>
    have hsome : m.approvedBy = some k' := hpremise
    rw [hby] at hsome
    cases hsome
    exact ⟨b, hparent, hfollows⟩

variable (hlookup : ∀ id m, effective.lookup id = some m ↔ Effective C s now id m)
include hlookup
theorem delegatedBy_of_approved (hm : effective.lookup m.deviceId = some m)
    (happrover : effective.lookup approver.deviceId = some approver)
    (happroved : m.approvedBy = some approver.deviceId) : m.delegatedBy approver = true := by
  obtain ⟨_, heffective, hdelegated⟩ :=
    approver_of_effective ((hlookup _ _).mp hm) happroved
  rw [(hlookup _ _).mpr heffective] at happrover
  cases happrover
  exact hdelegated

theorem ApprovalChain.delegated {chain : List Member} (h : ApprovalChain effective chain) :
    chain.IsChain fun m approver => m.delegatedBy approver = true := by
  apply h.approved.imp_of_mem_imp
  intro m approver hm happrover happroved
  exact delegatedBy_of_approved hlookup (h.effective m hm) (h.effective approver happrover)
    happroved

theorem exists_chain_to_root (h : Effective C s now id m) :
    ∃ chain root, chain.head? = some m ∧ chain.getLast? = some root ∧
      ApprovalChain effective chain ∧ Root s.network root := by
  induction (h : (approvalRules s.network).Derives _ id m) with
  | @root id m hp hpremise hroot =>
    have hm : effective.lookup m.deviceId = some m := by
      rw [hp.2]
      exact (hlookup _ _).mpr (.root hp hpremise hroot)
    refine ⟨[m], m, rfl, rfl, ⟨?_, .singleton m⟩, hpremise, ?_⟩
    · intro x hx
      rw [mem_singleton.mp hx]
      exact hm
    · exact root_approvalRules.mp hroot
  | @step id parentId m approver hp hpremise hparent hfollows ih =>
    obtain ⟨_, root, hhead, hlast, hchain, hroot⟩ := ih
    have hm : effective.lookup m.deviceId = some m := by
      rw [hp.2]
      exact (hlookup _ _).mpr (.step hp hpremise hparent hfollows)
    have happroved : m.approvedBy = some approver.deviceId := by
      rw [deviceId_of_effective hparent]
      exact hpremise
    obtain ⟨rest, rfl⟩ := head?_eq_some_iff.mp hhead
    refine ⟨m :: approver :: rest, root, rfl, ?_, ⟨?_, ?_⟩, hroot⟩
    · rw [getLast?_cons_cons]
      exact hlast
    · exact forall_mem_cons.mpr ⟨hm, hchain.effective⟩
    · exact isChain_cons_cons.mpr ⟨happroved, hchain.approved⟩

/-- Nobody is approved in a circle, as each approval is of an earlier round. -/
theorem not_cycle (h : Effective C s now id m) (between : List Member) :
    ¬ApprovalChain effective (m :: (between ++ [m])) := by
  induction (h : (approvalRules s.network).Derives _ id m) generalizing between with
  | @root id m _ hpremise _ =>
    intro hchain
    obtain ⟨next, rest, hnext⟩ := exists_cons_of_ne_nil (concat_ne_nil m between)
    rw [hnext] at hchain
    have happroved := rel_of_isChain_cons_cons hchain.approved
    have hnone : m.approvedBy = none := hpremise
    rw [hnone] at happroved
    cases happroved
  | @step id parentId m approver hp hpremise hparent _ ih =>
    intro hchain
    -- the device after `m` is its approver: the same cycle, turned by one device
    obtain ⟨next, rest, hnext⟩ := exists_cons_of_ne_nil (concat_ne_nil m between)
    have hlast : (next :: rest).getLast? = some m := by rw [← hnext, getLast?_concat]
    rw [hnext] at hchain
    have happroved := rel_of_isChain_cons_cons hchain.approved
    have hmem : next ∈ m :: next :: rest := mem_cons_of_mem _ (mem_cons_self ..)
    have hby : m.approvedBy = some parentId := hpremise
    have happrover : next = approver := by
      rw [hby] at happroved
      have hin := hchain.effective next hmem
      rw [← Option.some.inj happroved, (hlookup _ _).mpr hparent] at hin
      exact (Option.some.inj hin).symm
    subst happrover
    apply ih rest
    constructor
    · intro x hx
      have hx' : x = next ∨ x ∈ rest := by
        simp only [mem_cons, mem_append, not_mem_nil, or_false] at hx
        tauto
      apply hchain.effective x
      exact mem_cons_of_mem _ (mem_cons.mpr hx')
    · rw [← cons_append]
      apply List.IsChain.append (isChain_of_isChain_cons hchain.approved) (.singleton _)
      intro x hx y hy
      rw [hlast] at hx
      cases hx
      cases hy
      exact happroved

theorem ApprovalChain.nodup {chain : List Member} (h : ApprovalChain effective chain) :
    chain.Nodup := by
  induction chain with
  | nil => exact nodup_nil
  | cons m chain ih =>
    have htail : ApprovalChain effective chain := (ApprovalChain.split (l := [m]) h).2
    refine nodup_cons.mpr ⟨?_, ih htail⟩
    intro hmem
    obtain ⟨between, rest, rfl⟩ := append_of_mem hmem
    have hm : Effective C s now m.deviceId m := (hlookup _ _).mp (h.effective m (mem_cons_self ..))
    have hcycle : ApprovalChain effective ((m :: (between ++ [m])) ++ rest) := by simpa using h
    exact not_cycle hlookup hm between hcycle.split.1
end

/-- No privilege escalation through delegation. -/
theorem delegation_confined {C : Crypto} {s : RegistrySnapshot} {now : ℕ}
    {effective : EffectiveMembers} (hok : s.effectiveMembers C now = .ok effective) :
    (∀ id m, effective.lookup id = some m → ∃ chain root, chain.head? = some m ∧
      chain.getLast? = some root ∧ ApprovalChain effective chain ∧ Root s.network root) ∧
    ∀ chain, ApprovalChain effective chain →
      chain.Nodup ∧ chain.IsChain Authorized ∧ chain.Pairwise Bounded := by
  obtain ⟨_, hlookup⟩ := effectiveMembers_eq_ok hok
  constructor
  · intro id m hm
    exact exists_chain_to_root hlookup ((hlookup id m).mp hm)
  · intro _ hchain
    have hdelegated := hchain.delegated hlookup
    refine ⟨hchain.nodup hlookup, ?_, ?_⟩
    · exact hdelegated.imp fun _ _ => Member.authorized_of_delegatedBy
    · exact List.isChain_iff_pairwise.mp (hdelegated.imp fun _ _ => Member.bounded_of_delegatedBy)

/-- Keys sign with their own text, and a digest is the end of what it is of. -/
def Crypto.plain : Crypto where
  sha256 bytes := Vector.ofFn fun i : Fin 32 => (bytes.reverse.getD (31 - i) 0)
  sshBytes text := .ok (utf8 text)
  Signature := String
  signatureFromPem pem := .ok pem
  signatureIsSha256 _ := true
  signatureToPem signature := .ok signature
  sshVerify key _ _ signature :=
    if signature = key then .ok () else .error (.ssh "signature mismatch")
  Certificate := Unit
  certificateFromPem _ := some ()
  certificateToPem _ := .ok "certificate"
  certificateKey _ := .ok []

def plainId (n : UInt8) : DeviceId := ⟨.replicate 32 n⟩

def plainRequest (kind : DeviceKind) (n : UInt8) (name : String) : EnrollmentRequest where
  version := 1
  networkId := none
  kind := kind
  requestId := ⟨.replicate 16 n⟩
  deviceId := none
  name := ⟨name⟩
  wgPublicKey := ⟨.replicate 32 n⟩
  sshPublicKey := ⟨name⟩
  expiresAt := none
  proof := name

def plainNetwork : NetworkDescriptor := ⟨⟨.replicate 16 7⟩, plainId 1⟩

def plainServer : MemberKind :=
  .server ⟨.v4 0x0a000001 51820, ⟨"host"⟩, 22, some "certificate", none, none, 443⟩

def plainRoot (kind : MemberKind) (n : UInt8) (name : String) : Member where
  networkId := plainNetwork.id
  deviceId := plainId n
  request := plainRequest kind.deviceKind n name
  kind := kind
  permissions := ⟨true, true, none, ∅⟩
  approvedBy := none
  independentAdmin := true
  wgVerified := true
  createdAt := 1
  expiresAt := none

/-- The administrator approves a delegate that may not touch servers, and that one a phone. -/
def plainDelegate : Member :=
  { plainRoot .laptop 2 "delegate" with
    permissions := ⟨true, false, none, {⟨"shop/production"⟩}⟩
    approvedBy := some (plainId 1)
    independentAdmin := false }

def plainPhone : Member :=
  { plainRoot .laptop 3 "phone" with
    permissions := ⟨false, false, none, {⟨"shop/production"⟩}⟩
    approvedBy := some (plainId 2)
    independentAdmin := false }

def plainDelegation : RegistrySnapshot :=
  ⟨plainNetwork, [plainPhone, plainDelegate, plainRoot .laptop 1 "admin"], [], []⟩

theorem delegation_confined_phone : ∃ effective,
    plainDelegation.effectiveMembers Crypto.plain 3 = .ok effective ∧
    (∃ chain root, chain.head? = some plainPhone ∧ chain.getLast? = some root ∧
      ApprovalChain effective chain ∧ Root plainNetwork root) ∧
    Confined plainPhone plainDelegate := by
  have hvalid : Valid Crypto.plain plainDelegation := validate_eq_ok_iff.mp (by decide +kernel)
  obtain ⟨effective, hok, hlookup⟩ := effectiveMembers_of_valid hvalid 3
  have hadmin : Effective Crypto.plain plainDelegation 3 (plainId 1)
      (plainRoot .laptop 1 "admin") :=
    .root ⟨⟨by decide +kernel, ⟨rfl, by decide +kernel⟩, rfl⟩, rfl⟩ rfl rfl
  have hdelegate : Effective Crypto.plain plainDelegation 3 (plainId 2) plainDelegate :=
    .step ⟨⟨by decide +kernel, ⟨rfl, by decide +kernel⟩, rfl⟩, rfl⟩ rfl hadmin (by decide)
  have hphone : Effective Crypto.plain plainDelegation 3 (plainId 3) plainPhone :=
    .step ⟨⟨by decide +kernel, ⟨rfl, by decide +kernel⟩, rfl⟩, rfl⟩ rfl hdelegate (by decide)
  have hchain : ApprovalChain effective [plainPhone, plainDelegate] := by
    refine ⟨?_, List.isChain_cons_cons.mpr ⟨rfl, .singleton _⟩⟩
    intro m hm
    obtain rfl | rfl : m = plainPhone ∨ m = plainDelegate := by simpa using hm
    · exact (hlookup _ _).mpr hphone
    · exact (hlookup _ _).mpr hdelegate
  obtain ⟨hroots, hchains⟩ := delegation_confined hok
  refine ⟨effective, hok, hroots _ _ ((hlookup _ _).mpr hphone), ?_⟩
  exact List.rel_of_pairwise_cons (hchains _ hchain).2.2 List.mem_cons_self rfl

def takoNetwork : NetworkId := ⟨#v[1, 2, 3, 4, 5, 6, 7, 8, 9, 10, 11, 12, 13, 14, 15, 16]⟩

def deskSsh : SshPublicKey :=
  ⟨"ssh-ed25519 AAAAC3NzaC1lZDI1NTE5AAAAIMNQsOfqfa946iLj2IOjm/RHzTe9helYdBesg+Bdb/33"⟩

def deskWire : List UInt8 :=
  [0, 0, 0, 11] ++ utf8 "ssh-ed25519" ++ [0, 0, 0, 32] ++
    [195, 80, 176, 231, 234, 125, 175, 120, 234, 34, 227, 216, 131, 163, 155, 244, 71, 205, 55,
     189, 133, 233, 88, 116, 23, 172, 131, 224, 93, 111, 253, 247]

def deskWg : WgPublicKey :=
  ⟨#v[27, 184, 35, 136, 107, 203, 57, 70, 226, 21, 35, 232, 89, 37, 181, 161, 2, 186, 187, 113,
      78, 84, 54, 153, 159, 120, 42, 112, 50, 55, 150, 112]⟩

def deskId : DeviceId :=
  ⟨#v[185, 115, 217, 152, 32, 79, 249, 218, 70, 222, 125, 161, 226, 162, 1, 88, 47, 2, 169,
      179, 224, 45, 199, 1, 132, 17, 155, 162, 163, 192, 184, 241]⟩

def laptopSsh : SshPublicKey :=
  ⟨"ssh-ed25519 AAAAC3NzaC1lZDI1NTE5AAAAINphh6nL7DNzPD7NIjiEdTDTxZMAZyot3TPQh20ELcp6"⟩

def laptopWire : List UInt8 :=
  [0, 0, 0, 11] ++ utf8 "ssh-ed25519" ++ [0, 0, 0, 32] ++
    [218, 97, 135, 169, 203, 236, 51, 115, 60, 62, 205, 34, 56, 132, 117, 48, 211, 197, 147, 0,
     103, 42, 45, 221, 51, 208, 135, 109, 4, 45, 202, 122]

def laptopWg : WgPublicKey :=
  ⟨#v[143, 232, 192, 59, 86, 144, 161, 144, 197, 182, 102, 205, 184, 145, 115, 146, 193, 213,
      10, 227, 128, 212, 101, 239, 128, 40, 6, 87, 37, 231, 39, 71]⟩

def laptopId : DeviceId :=
  ⟨#v[81, 167, 43, 33, 236, 5, 11, 7, 147, 213, 183, 244, 220, 184, 93, 140, 219, 5, 180, 128,
      231, 230, 3, 175, 240, 0, 83, 170, 233, 190, 21, 85]⟩

def cloneId : DeviceId :=
  ⟨#v[3, 35, 202, 24, 213, 30, 44, 68, 194, 129, 135, 61, 38, 20, 208, 254, 63, 177, 120, 135,
      206, 126, 56, 63, 160, 141, 163, 130, 252, 63, 86, 105]⟩

def deskWgFingerprint : KeyFingerprint :=
  ⟨#v[152, 54, 138, 198, 224, 26, 162, 243, 136, 7, 163, 44, 136, 206, 92, 148, 99, 251, 238,
      49, 160, 44, 98, 114, 120, 208, 17, 49, 226, 81, 224, 14]⟩

def deskSshFingerprint : KeyFingerprint :=
  ⟨#v[85, 34, 215, 171, 10, 172, 100, 220, 159, 249, 45, 61, 158, 95, 56, 4, 40, 23, 49, 94,
      201, 71, 161, 156, 249, 69, 206, 119, 104, 39, 68, 1]⟩

def laptopWgFingerprint : KeyFingerprint :=
  ⟨#v[44, 206, 7, 120, 23, 112, 105, 4, 250, 18, 19, 207, 215, 72, 43, 81, 98, 25, 232, 151,
      53, 174, 148, 125, 227, 216, 185, 234, 149, 152, 170, 230]⟩

def laptopSshFingerprint : KeyFingerprint :=
  ⟨#v[233, 122, 221, 89, 144, 213, 156, 128, 62, 58, 229, 157, 178, 193, 166, 218, 242, 208,
      78, 211, 23, 153, 45, 176, 167, 29, 31, 209, 235, 176, 104, 59]⟩

def enrolled (request : UInt8) (name : String) (ssh : SshPublicKey) (wg : WgPublicKey)
    (proof : String) : EnrollmentRequest where
  version := 1
  networkId := none
  kind := .laptop
  requestId := ⟨.replicate 16 request⟩
  deviceId := none
  name := ⟨name⟩
  wgPublicKey := wg
  sshPublicKey := ssh
  expiresAt := none
  proof := proof

def deskRequest : EnrollmentRequest :=
  enrolled 1 "desk" deskSsh deskWg
    ("-----BEGIN SSH SIGNATURE-----\n" ++
    "U1NIU0lHAAAAAQAAADMAAAALc3NoLWVkMjU1MTkAAAAgw1Cw5+p9r3jqIuPYg6Ob9EfNN7\n" ++
    "2F6Vh0F6yD4F1v/fcAAAAadGFrby1uZXR3b3JrLWVucm9sbG1lbnQtdjEAAAAAAAAABnNo\n" ++
    "YTI1NgAAAFMAAAALc3NoLWVkMjU1MTkAAABAXsRO9mYBTapJgGp5nDTs3uoMS78aq/jS52\n" ++
    "/lwEmDhKDvSYc8HtLQo8NOoNgD1ifQ8nvsB+QhnKRr+1/woAGKDg==\n" ++
    "-----END SSH SIGNATURE-----\n")

def laptopRequest : EnrollmentRequest :=
  enrolled 2 "laptop" laptopSsh laptopWg
    ("-----BEGIN SSH SIGNATURE-----\n" ++
    "U1NIU0lHAAAAAQAAADMAAAALc3NoLWVkMjU1MTkAAAAg2mGHqcvsM3M8Ps0iOIR1MNPFkw\n" ++
    "BnKi3dM9CHbQQtynoAAAAadGFrby1uZXR3b3JrLWVucm9sbG1lbnQtdjEAAAAAAAAABnNo\n" ++
    "YTI1NgAAAFMAAAALc3NoLWVkMjU1MTkAAABAfUYnMbMjI41m3il17a2oLmS6NHi3tiKJ35\n" ++
    "8+sapOfJjtdmPUJEt44IKis24ZlwxZelO+pFoVNzQppdQQHbAkBA==\n" ++
    "-----END SSH SIGNATURE-----\n")

def cloneRequest : EnrollmentRequest :=
  enrolled 3 "clone" laptopSsh deskWg
    ("-----BEGIN SSH SIGNATURE-----\n" ++
    "U1NIU0lHAAAAAQAAADMAAAALc3NoLWVkMjU1MTkAAAAg2mGHqcvsM3M8Ps0iOIR1MNPFkw\n" ++
    "BnKi3dM9CHbQQtynoAAAAadGFrby1uZXR3b3JrLWVucm9sbG1lbnQtdjEAAAAAAAAABnNo\n" ++
    "YTI1NgAAAFMAAAALc3NoLWVkMjU1MTkAAABAzG2i3KkLn/ELfwd6Srbsoo+sMPguSKtmFS\n" ++
    "B+7r3bylpvyfgv7c4u4JpzDHCP94CFKagt3ka9zpbYYqcUVT/cCA==\n" ++
    "-----END SSH SIGNATURE-----\n")

def signedBytes (request : UInt8) (name : String) (wire : List UInt8) (wg : WgPublicKey) :
    List UInt8 :=
  utf8 "tako-network-enrollment\x00" ++ [0, 0, 0, 1, 0, 0] ++ List.replicate 16 request ++ [0, 0] ++
    [0, 0, 0, UInt8.ofNat name.length] ++ utf8 name ++ wg.bytes.toList ++ [0, 0, 0, 51] ++ wire

def digests : List (List UInt8 × Vector UInt8 32) :=
  let device := utf8 "tako-device-v1\x00" ++ takoNetwork.bytes.toList ++ [0]
  let host := utf8 "tako-network-host-v1\x00" ++ takoNetwork.bytes.toList
  [(deskWg.bytes.toList, deskWgFingerprint.bytes),
    (laptopWg.bytes.toList, laptopWgFingerprint.bytes),
    (deskWire, deskSshFingerprint.bytes), (laptopWire, laptopSshFingerprint.bytes),
    (device ++ deskWire ++ deskWg.bytes.toList, deskId.bytes),
    (device ++ laptopWire ++ laptopWg.bytes.toList, laptopId.bytes),
    (device ++ laptopWire ++ deskWg.bytes.toList, cloneId.bytes),
    (utf8 "tako-network-prefix-v1\x00" ++ takoNetwork.bytes.toList,
      #v[107, 56, 46, 153, 1, 232, 224, 88, 64, 118, 183, 166, 0, 186, 119, 53, 148, 253, 21,
         123, 66, 66, 183, 83, 22, 202, 182, 58, 108, 13, 197, 133]),
    (host ++ deskWg.bytes.toList,
      #v[88, 170, 114, 42, 189, 103, 150, 45, 32, 109, 189, 255, 137, 242, 207, 4, 14, 242,
         252, 184, 63, 158, 70, 194, 17, 76, 206, 37, 179, 192, 33, 161]),
    (host ++ laptopWg.bytes.toList,
      #v[110, 215, 36, 98, 85, 136, 78, 46, 202, 57, 156, 197, 22, 251, 41, 152, 230, 47, 128,
         181, 160, 88, 15, 213, 132, 68, 159, 128, 139, 6, 4, 245])]

/-- What the crates compute on three requests that were made with `ssh-keygen`. -/
def Crypto.threeRequests : Crypto where
  sha256 bytes := (digests.lookup bytes).getD (.replicate 32 0)
  sshBytes text :=
    if text = deskSsh.text then .ok deskWire
    else if text = laptopSsh.text then .ok laptopWire
    else .error (.ssh "invalid key")
  Signature := String
  signatureFromPem pem :=
    if pem ∈ [deskRequest.proof, laptopRequest.proof, cloneRequest.proof] then .ok pem
    else .error (.ssh "invalid signature")
  signatureIsSha256 _ := true
  signatureToPem signature := .ok signature
  sshVerify key scope bytes signature :=
    if (key, scope, bytes, signature) ∈
        [(deskSsh.text, "tako-network-enrollment-v1", signedBytes 1 "desk" deskWire deskWg,
            deskRequest.proof),
          (laptopSsh.text, "tako-network-enrollment-v1",
            signedBytes 2 "laptop" laptopWire laptopWg, laptopRequest.proof),
          (laptopSsh.text, "tako-network-enrollment-v1", signedBytes 3 "clone" laptopWire deskWg,
            cloneRequest.proof)] then
      .ok ()
    else .error (.ssh "signature mismatch")
  Certificate := Unit
  certificateFromPem _ := none
  certificateToPem _ := .error (.crypto "no certificate")
  certificateKey _ := .error (.crypto "no certificate")

def desk : Member where
  networkId := takoNetwork
  deviceId := deskId
  request := deskRequest
  kind := .laptop
  permissions := ⟨true, true, none, ∅⟩
  approvedBy := none
  independentAdmin := true
  wgVerified := true
  createdAt := 1
  expiresAt := none

def laptop : Member where
  networkId := takoNetwork
  deviceId := laptopId
  request := laptopRequest
  kind := .laptop
  permissions := ⟨true, false, none, {⟨"shop/production"⟩}⟩
  approvedBy := some deskId
  independentAdmin := false
  wgVerified := true
  createdAt := 2
  expiresAt := some 10

def deskAndLaptop : RegistrySnapshot where
  network := ⟨takoNetwork, deskId⟩
  members := [laptop, desk]
  revocations := []
  acks := []

theorem deskAndLaptop_valid : Valid Crypto.threeRequests deskAndLaptop := by
  apply validate_eq_ok_iff.mp
  decide +kernel

theorem desk_effective : Effective Crypto.threeRequests deskAndLaptop 3 deskId desk :=
  .root ⟨⟨.tail _ (.head _), ⟨rfl, by decide +kernel⟩, rfl⟩, rfl⟩ rfl rfl

theorem laptop_effective : Effective Crypto.threeRequests deskAndLaptop 3 laptopId laptop :=
  .step ⟨⟨.head _, ⟨rfl, by decide +kernel⟩, rfl⟩, rfl⟩ rfl desk_effective (by decide)

namespace RegistrySnapshot
theorem live_of_delegatedBy {parent : Member} {t : ℕ} (h : m.delegatedBy parent = true)
    (hlive : m.live t = true) : parent.live t = true := by
  simp only [Member.delegatedBy, Member.live, Bool.and_eq_true, decide_eq_true_eq] at h hlive ⊢
  obtain ⟨⟨⟨hcreated, _⟩, _⟩, hexpiry⟩ := h
  refine ⟨hcreated.trans hlive.1, ?_⟩
  cases hparent : parent.expiresAt with
  | none => rfl
  | some expiry =>
    cases hchild : m.expiresAt with
    | none => simp [hparent, hchild] at hexpiry
    | some child =>
      simp only [hparent, hchild, decide_eq_true_eq, Option.all_some] at hexpiry hlive ⊢
      omega

theorem Effective.of_live (h : Effective C s now id m) {t : ℕ} (hlive : m.live t = true) :
    Effective C s t id m := by
  induction h with
  | root hp hpremise hroot =>
    obtain ⟨heligible, hid⟩ := hp
    exact .root ⟨{ heligible with live := hlive }, hid⟩ hpremise hroot
  | step hp hpremise _ hfollows ih =>
    obtain ⟨heligible, hid⟩ := hp
    exact .step ⟨{ heligible with live := hlive }, hid⟩ hpremise
      (ih (live_of_delegatedBy hfollows hlive)) hfollows

/-- A member that is effective at some time is so whenever it lives: its approvers were
there before it and outlive it. -/
theorem authority_lasts_a_lifetime {effective : EffectiveMembers} {id : DeviceId}
    (hok : s.effectiveMembers C now = .ok effective) (hm : effective.lookup id = some m) (t : ℕ) :
    ∃ effective', s.effectiveMembers C t = .ok effective' ∧
      (effective'.lookup id = some m ↔ m.live t = true) := by
  obtain ⟨hvalid, hlookup⟩ := effectiveMembers_eq_ok hok
  obtain ⟨effective', hok', hlookup'⟩ := effectiveMembers_of_valid hvalid t
  refine ⟨effective', hok', ?_⟩
  rw [hlookup']
  constructor
  · intro h
    exact h.allowed.1.live
  · exact ((hlookup id m).mp hm).of_live

theorem authority_lasts_a_lifetime_laptop :
    ∃ effective, deskAndLaptop.effectiveMembers .threeRequests 7 = .ok effective ∧
      (effective.lookup laptopId = some laptop ↔ laptop.live 7 = true) := by
  obtain ⟨effective, hok, hlookup⟩ := effectiveMembers_of_valid deskAndLaptop_valid 3
  exact authority_lasts_a_lifetime hok ((hlookup _ _).mpr laptop_effective) 7

/-- The rounds find what the approvals derive, and fail on a snapshot that is not valid. -/
theorem effective_members_exact (C : Crypto) (s : RegistrySnapshot) (now : ℕ) :
    ((∃ effective, s.effectiveMembers C now = .ok effective) ↔ Valid C s) ∧
      ∀ effective, s.effectiveMembers C now = .ok effective →
        ∀ id m, effective.lookup id = some m ↔ Effective C s now id m := by
  refine ⟨⟨?_, ?_⟩, fun _ hok => (effectiveMembers_eq_ok hok).2⟩
  · rintro ⟨_, hok⟩
    exact (effectiveMembers_eq_ok hok).1
  · intro h
    obtain ⟨effective, hok, -⟩ := effectiveMembers_of_valid h now
    exact ⟨effective, hok⟩

end RegistrySnapshot
end Tako.Network
