import Tako.NetworkAuthority

/-! Replicas merge their records in any order, so what a snapshot says depends only on which
records it holds. -/
namespace Tako.Network
open Fallible List
namespace RegistrySnapshot
variable {C : Crypto} {s t : RegistrySnapshot} {m : Member} {now : ℕ}
def RevokedBy (C : Crypto) (m : Member) (r : Revocation) : Prop :=
  r.target = m.deviceId ∨ r.wgFingerprint = m.request.wgPublicKey.fingerprint C ∨
    m.request.sshPublicKey.fingerprint C = .ok r.sshFingerprint

theorem denied_eq_ok_iff {b : Bool} : s.denied C m = .ok b ↔
    (∃ ssh, m.request.sshPublicKey.fingerprint C = .ok ssh) ∧
      (b = true ↔ ∃ r ∈ s.revocations, RevokedBy C m r) := by
  have hnames (ssh : KeyFingerprint) (hssh : m.request.sshPublicKey.fingerprint C = .ok ssh) :
      (s.revocations.any (fun r =>
        r.names m.deviceId (m.request.wgPublicKey.fingerprint C) ssh) = true ↔
        ∃ r ∈ s.revocations, RevokedBy C m r) := by
    have hname (r : Revocation) :
        r.names m.deviceId (m.request.wgPublicKey.fingerprint C) ssh = true ↔ RevokedBy C m r := by
      unfold Revocation.names RevokedBy
      rw [hssh]
      simp only [Bool.or_eq_true, decide_eq_true_eq, or_assoc, Except.ok.injEq, eq_comm (a := ssh)]
    simp only [any_eq_true, hname]
  constructor
  · intro hok
    obtain ⟨ssh, hssh, hb⟩ := bind_eq_ok hok
    refine ⟨⟨ssh, hssh⟩, ?_⟩
    rw [← Except.ok.inj hb]
    exact hnames ssh hssh
  · rintro ⟨⟨ssh, hssh⟩, hb⟩
    unfold denied
    rw [ok_bind hssh]
    apply congrArg Except.ok
    exact Bool.eq_iff_iff.mpr ((hnames ssh hssh).trans hb.symm)

theorem admissible_iff : Admissible C s m ↔ m.wgVerified = true ∧
    (∃ ssh, m.request.sshPublicKey.fingerprint C = .ok ssh) ∧
      ∀ r ∈ s.revocations, ¬RevokedBy C m r := by
  unfold Admissible
  rw [denied_eq_ok_iff]
  simp

structure Restricts (t s : RegistrySnapshot) : Prop where
  network : t.network = s.network
  members : ∀ m ∈ t.members, m ∈ s.members
  revocations : ∀ r ∈ s.revocations, r ∈ t.revocations

namespace Restricts
variable (h : Restricts t s)
include h
theorem admissible (ha : Admissible C t m) : Admissible C s m := by
  obtain ⟨hverified, hreadable, hnot⟩ := admissible_iff.mp ha
  exact admissible_iff.mpr ⟨hverified, hreadable, fun r hr => hnot r (h.revocations r hr)⟩

theorem acceptable (ha : Acceptable C s m) : Acceptable C t m := by
  refine ⟨ha.valid, ?_, ?_⟩
  · rw [h.network]
    exact ha.network
  · intro hverified
    obtain ⟨b, hb⟩ := ha.readable hverified
    obtain ⟨hreadable, _⟩ := denied_eq_ok_iff.mp hb
    classical
    exact ⟨decide (∃ r ∈ t.revocations, RevokedBy C m r),
      denied_eq_ok_iff.mpr ⟨hreadable, decide_eq_true_iff⟩⟩

theorem unshared {κ : Type} {key : Member → κ} (hs : ∀ m ∈ s.members, ∀ m' ∈ s.members,
      Admissible C s m → Admissible C s m' → key m = key m' → m.deviceId = m'.deviceId) :
    ∀ m ∈ t.members, ∀ m' ∈ t.members,
      Admissible C t m → Admissible C t m' → key m = key m' → m.deviceId = m'.deviceId :=
  fun m hm m' hm' ha ha' =>
    hs m (h.members m hm) m' (h.members m' hm') (h.admissible ha) (h.admissible ha')

theorem valid (hs : Valid C s)
    (hids : ∀ r ∈ t.revocations, ∀ r' ∈ t.revocations, r.id = r'.id → r = r') : Valid C t where
  acceptable m hm := h.acceptable (hs.acceptable m (h.members m hm))
  member m hm m' hm' := hs.member m (h.members m hm) m' (h.members m' hm')
  wgKey := h.unshared hs.wgKey
  sshKey := h.unshared hs.sshKey
  address := by
    rw [h.network]
    exact h.unshared hs.address
  revocation := hids

theorem effective {id : DeviceId} (he : Effective C t now id m) : Effective C s now id m := by
  unfold Effective at he ⊢
  rw [h.network] at he
  apply he.mono
  rintro _ m ⟨hm, hid⟩
  exact ⟨⟨h.members m hm.mem, h.admissible hm.admissible, hm.live⟩, hid⟩
end Restricts

structure SameRecords (s t : RegistrySnapshot) : Prop where
  network : s.network = t.network
  members : ∀ m, m ∈ s.members ↔ m ∈ t.members
  revocations : ∀ r, r ∈ s.revocations ↔ r ∈ t.revocations
  acks : ∀ a, a ∈ s.acks ↔ a ∈ t.acks

namespace SameRecords
theorem symm (h : SameRecords s t) : SameRecords t s :=
  ⟨h.network.symm, fun m => (h.members m).symm, fun r => (h.revocations r).symm,
    fun a => (h.acks a).symm⟩

theorem restricts (h : SameRecords s t) : Restricts t s :=
  ⟨h.network.symm, fun m => (h.members m).mpr, fun r => (h.revocations r).mp⟩

theorem valid (h : SameRecords s t) (hs : Valid C s) : Valid C t := by
  apply h.restricts.valid hs
  intro r hr r' hr'
  exact hs.revocation r ((h.revocations r).mpr hr) r' ((h.revocations r').mpr hr')

theorem effective_iff (h : SameRecords s t) {id : DeviceId} :
    Effective C t now id m ↔ Effective C s now id m :=
  ⟨h.restricts.effective, h.symm.restricts.effective⟩
end SameRecords

variable (s : RegistrySnapshot)
def revoke (r : Revocation) : RegistrySnapshot :=
  { s with revocations := s.revocations ++ [r] }

def withMembers (more : List Member) : RegistrySnapshot :=
  { s with members := s.members ++ more }

theorem restricts_revoke (r : Revocation) : Restricts (s.revoke r) s :=
  ⟨rfl, fun _ hm => hm, fun _ hr => mem_append_left _ hr⟩

theorem restricts_withMembers (more : List Member) : Restricts s (s.withMembers more) :=
  ⟨rfl, fun _ hm => mem_append_left _ hm, fun _ hr => hr⟩
end RegistrySnapshot

section
open RegistrySnapshot
variable (C : Crypto)
/-- Evaluation is a function of the sets of records, antitone in the revocations
and monotone in the members. -/
theorem evaluation_of_records :
    (∀ s t : RegistrySnapshot, SameRecords s t →
      (s.validate C = .ok () ↔ t.validate C = .ok ()) ∧
      ∀ now effective, s.effectiveMembers C now = .ok effective →
        ∃ effective', t.effectiveMembers C now = .ok effective' ∧
          ∀ id, effective'.lookup id = effective.lookup id) ∧
    (∀ (s : RegistrySnapshot) (r : Revocation), s.validate C = .ok () →
      (s.revoke r).validate C = .ok () → ∀ now, ∃ effective effective',
        s.effectiveMembers C now = .ok effective ∧
        (s.revoke r).effectiveMembers C now = .ok effective' ∧
        (∀ id m, effective'.lookup id = some m →
          effective.lookup id = some m ∧ ¬RevokedBy C m r) ∧
        ∀ id m, (∀ chain root, chain.head? = some m → chain.getLast? = some root →
            ApprovalChain effective chain → Root s.network root → ∃ x ∈ chain, RevokedBy C x r) →
          effective'.lookup id ≠ some m) ∧
    ∀ (s : RegistrySnapshot) (more : List Member), s.validate C = .ok () →
      (s.withMembers more).validate C = .ok () → ∀ now, ∃ effective effective',
        s.effectiveMembers C now = .ok effective ∧
        (s.withMembers more).effectiveMembers C now = .ok effective' ∧
        ∀ id m, effective.lookup id = some m → effective'.lookup id = some m := by
  refine ⟨?_, ?_, ?_⟩
  · intro s t hsame
    have hvalid : s.validate C = .ok () ↔ t.validate C = .ok () := by
      rw [validate_eq_ok_iff, validate_eq_ok_iff]
      exact ⟨hsame.valid, hsame.symm.valid⟩
    refine ⟨hvalid, ?_⟩
    intro now effective hok
    obtain ⟨hs, hlookup⟩ := effectiveMembers_eq_ok hok
    obtain ⟨effective', hok', hlookup'⟩ := effectiveMembers_of_valid (hsame.valid hs) now
    refine ⟨effective', hok', ?_⟩
    intro id
    apply Option.ext
    intro m
    rw [hlookup' id m, hlookup id m]
    exact hsame.effective_iff
  · intro s r hs hs' now
    obtain ⟨effective, hok, hlookup⟩ := effectiveMembers_of_valid (validate_eq_ok_iff.mp hs) now
    obtain ⟨effective', hok', hlookup'⟩ := effectiveMembers_of_valid (validate_eq_ok_iff.mp hs') now
    have hsub (id : DeviceId) (m : Member) (hm : effective'.lookup id = some m) :
        effective.lookup id = some m ∧ ¬RevokedBy C m r := by
      have heffective := (hlookup' id m).mp hm
      constructor
      · exact (hlookup id m).mpr ((restricts_revoke s r).effective heffective)
      · have hadmissible := (Derivation.Rules.Derives.allowed heffective).1.admissible
        obtain ⟨_, _, hnot⟩ := admissible_iff.mp hadmissible
        exact hnot r (mem_append_right _ (mem_singleton_self r))
    refine ⟨effective, effective', hok, hok', hsub, ?_⟩
    -- what is still effective has a chain that is, so none of it is revoked
    intro id m hcut hm
    obtain ⟨chain, root, hhead, hlast, hchain, hroot⟩ :=
      exists_chain_to_root hlookup' ((hlookup' id m).mp hm)
    have hchain' : ApprovalChain effective chain :=
      ⟨fun x hx => (hsub _ x (hchain.effective x hx)).1, hchain.approved⟩
    obtain ⟨x, hx, hrevoked⟩ := hcut chain root hhead hlast hchain' hroot
    exact (hsub _ x (hchain.effective x hx)).2 hrevoked
  · intro s more hs hs' now
    obtain ⟨effective, hok, hlookup⟩ := effectiveMembers_of_valid (validate_eq_ok_iff.mp hs) now
    obtain ⟨effective', hok', hlookup'⟩ := effectiveMembers_of_valid (validate_eq_ok_iff.mp hs') now
    refine ⟨effective, effective', hok, hok', ?_⟩
    intro _ _ hm
    rw [hlookup] at hm
    rw [hlookup']
    exact (restricts_withMembers s more).effective hm

def laptopRevocation : Revocation where
  id := ⟨.replicate 16 7⟩
  target := laptopId
  wgFingerprint := laptopWgFingerprint
  sshFingerprint := laptopSshFingerprint
  capturedServers := ∅
  revokedBy := deskId
  createdAt := 3

def deskOnly : RegistrySnapshot := { deskAndLaptop with members := [desk] }

theorem deskOnly_valid : Valid Crypto.threeRequests deskOnly := by
  have hrestricts : Restricts deskOnly deskAndLaptop :=
    ⟨rfl, fun _ hm => mem_cons_of_mem _ hm, fun _ hr => hr⟩
  exact hrestricts.valid deskAndLaptop_valid deskAndLaptop_valid.revocation

theorem deskOnly_laptop_same : SameRecords deskAndLaptop (deskOnly.withMembers [laptop]) where
  network := rfl
  members m := by
    have hswap : m ∈ [laptop, desk] ↔ m ∈ [desk, laptop] := by
      simp only [mem_cons, not_mem_nil, or_false]
      exact or_comm
    exact hswap
  revocations _ := Iff.rfl
  acks _ := Iff.rfl

theorem laptopRevocation_valid :
    Valid Crypto.threeRequests (deskAndLaptop.revoke laptopRevocation) := by
  apply (restricts_revoke _ _).valid deskAndLaptop_valid
  intro _ hr _ hr' _
  rw [mem_singleton.mp hr, mem_singleton.mp hr']

theorem evaluation_of_records_laptop :
    (∃ effective effective',
      deskAndLaptop.effectiveMembers Crypto.threeRequests 3 = .ok effective ∧
      (deskAndLaptop.revoke laptopRevocation).effectiveMembers Crypto.threeRequests 3 =
        .ok effective' ∧
      effective.lookup laptopId = some laptop ∧ effective'.lookup laptopId ≠ some laptop) ∧
    ∃ effective effective', deskOnly.effectiveMembers Crypto.threeRequests 3 = .ok effective ∧
      (deskOnly.withMembers [laptop]).effectiveMembers Crypto.threeRequests 3 = .ok effective' ∧
      ∀ id m, effective.lookup id = some m → effective'.lookup id = some m := by
  obtain ⟨hsame, hrevoke, hmembers⟩ := evaluation_of_records Crypto.threeRequests
  have hboth := validate_eq_ok_iff.mpr deskAndLaptop_valid
  constructor
  · obtain ⟨effective, effective', hok, hok', hsub, _⟩ :=
      hrevoke _ _ hboth (validate_eq_ok_iff.mpr laptopRevocation_valid) 3
    obtain ⟨_, hlookup⟩ := effectiveMembers_eq_ok hok
    refine ⟨effective, effective', hok, hok', (hlookup _ _).mpr laptop_effective, ?_⟩
    intro hlaptop
    exact (hsub _ _ hlaptop).2 (.inl rfl)
  · apply hmembers _ _ (validate_eq_ok_iff.mpr deskOnly_valid)
    exact (hsame _ _ deskOnly_laptop_same).1.mp hboth
end
end Tako.Network
