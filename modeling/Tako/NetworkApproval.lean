import Tako.NetworkMerge

/-! An approval takes effect: the member it makes fits the registry it was made
for, and nobody loses anything by it. -/
namespace Tako.Network
open Fallible RegistrySnapshot List
variable {C : Crypto} {s : RegistrySnapshot} {m : Member} {verified : VerifiedEnrollment}
  {approval : Approval}

theorem live_of_validate (h : m.validate C = .ok ()) : m.live m.createdAt = true := by
  unfold Member.validate at h
  obtain ⟨_, _, h⟩ := bind_eq_ok h
  obtain ⟨_, _, h⟩ := bind_eq_ok h
  obtain ⟨_, _, h⟩ := bind_eq_ok h
  obtain ⟨_, h⟩ := check_eq_ok h
  obtain ⟨hexpiry, _⟩ := check_eq_ok h
  unfold Member.live
  rw [Bool.and_eq_true, decide_eq_true_eq]
  refine ⟨le_refl _, ?_⟩
  cases hm : m.expiresAt with
  | none => rfl
  | some expiry =>
    rw [hm] at hexpiry
    have hlt : ¬expiry ≤ m.createdAt := fun hle => hexpiry (.inl (decide_eq_true hle))
    exact decide_eq_true (Nat.lt_of_not_le hlt)

structure Apart (C : Crypto) (x m : Member) : Prop where
  deviceId : x.deviceId ≠ m.deviceId
  wgKey : x.request.wgPublicKey ≠ m.request.wgPublicKey
  sshKey : x.request.sshPublicKey ≠ m.request.sshPublicKey
  address : x.networkId.address C x.request.wgPublicKey ≠
    m.networkId.address C m.request.wgPublicKey

theorem comparePrevious_eq_ok {previous : List Member} {m' : Member}
    (h : comparePrevious C m previous = .ok m') :
    m' = m ∧ (m ∈ previous ∨ ∀ x ∈ previous, Apart C x m) := by
  induction previous with
  | nil =>
    refine ⟨(Except.ok.inj h).symm, .inr ?_⟩
    intro x hx
    cases hx
  | cons existing _ ih =>
    unfold comparePrevious at h
    by_cases hid : existing.deviceId = m.deviceId
    · rw [if_pos hid] at h
      by_cases hsame : existing = m
      · rw [if_pos hsame] at h
        subst hsame
        exact ⟨(Except.ok.inj h).symm, .inl (mem_cons_self ..)⟩
      · rw [if_neg hsame] at h
        cases h
    · rw [if_neg hid] at h
      obtain ⟨hkeys, h⟩ := check_eq_ok h
      obtain ⟨haddress, h⟩ := check_eq_ok h
      obtain ⟨hwg, hssh⟩ := not_or.mp hkeys
      obtain ⟨rfl, hmem | hapart⟩ := ih h
      · exact ⟨rfl, .inl (mem_cons_of_mem _ hmem)⟩
      · exact ⟨rfl, .inr (forall_mem_cons.mpr ⟨⟨hid, hwg, hssh, haddress⟩, hapart⟩)⟩

def Empowered (s : RegistrySnapshot) (effective : EffectiveMembers) (m : Member) : Prop :=
  Root s.network m ∨ ∃ parentId parent, m.approvedBy = some parentId ∧
    effective.lookup parentId = some parent ∧ m.delegatedBy parent = true

theorem checkAuthority_eq_ok {effective : EffectiveMembers} {localOperator : Bool}
    (h : s.checkAuthority effective m localOperator = .ok ()) : Empowered s effective m := by
  unfold checkAuthority at h
  cases happroved : m.approvedBy with
  | none =>
    simp only [happroved] at h
    by_cases hlocal : localOperator = true ∧ m.independentAdmin = true
    · exact .inl ⟨happroved, .inl hlocal.2⟩
    · rw [if_neg hlocal] at h
      obtain ⟨hboot, _⟩ := check_eq_ok h
      obtain ⟨hinitial, hrest⟩ := not_or.mp hboot
      obtain ⟨hadmin, _⟩ := not_or.mp hrest
      exact .inl ⟨happroved, .inr ⟨not_not.mp hinitial, by simpa using hadmin⟩⟩
  | some parentId =>
    simp only [happroved] at h
    cases hparent : effective.lookup parentId with
    | none =>
      rw [hparent] at h
      cases h
    | some parent =>
      simp only [hparent] at h
      by_cases hdelegated : m.delegatedBy parent = true
      · exact .inr ⟨parentId, parent, happroved, hparent, hdelegated⟩
      · rw [if_neg hdelegated] at h
        cases h

structure Approved (C : Crypto) (s : RegistrySnapshot) (approval : Approval) (m : Member) :
    Prop where
  createdAt : m.createdAt = approval.createdAt
  valid : m.validate C = .ok ()
  network : m.networkId = s.network.id
  admissible : Admissible C s m
  empowered : ∃ effective, s.effectiveMembers C m.createdAt = .ok effective ∧
    Empowered s effective m
  fits : m ∈ s.members ∨ ∀ x ∈ s.members, x.wgVerified = true → Apart C x m

theorem approveWithAuthority_eq_ok {localOperator : Bool}
    (h : s.approveWithAuthority C verified approval localOperator = .ok m) :
    m = approval.member verified ∧ Approved C s approval m := by
  unfold approveWithAuthority at h
  obtain ⟨effective, heffective, h⟩ := bind_eq_ok h
  obtain ⟨_, hvalid, h⟩ := bind_eq_ok h
  obtain ⟨hnetwork, h⟩ := check_eq_ok h
  obtain ⟨_, hdenied, h⟩ := bind_eq_ok h
  obtain ⟨hnot, h⟩ := check_eq_ok h
  obtain ⟨_, h⟩ := check_eq_ok h
  obtain ⟨_, hauthority, h⟩ := bind_eq_ok h
  obtain ⟨rfl, hprevious⟩ := comparePrevious_eq_ok h
  rw [Bool.not_eq_true] at hnot
  subst hnot
  refine ⟨rfl, rfl, hvalid, not_not.mp hnetwork, ⟨rfl, hdenied⟩,
    ⟨effective, heffective, checkAuthority_eq_ok hauthority⟩, ?_⟩
  obtain hmem | hapart := hprevious
  · exact .inl (mem_of_mem_filter hmem)
  · exact .inr fun x hx hverified => hapart x (mem_filter.mpr ⟨hx, hverified⟩)

theorem approved_of_eq_ok (h : s.approve C verified approval = .ok m ∨
    s.approveIndependentAdmin C verified approval = .ok m) : Approved C s approval m := by
  obtain h | h := h
  · exact (approveWithAuthority_eq_ok h).2
  · obtain ⟨_, h⟩ := check_eq_ok h
    exact (approveWithAuthority_eq_ok h).2

theorem agree_concat {β γ : Type} {f : Member → β} {g : Member → γ} {A : Member → Prop}
    {l : List Member}
    (hl : ∀ x ∈ l, ∀ x' ∈ l, A x → A x' → f x = f x' → g x = g x') (hm : ∀ x ∈ l, A x → f x ≠ f m) :
    ∀ x ∈ l ++ [m], ∀ x' ∈ l ++ [m], A x → A x' → f x = f x' → g x = g x' := by
  apply forall_concat
  · intro x hx
    apply forall_concat (hl x hx)
    intro ha _ heq
    exact absurd heq (hm x hx ha)
  · apply forall_concat
    · intro x hx _ ha heq
      exact absurd heq.symm (hm x hx ha)
    · exact fun _ _ _ => rfl

theorem sameRecords_withMembers (hm : m ∈ s.members) : SameRecords s (s.withMembers [m]) := by
  refine ⟨rfl, ?_, fun _ => Iff.rfl, fun _ => Iff.rfl⟩
  intro x
  constructor
  · exact mem_append_left _
  · exact fun hx => forall_concat (fun _ hx => hx) hm x hx

theorem Approved.valid_withMembers (h : Approved C s approval m) (hs : Valid C s) :
    Valid C (s.withMembers [m]) := by
  obtain hmem | hapart := h.fits
  · exact (sameRecords_withMembers hmem).valid hs
  · have haddress (x : Member) (hx : x ∈ s.members) (ha : Admissible C s x) :
        s.network.id.address C x.request.wgPublicKey ≠
          s.network.id.address C m.request.wgPublicKey := by
      have hne := (hapart x hx ha.1).address
      rwa [(hs.acceptable x hx).network, h.network] at hne
    refine ⟨?_, ?_, ?_, ?_, ?_, hs.revocation⟩
    · apply forall_concat
      · intro x hx
        have ha := hs.acceptable x hx
        exact ⟨ha.valid, ha.network, ha.readable⟩
      · exact ⟨h.valid, h.network, fun _ => ⟨false, h.admissible.2⟩⟩
    · exact agree_concat (g := id) hs.member fun x hx hverified => (hapart x hx hverified).deviceId
    · exact agree_concat hs.wgKey fun x hx ha => (hapart x hx ha.1).wgKey
    · exact agree_concat hs.sshKey fun x hx ha => (hapart x hx ha.1).sshKey
    · exact agree_concat hs.address haddress

theorem Approved.effective (h : Approved C s approval m) :
    Effective C (s.withMembers [m]) m.createdAt m.deviceId m := by
  have heligible : Eligible C (s.withMembers [m]) m.createdAt m :=
    ⟨mem_append_right _ (mem_singleton_self m), h.admissible, live_of_validate h.valid⟩
  obtain ⟨effective, hok, hroot | ⟨_, _, happroved, hparent, hdelegated⟩⟩ := h.empowered
  · exact .root ⟨heligible, rfl⟩ hroot.unapproved (root_approvalRules.mpr hroot.admin)
  · obtain ⟨_, hlookup⟩ := effectiveMembers_eq_ok hok
    -- the approver is still effective next to the member it approved
    have hparent' := (restricts_withMembers s [m]).effective ((hlookup _ _).mp hparent)
    exact .step ⟨heligible, rfl⟩ happroved hparent' hdelegated

theorem Approved.apart (h : Approved C s approval m) (hs : Valid C s) {x : Member}
    (hx : x ∈ s.members) (hverified : x.wgVerified = true) (hne : x ≠ m)
    (hcompared : m ∉ s.members ∨ s.denied C x = .ok false) : Apart C x m := by
  obtain hmem | hapart := h.fits
  · have hdenied := hcompared.resolve_left (not_not.mpr hmem)
    have hid : x.deviceId ≠ m.deviceId :=
      fun hid => hne (hs.member x hx m hmem hverified h.admissible.1 hid)
    have ha : Admissible C s x := ⟨hverified, hdenied⟩
    refine ⟨hid, ?_, ?_, ?_⟩
    · exact fun hkey => hid (hs.wgKey x hx m hmem ha h.admissible hkey)
    · exact fun hkey => hid (hs.sshKey x hx m hmem ha h.admissible hkey)
    · rw [(hs.acceptable x hx).network, h.network]
      exact fun haddress => hid (hs.address x hx m hmem ha h.admissible haddress)
  · exact hapart x hx hverified

/-- An approval keeps the registry valid and takes effect. -/
theorem approval_takes_effect (hs : s.validate C = .ok ())
    (h : s.approve C verified approval = .ok m ∨
      s.approveIndependentAdmin C verified approval = .ok m) :
    (s.withMembers [m]).validate C = .ok () ∧
    (∃ effective, (s.withMembers [m]).effectiveMembers C approval.createdAt = .ok effective ∧
      effective.lookup m.deviceId = some m) ∧
    (∀ now, ∃ effective effective', s.effectiveMembers C now = .ok effective ∧
      (s.withMembers [m]).effectiveMembers C now = .ok effective' ∧
      ∀ id x, effective.lookup id = some x → effective'.lookup id = some x) ∧
    (∀ x ∈ s.members, x.wgVerified = true → x ≠ m →
      (m ∉ s.members ∨ s.denied C x = .ok false) → Apart C x m) ∧
    ∀ r ∈ s.revocations, ¬RevokedBy C m r := by
  have happroved := approved_of_eq_ok h
  have hvalid := validate_eq_ok_iff.mp hs
  have hvalid' := happroved.valid_withMembers hvalid
  refine ⟨validate_eq_ok_iff.mpr hvalid', ?_, ?_, ?_, ?_⟩
  · obtain ⟨effective, hok, hlookup⟩ := effectiveMembers_of_valid hvalid' approval.createdAt
    refine ⟨effective, hok, (hlookup _ _).mpr ?_⟩
    rw [← happroved.createdAt]
    exact happroved.effective
  · intro now
    obtain ⟨effective, hok, hlookup⟩ := effectiveMembers_of_valid hvalid now
    obtain ⟨effective', hok', hlookup'⟩ := effectiveMembers_of_valid hvalid' now
    refine ⟨effective, effective', hok, hok', ?_⟩
    intro _ x hx
    rw [hlookup] at hx
    rw [hlookup']
    exact (restricts_withMembers s [m]).effective hx
  · intro x hx hverified hne hcompared
    exact happroved.apart hvalid hx hverified hne hcompared
  · exact (admissible_iff.mp happroved.admissible).2.2

def laptopEnrollment : VerifiedEnrollment := ⟨laptopRequest, takoNetwork, laptopId⟩

def laptopApproval : Approval where
  kind := .laptop
  permissions := ⟨true, false, none, {⟨"shop/production"⟩}⟩
  approvedBy := some deskId
  independentAdmin := false
  createdAt := 2
  expiresAt := some 10

theorem laptop_approved :
    deskOnly.approve Crypto.threeRequests laptopEnrollment laptopApproval = .ok laptop := by
  decide +kernel

theorem approval_takes_effect_laptop :
    (deskOnly.withMembers [laptop]).validate Crypto.threeRequests = .ok () ∧
    ∃ effective,
      (deskOnly.withMembers [laptop]).effectiveMembers Crypto.threeRequests 2 = .ok effective ∧
      effective.lookup laptopId = some laptop := by
  obtain ⟨hvalid, heffective, _⟩ :=
    approval_takes_effect (validate_eq_ok_iff.mpr deskOnly_valid) (.inl laptop_approved)
  exact ⟨hvalid, heffective⟩

/-- A device with the laptop's SSH key and the desk's WireGuard key. -/
def clone : Member :=
  { laptop with
    deviceId := cloneId
    request := cloneRequest }

/-- The laptop was revoked, and with it whoever has its SSH key. -/
def cloned : RegistrySnapshot :=
  { deskAndLaptop with
    members := [desk, clone]
    revocations := [laptopRevocation] }

def deskEnrollment : VerifiedEnrollment := ⟨deskRequest, takoNetwork, deskId⟩

def deskApproval : Approval where
  kind := .laptop
  permissions := ⟨true, true, none, ∅⟩
  approvedBy := none
  independentAdmin := true
  createdAt := 1
  expiresAt := none

/-- `approve` returns the desk as it is, before it comes to the clone. -/
theorem approved_with_shared_key :
    cloned.validate Crypto.threeRequests = .ok () ∧
    cloned.approveIndependentAdmin Crypto.threeRequests deskEnrollment deskApproval = .ok desk ∧
    clone ∈ cloned.members ∧ clone.wgVerified = true ∧ clone.deviceId ≠ desk.deviceId ∧
    clone.request.wgPublicKey = desk.request.wgPublicKey := by
  decide +kernel

end Tako.Network
