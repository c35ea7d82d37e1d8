import Tako.FallibleLoops
import Tako.NetworkRegistry

/-! What a snapshot that validates has in common with any other of the same
records: validity and the effective members depend on the records as a set. -/
namespace Tako.Network
open AgreeingMap Fallible List
namespace RegistrySnapshot
variable {C : Crypto} {s : RegistrySnapshot}
def Admissible (C : Crypto) (s : RegistrySnapshot) (m : Member) : Prop :=
  m.wgVerified = true ∧ s.denied C m = .ok false

structure Acceptable (C : Crypto) (s : RegistrySnapshot) (m : Member) : Prop where
  valid : m.validate C = .ok ()
  network : m.networkId = s.network.id
  readable : m.wgVerified = true → ∃ b, s.denied C m = .ok b

/-- What the records must satisfy together. Ids are compared among the verified
members, keys and addresses only among those that are not denied. -/
structure Valid (C : Crypto) (s : RegistrySnapshot) : Prop where
  acceptable : ∀ m ∈ s.members, Acceptable C s m
  member : ∀ m ∈ s.members, ∀ m' ∈ s.members, m.wgVerified = true → m'.wgVerified = true →
    m.deviceId = m'.deviceId → m = m'
  wgKey : ∀ m ∈ s.members, ∀ m' ∈ s.members, Admissible C s m → Admissible C s m' →
    m.request.wgPublicKey = m'.request.wgPublicKey → m.deviceId = m'.deviceId
  sshKey : ∀ m ∈ s.members, ∀ m' ∈ s.members, Admissible C s m → Admissible C s m' →
    m.request.sshPublicKey = m'.request.sshPublicKey → m.deviceId = m'.deviceId
  address : ∀ m ∈ s.members, ∀ m' ∈ s.members, Admissible C s m → Admissible C s m' →
    s.network.id.address C m.request.wgPublicKey = s.network.id.address C m'.request.wgPublicKey →
    m.deviceId = m'.deviceId
  revocation : ∀ r ∈ s.revocations, ∀ r' ∈ s.revocations, r.id = r'.id → r = r'

/-- The maps of `validate` after a list of members. -/
structure Tracks (C : Crypto) (s : RegistrySnapshot) (done : List Member) (seen : Seen) : Prop where
  acceptable : ∀ m ∈ done, Acceptable C s m
  members : Records seen.members done (fun m => m.wgVerified = true) Member.deviceId id
  wgKeys : Records seen.wgKeys done (Admissible C s) (fun m => m.request.wgPublicKey)
    Member.deviceId
  sshKeys : Records seen.sshKeys done (Admissible C s) (fun m => m.request.sshPublicKey)
    Member.deviceId
  addresses : Records seen.addresses done (Admissible C s)
    (fun m => s.network.id.address C m.request.wgPublicKey) Member.deviceId

theorem tracks_nil : Tracks C s [] ⟨∅, ∅, ∅, ∅⟩ where
  acceptable m hm := by cases hm
  members := Records.nil
  wgKeys := Records.nil
  sshKeys := Records.nil
  addresses := Records.nil

theorem forall_concat {α : Type} {P : α → Prop} {done : List α} {m : α} (hdone : ∀ x ∈ done, P x)
    (hm : P m) : ∀ x ∈ done ++ [m], P x :=
  forall_mem_append.mpr ⟨hdone, forall_mem_singleton.mpr hm⟩

theorem Tracks.unverified {done : List Member} {seen : Seen} (h : Tracks C s done seen) {m : Member}
    (hm : Acceptable C s m) (hverified : m.wgVerified = false) : Tracks C s (done ++ [m]) seen := by
  have hv : ¬m.wgVerified = true := by
    rw [hverified]
    exact Bool.false_ne_true
  have hadmissible : ¬Admissible C s m := fun ha => hv ha.1
  exact ⟨forall_concat h.acceptable hm, h.members.skip hv, h.wgKeys.skip hadmissible,
    h.sshKeys.skip hadmissible, h.addresses.skip hadmissible⟩

structure Agrees (C : Crypto) (s : RegistrySnapshot) (done : List Member) (m : Member) : Prop where
  member : ∀ x ∈ done, x.wgVerified = true → m.wgVerified = true → x.deviceId = m.deviceId → x = m
  wgKey : ∀ x ∈ done, Admissible C s x → Admissible C s m →
    x.request.wgPublicKey = m.request.wgPublicKey → x.deviceId = m.deviceId
  sshKey : ∀ x ∈ done, Admissible C s x → Admissible C s m →
    x.request.sshPublicKey = m.request.sshPublicKey → x.deviceId = m.deviceId
  address : ∀ x ∈ done, Admissible C s x → Admissible C s m →
    s.network.id.address C x.request.wgPublicKey = s.network.id.address C m.request.wgPublicKey →
    x.deviceId = m.deviceId

variable {done : List Member} {seen seen' : Seen} {m : Member}
theorem admitMember_of_agrees (h : Tracks C s done seen) (hm : Acceptable C s m)
    (hagrees : Agrees C s done m) :
    ∃ seen', s.admitMember C seen m = .ok seen' ∧ Tracks C s (done ++ [m]) seen' := by
  unfold admitMember
  rw [ok_bind hm.valid, if_neg (not_not.mpr hm.network)]
  by_cases hverified : m.wgVerified = false
  · rw [if_pos hverified]
    exact ⟨seen, rfl, h.unverified hm hverified⟩
  · have hv : m.wgVerified = true := Bool.not_eq_false _ ▸ hverified
    obtain ⟨denied, hdenied⟩ := hm.readable hv
    have hmembers := h.members.insert hv fun x hx hxv hid => hagrees.member x hx hxv hv hid
    have hconflict : conflicts seen.members m.deviceId m = false :=
      h.members.conflicts_iff.mpr fun x hx hxv hid => hagrees.member x hx hxv hv hid
    rw [if_neg hverified, if_neg (by rw [hconflict]; exact Bool.false_ne_true), ok_bind hdenied]
    cases denied with
    | true =>
      have hnot : ¬Admissible C s m := by
        intro ha
        rw [ha.2] at hdenied
        cases hdenied
      exact ⟨_, rfl, forall_concat h.acceptable hm, hmembers, h.wgKeys.skip hnot,
        h.sshKeys.skip hnot,
        h.addresses.skip hnot⟩
    | false =>
      have ha : Admissible C s m := ⟨hv, hdenied⟩
      have hwg : conflicts seen.wgKeys m.request.wgPublicKey m.deviceId = false :=
        h.wgKeys.conflicts_iff.mpr fun x hx hxa hkey => hagrees.wgKey x hx hxa ha hkey
      have hssh : conflicts seen.sshKeys m.request.sshPublicKey m.deviceId = false :=
        h.sshKeys.conflicts_iff.mpr fun x hx hxa hkey => hagrees.sshKey x hx hxa ha hkey
      have haddress : conflicts seen.addresses (s.network.id.address C m.request.wgPublicKey)
          m.deviceId = false :=
        h.addresses.conflicts_iff.mpr fun x hx hxa hkey => hagrees.address x hx hxa ha hkey
      simp only [hwg, hssh, haddress, Bool.false_eq_true, if_false, or_false]
      refine ⟨_, rfl, forall_concat h.acceptable hm, hmembers, ?_, ?_, ?_⟩
      · exact h.wgKeys.insert ha fun x hx hxa hkey => hagrees.wgKey x hx hxa ha hkey
      · exact h.sshKeys.insert ha fun x hx hxa hkey => hagrees.sshKey x hx hxa ha hkey
      · exact h.addresses.insert ha fun x hx hxa hkey => hagrees.address x hx hxa ha hkey

theorem admitMember_eq_ok (h : Tracks C s done seen) (hok : s.admitMember C seen m = .ok seen') :
    Acceptable C s m ∧ Agrees C s done m := by
  unfold admitMember at hok
  obtain ⟨_, hvalid, hok⟩ := bind_eq_ok hok
  split at hok
  · cases hok
  · rename_i hnetwork
    have hnetwork : m.networkId = s.network.id := not_not.mp hnetwork
    split at hok
    · rename_i hverified
      have hnot : ¬m.wgVerified = true := by
        rw [hverified]
        exact Bool.false_ne_true
      exact ⟨⟨hvalid, hnetwork, fun hv => absurd hv hnot⟩, fun x _ _ hv => absurd hv hnot,
        fun x _ _ ha => absurd ha.1 hnot, fun x _ _ ha => absurd ha.1 hnot,
        fun x _ _ ha => absurd ha.1 hnot⟩
    · rename_i hverified
      have hv : m.wgVerified = true := Bool.not_eq_false _ ▸ hverified
      split at hok
      · cases hok
      · rename_i hconflict
        have hmember := h.members.conflicts_iff.mp (Bool.not_eq_true _ ▸ hconflict)
        obtain ⟨denied, hdenied, hok⟩ := bind_eq_ok hok
        have hacceptable : Acceptable C s m := ⟨hvalid, hnetwork, fun _ => ⟨denied, hdenied⟩⟩
        refine ⟨hacceptable, ?_⟩
        cases denied with
        | true =>
          have hnot : ¬Admissible C s m := by
            intro ha
            rw [ha.2] at hdenied
            cases hdenied
          exact ⟨fun x hx hxv _ hid => hmember x hx hxv hid, fun x _ _ ha => absurd ha hnot,
            fun x _ _ ha => absurd ha hnot, fun x _ _ ha => absurd ha hnot⟩
        | false =>
          simp only [Bool.false_eq_true, if_false] at hok
          split at hok
          · cases hok
          · rename_i hkeys
            rw [not_or, Bool.not_eq_true, Bool.not_eq_true] at hkeys
            split at hok
            · cases hok
            · rename_i haddress
              rw [Bool.not_eq_true] at haddress
              have hwg := h.wgKeys.conflicts_iff.mp hkeys.1
              have hssh := h.sshKeys.conflicts_iff.mp hkeys.2
              have haddress := h.addresses.conflicts_iff.mp haddress
              exact ⟨fun x hx hxv _ hid => hmember x hx hxv hid,
                fun x hx hxa _ hkey => hwg x hx hxa hkey,
                fun x hx hxa _ hkey => hssh x hx hxa hkey,
                fun x hx hxa _ hkey => haddress x hx hxa hkey⟩

theorem tracks_admitMember (h : Tracks C s done seen) (hok : s.admitMember C seen m = .ok seen') :
    Tracks C s (done ++ [m]) seen' := by
  obtain ⟨hm, hagrees⟩ := admitMember_eq_ok h hok
  obtain ⟨_, hok', htracks⟩ := admitMember_of_agrees h hm hagrees
  rw [hok] at hok'
  rw [Except.ok.inj hok']
  exact htracks

theorem recordRevocation_eq_ok {seen seen' : AList (fun _ : RevocationId => Revocation)}
    {done : List Revocation} {r : Revocation}
    (h : Records seen done (fun _ => True) Revocation.id id)
    (hok : recordRevocation seen r = .ok seen') :
    Records seen' (done ++ [r]) (fun _ => True) Revocation.id id := by
  unfold recordRevocation at hok
  split at hok
  · cases hok
  · rename_i hconflict
    rw [Bool.not_eq_true] at hconflict
    rw [← Except.ok.inj hok]
    exact h.insert trivial (h.conflicts_iff.mp hconflict)

/-- `validate` succeeds exactly on the snapshots whose records are acceptable and
agree with each other. -/
theorem validate_eq_ok_iff : s.validate C = .ok () ↔ Valid C s := by
  unfold validate
  constructor
  · intro hok
    obtain ⟨seen, hmembers, hok⟩ := bind_eq_ok hok
    obtain ⟨revoked, hrevocations, _⟩ := bind_eq_ok hok
    have htracks : Tracks C s s.members seen :=
      foldlM_invariant hmembers tracks_nil fun _ _ _ _ _ => tracks_admitMember
    have hrevoked : Records revoked s.revocations (fun _ => True) Revocation.id id :=
      foldlM_invariant hrevocations
        (I := fun done seen => Records seen done (fun _ => True) Revocation.id id) Records.nil
        fun _ _ _ _ _ => recordRevocation_eq_ok
    exact
      { acceptable := htracks.acceptable
        member := fun _ hm _ hm' => htracks.members.agree hm hm'
        wgKey := fun _ hm _ hm' => htracks.wgKeys.agree hm hm'
        sshKey := fun _ hm _ hm' => htracks.sshKeys.agree hm hm'
        address := fun _ hm _ hm' => htracks.addresses.agree hm hm'
        revocation := fun _ hr _ hr' => hrevoked.agree hr hr' trivial trivial }
  · intro h
    obtain ⟨seen, hmembers, _⟩ : ∃ seen,
        s.members.foldlM (s.admitMember C) ⟨∅, ∅, ∅, ∅⟩ = .ok seen ∧ Tracks C s s.members seen := by
      apply foldlM_ok (Tracks C s) tracks_nil
      intro done m seen hdone htracks
      have hm : m ∈ s.members := hdone m (mem_append_right _ (mem_singleton_self m))
      have hbefore (x : Member) (hx : x ∈ done) : x ∈ s.members := hdone x (mem_append_left _ hx)
      apply admitMember_of_agrees htracks (h.acceptable m hm)
      exact
        { member := fun x hx => h.member x (hbefore x hx) m hm
          wgKey := fun x hx => h.wgKey x (hbefore x hx) m hm
          sshKey := fun x hx => h.sshKey x (hbefore x hx) m hm
          address := fun x hx => h.address x (hbefore x hx) m hm }
    obtain ⟨revoked, hrevocations, _⟩ : ∃ revoked,
        s.revocations.foldlM recordRevocation ∅ = .ok revoked ∧
          Records revoked s.revocations (fun _ => True) Revocation.id id := by
      apply foldlM_ok (fun done seen => Records seen done (fun _ => True) Revocation.id id)
        Records.nil
      intro done r seen hdone hrecords
      have hr : r ∈ s.revocations := hdone r (mem_append_right _ (mem_singleton_self r))
      have hagree (x : Revocation) (hx : x ∈ done) (_ : True) (hid : x.id = r.id) : id x = id r :=
        h.revocation x (hdone x (mem_append_left _ hx)) r hr hid
      have hno : conflicts seen r.id r = false := hrecords.conflicts_iff.mpr hagree
      refine ⟨seen.insert r.id r, ?_, hrecords.insert trivial hagree⟩
      rw [recordRevocation, hno, if_neg Bool.false_ne_true]
    rw [ok_bind hmembers, ok_bind hrevocations]
    rfl

structure Eligible (C : Crypto) (s : RegistrySnapshot) (now : ℕ) (m : Member) : Prop where
  mem : m ∈ s.members
  admissible : Admissible C s m
  live : m.live now = true

/-- `m` is effective under `id`: a root, or approved by someone who is effective
and may delegate what it has. -/
def Effective (C : Crypto) (s : RegistrySnapshot) (now : ℕ) : DeviceId → Member → Prop :=
  (approvalRules s.network).Derives fun id m => Eligible C s now m ∧ m.deviceId = id

theorem pendingMembers_eq_ok (h : Valid C s) (now : ℕ) :
    ∃ pending, s.pendingMembers C now = .ok pending ∧
      ∀ id m, pending.lookup id = some m ↔ Eligible C s now m ∧ m.deviceId = id := by
  have hround (done : List Member) (m : Member) (pending : AList (fun _ : DeviceId => Member))
      (hdone : ∀ x ∈ done ++ [m], x ∈ s.members)
      (hrecords : Records pending done (fun m => Admissible C s m ∧ m.live now = true)
        Member.deviceId id) :
      ∃ pending', s.considerMember C now pending m = .ok pending' ∧
        Records pending' (done ++ [m]) (fun m => Admissible C s m ∧ m.live now = true)
          Member.deviceId id := by
    have hm : m ∈ s.members := hdone m (mem_append_right _ (mem_singleton_self m))
    unfold considerMember
    by_cases hcond : m.wgVerified = true ∧ m.live now = true
    · obtain ⟨denied, hdenied⟩ := (h.acceptable m hm).readable hcond.1
      rw [if_pos hcond, ok_bind hdenied]
      refine ⟨_, rfl, ?_⟩
      cases denied with
      | true =>
        apply hrecords.skip
        rintro ⟨ha, _⟩
        rw [ha.2] at hdenied
        cases hdenied
      | false =>
        apply hrecords.insert ⟨⟨hcond.1, hdenied⟩, hcond.2⟩
        intro x hx hxa hid
        exact h.member x (hdone x (mem_append_left _ hx)) m hm hxa.1.1 hcond.1 hid
    · rw [if_neg hcond]
      exact ⟨pending, rfl, hrecords.skip fun ha => hcond ⟨ha.1.1, ha.2⟩⟩
  obtain ⟨pending, hok, hrecords⟩ := foldlM_ok
    (fun done pending => Records pending done (fun m => Admissible C s m ∧ m.live now = true)
      Member.deviceId id) Records.nil hround
  refine ⟨pending, hok, ?_⟩
  intro id m
  rw [hrecords id m]
  constructor
  · rintro ⟨x, hx, ⟨ha, hlive⟩, hid, rfl⟩
    exact ⟨⟨hx, ha, hlive⟩, hid⟩
  · rintro ⟨⟨hx, ha, hlive⟩, hid⟩
    exact ⟨m, hx, ⟨ha, hlive⟩, hid, rfl⟩

theorem effectiveMembers_of_valid (h : Valid C s) (now : ℕ) :
    ∃ effective, s.effectiveMembers C now = .ok effective ∧
      ∀ id m, effective.lookup id = some m ↔ Effective C s now id m := by
  obtain ⟨_, hok, hpending⟩ := pendingMembers_eq_ok h now
  unfold effectiveMembers
  rw [ok_bind (validate_eq_ok_iff.mpr h), ok_bind hok]
  refine ⟨_, rfl, ?_⟩
  intro id m
  rw [Derivation.Rules.lookup_saturate _ le_rfl]
  constructor
  · exact Derivation.Rules.Derives.mono fun id m => (hpending id m).mp
  · exact Derivation.Rules.Derives.mono fun id m => (hpending id m).mpr

theorem effectiveMembers_eq_ok {now : ℕ} {effective : AList (fun _ : DeviceId => Member)}
    (hok : s.effectiveMembers C now = .ok effective) :
    Valid C s ∧ ∀ id m, effective.lookup id = some m ↔ Effective C s now id m := by
  have hvalid : Valid C s := by
    obtain ⟨_, hvalid, _⟩ := bind_eq_ok hok
    exact validate_eq_ok_iff.mp hvalid
  obtain ⟨_, hok', hlookup⟩ := effectiveMembers_of_valid hvalid now
  rw [hok] at hok'
  rw [Except.ok.inj hok']
  exact ⟨hvalid, hlookup⟩
end RegistrySnapshot
end Tako.Network
