import Tako.NetworkMerge
import Tako.NetworkMoves

/-! What was observed once stays observed, whatever the store returns later, so a device
that was revoked is not let in again. -/
namespace Tako.Network.Server
open Effects Fallible RegistrySnapshot
variable {Ω : Type} {S : Server Ω} {A : Set SignedRequest} {s s' : S.State}
theorem mem_sortedValues {κ α : Type} [DecidableEq κ] {m : AList fun _ : κ => α} {r : α → α → Prop}
    [DecidableRel r] {x : α} :
    x ∈ (m.entries.map Sigma.snd).insertionSort r ↔ ∃ k, m.lookup k = some x := by
  rw [List.mem_insertionSort, List.mem_map]
  constructor
  · rintro ⟨entry, hentry, rfl⟩
    exact ⟨entry.1, AList.mem_lookup_iff.mpr hentry⟩
  · rintro ⟨k, hk⟩
    exact ⟨⟨k, x⟩, AList.mem_lookup_iff.mp hk, rfl⟩

theorem mem_memberList {o : Observed} {m : Member} :
    m ∈ o.memberList ↔ ∃ k, o.members.lookup k = some m := mem_sortedValues

theorem mem_revocationList {o : Observed} {r : Revocation} :
    r ∈ o.revocationList ↔ ∃ k, o.revocations.lookup k = some r := mem_sortedValues

theorem ObservedLe.subset {o o' : Observed} (h : ObservedLe o o') :
    o.memberList ⊆ o'.memberList ∧ o.revocationList ⊆ o'.revocationList := by
  constructor
  · intro m hm
    obtain ⟨k, hk⟩ := mem_memberList.mp hm
    exact mem_memberList.mpr ⟨k, h.members k m hk⟩
  · intro r hr
    obtain ⟨k, hk⟩ := mem_revocationList.mp hr
    exact mem_revocationList.mpr ⟨k, h.revocations k r hk⟩

theorem observedLe_step (h : S.Move A s s') : ObservedLe s.db.observed s'.db.observed := by
  cases h with
  | opened hok =>
    obtain ⟨_, hok⟩ := check_eq_ok hok
    obtain ⟨_, rfl⟩ := ok_pair_inj hok
    exact .refl _
  | observed hok =>
    obtain ⟨_, rfl, hadd, _⟩ := observeTransaction_eq_ok hok
    exact (add_eq_ok hadd).1
  | consumed _ _ _ hok =>
    obtain ⟨_, _, _, rfl⟩ := consumeTransaction_eq_ok hok
    exact .refl _
  | _ => exact .refl _

theorem observedLe_moves (h : S.Moves A s s') : ObservedLe s.db.observed s'.db.observed := by
  induction h with
  | refl => exact .refl _
  | tail _ hmove ih => exact ih.trans (observedLe_step hmove)

def DenialsRecorded (s : S.State) : Prop :=
  ∀ r ∈ s.journal.denials, s.db.observed.revocations.lookup r.id = some r

/-- What was denied once stays observed, as nothing observed is lost. -/
theorem DenialsRecorded.step (h : DenialsRecorded s) (hmove : S.Move A s s') :
    DenialsRecorded s' := by
  have hle := (observedLe_step hmove).revocations
  have hkept (r : Revocation) (hr : r ∈ s.journal.denials) :
      s'.db.observed.revocations.lookup r.id = some r := hle _ _ (h r hr)
  cases hmove with
  | denied hlookup =>
    exact forall_concat hkept hlookup
  | _ => exact hkept

theorem DenialsRecorded.moves (h : DenialsRecorded s) (hmoves : S.Moves A s s') :
    DenialsRecorded s' := by
  induction hmoves with
  | refl => exact h
  | tail _ hmove ih => exact ih.step hmove

theorem Since.observed {u : RegistrySnapshot} (h : S.Since A s u s') :
    s.db.observed.memberList ⊆ u.members ∧ s.db.observed.revocationList ⊆ u.revocations ∧
      u.members ⊆ s'.db.observed.memberList ∧ u.revocations ⊆ s'.db.observed.revocationList := by
  obtain ⟨_, hbefore, hshows, hafter⟩ := h
  rw [hshows.members, hshows.revocations]
  have hle := (observedLe_moves hbefore).subset
  have hle' := (observedLe_moves hafter).subset
  exact ⟨hle.1, hle.2, hle'.1, hle'.2⟩

section
variable {C : Crypto} {u : RegistrySnapshot} {r : Revocation} {now : ℕ}
  {effective : AList (fun _ : DeviceId => Member)} (hr : r ∈ u.revocations)
  (hok : u.effectiveMembers C now = .ok effective)

include hr hok
theorem not_effective_of_revoked {id : DeviceId} {m : Member}
    (hm : effective.lookup id = some m) : m.deviceId = id ∧ ¬RevokedBy C m r := by
  obtain ⟨heligible, hid⟩ := ((effectiveMembers_eq_ok hok).2 id m).mp hm |>.allowed
  refine ⟨hid, fun hrevoked => ?_⟩
  have hdenied := (denied_eq_ok_iff.mp heligible.admissible.2).2.mpr ⟨r, hr, hrevoked⟩
  cases hdenied

theorem lookup_target_of_revoked : effective.lookup r.target = none := by
  cases hlookup : effective.lookup r.target with
  | none => rfl
  | some =>
    obtain ⟨hid, hfree⟩ := not_effective_of_revoked hr hok hlookup
    exact absurd (.inl hid.symm) hfree
end

def Answers (S : Server Ω) (w : World S.exchange Ω) (call : RuntimeCall) (a : Answer) : Prop :=
  ∃ w', S.perform call w = .ok a w'

/-- Whatever the store returns: a snapshot that is returned has every member and every
revocation of each that was returned before, so whoever a revocation names, by id or by
key, is neither effective in a later one nor let in by the host. A denial that was handed to
the store is in every later snapshot even if the store failed, and so is all that a call,
failed or not, has recorded. -/
theorem denial_sticky (S : Server Ω) (o : Ω) (before between : List RuntimeCall)
    (call call' : RuntimeCall) :
    let w := S.after ⟨o, {}⟩ before
    let w' := S.after (final (S.perform call w)) between
    (∀ a a', S.Answers w call a → S.Answers w' call' a' → ∀ u ∈ a.snapshots,
      (∀ u' ∈ a'.snapshots, u.members ⊆ u'.members ∧ u.revocations ⊆ u'.revocations ∧
        ∀ r ∈ u.revocations, ∀ now effective, u'.effectiveMembers S.crypto now = .ok effective →
          effective.lookup r.target = none ∧
          ∀ id m, effective.lookup id = some m → ¬RevokedBy S.crypto m r) ∧
      ∀ entry ∈ a'.entries, ∃ m, S.EntryOf m.deviceId m entry ∧
        (∃ u' ∈ a'.snapshots, ∃ now effective, u'.effectiveMembers S.crypto now = .ok effective ∧
          effective.lookup m.deviceId = some m) ∧
        ∀ r ∈ u.revocations, ¬RevokedBy S.crypto m r) ∧
    ∀ a', S.Answers w' call' a' → ∀ u' ∈ a'.snapshots,
      (∀ r ∈ (final (S.perform call w)).state.journal.denials, r ∈ u'.revocations) ∧
      (final (S.perform call w)).state.db.observed.memberList ⊆ u'.members ∧
      (final (S.perform call w)).state.db.observed.revocationList ⊆ u'.revocations := by
  intro w w'
  have hreturned {w₀ w₁ : World S.exchange Ω} {c : RuntimeCall} {a : Answer}
      (h : S.perform c w₀ = .ok a w₁) :
      (∀ u ∈ a.snapshots, S.Since Set.univ w₀.state u w₁.state) ∧ S.LetsIn a := by
    have hrun := goes_perform c (fun _ _ => trivial) w₀.state w₀.state w₀ ⟨.refl, .refl⟩
    rw [h] at hrun
    exact hrun.2
  have hbetween := observedLe_moves (moves_after (A := Set.univ) (final (S.perform call w)) between
    fun _ _ _ _ => trivial)
  -- a later answer has all that was recorded when the first call ended
  have hlater {a' : Answer} (ha' : S.Answers w' call' a') (u' : RegistrySnapshot)
      (hu' : u' ∈ a'.snapshots) :
      (final (S.perform call w)).state.db.observed.memberList ⊆ u'.members ∧
      (final (S.perform call w)).state.db.observed.revocationList ⊆ u'.revocations := by
    obtain ⟨w₁, hrun⟩ := ha'
    have hsince := ((hreturned hrun).1 u' hu').observed
    exact ⟨List.Subset.trans hbetween.subset.1 hsince.1,
      List.Subset.trans hbetween.subset.2 hsince.2.1⟩
  have hsubset {a a' : Answer} (ha : S.Answers w call a) (ha' : S.Answers w' call' a')
      {u u' : RegistrySnapshot} (hu : u ∈ a.snapshots) (hu' : u' ∈ a'.snapshots) :
      u.members ⊆ u'.members ∧ u.revocations ⊆ u'.revocations := by
    obtain ⟨w₁, hrun⟩ := ha
    have hsince := ((hreturned hrun).1 u hu).observed
    have hrecorded := hlater ha' u' hu'
    rw [hrun] at hrecorded
    exact ⟨List.Subset.trans hsince.2.2.1 hrecorded.1,
      List.Subset.trans hsince.2.2.2 hrecorded.2⟩
  refine ⟨fun a a' ha ha' u hu => ⟨fun u' hu' => ?_, fun entry hentry => ?_⟩, ?_⟩
  · obtain ⟨hmembers, hrevocations⟩ := hsubset ha ha' hu hu'
    refine ⟨hmembers, hrevocations, fun r hr now effective hok => ⟨?_, fun id m hm => ?_⟩⟩
    · exact lookup_target_of_revoked (hrevocations hr) hok
    · exact (not_effective_of_revoked (hrevocations hr) hok hm).2
  · obtain ⟨w₁, hrun⟩ := ha'
    obtain ⟨u', hu', now, effective, hok, id, m, hm, hof⟩ := (hreturned hrun).2 entry hentry
    obtain rfl : m.deviceId = id := (((effectiveMembers_eq_ok hok).2 id m).mp hm).allowed.2
    refine ⟨m, hof, ⟨u', hu', now, effective, hok, hm⟩, fun r hr => ?_⟩
    exact (not_effective_of_revoked ((hsubset ha ⟨w₁, hrun⟩ hu hu').2 hr) hok hm).2
  · intro _ ha' u' hu'
    obtain ⟨hmembers, hrevocations⟩ := hlater ha' u' hu'
    refine ⟨fun r hr => hrevocations ?_, hmembers, hrevocations⟩
    have hnew : DenialsRecorded ({} : S.State) :=
      nofun
    have hmoves : S.Moves Set.univ {} (final (S.perform call w)).state :=
      (moves_after ⟨o, {}⟩ before fun _ _ _ _ => trivial).trans
        (moves_perform call (fun _ _ => trivial) w)
    exact mem_revocationList.mpr ⟨r.id, hnew.moves hmoves r hr⟩

end Tako.Network.Server
