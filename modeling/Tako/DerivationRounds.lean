import Mathlib.Data.List.AList

/-! Entries of a map that are derived in rounds. An entry needs nothing, or one other entry; each
round moves what is ready, until a round finds nothing. -/
namespace Derivation
open List
variable {κ α : Type}
abbrev Map (κ α : Type) := AList (fun _ : κ => α)

structure Rules (κ α : Type) where
  premise : α → Option κ
  root : α → Bool
  follows : α → α → Bool

variable {a : α} {k : κ}
namespace Rules
variable (R : Rules κ α)
def ready [DecidableEq κ] (derived : Map κ α) (a : α) : Bool :=
  match R.premise a with
  | none => R.root a
  | some k => (derived.lookup k).any (R.follows a)

/-- The entries that are ready move over, all at once. -/
def saturate [DecidableEq κ] : ℕ → Map κ α → Map κ α → Map κ α
  | 0, _, derived => derived
  | fuel + 1, pending, derived =>
    let now := pending.entries.filter (fun e => R.ready derived e.2)
    if now = [] then derived
    else
      saturate fuel (now.foldl (fun pending e => pending.erase e.1) pending)
        (now.foldl (fun derived e => derived.insert e.1 e.2) derived)

/-- What can be derived from the entries that `P` allows. -/
inductive Derives (P : κ → α → Prop) : κ → α → Prop
  | root {k : κ} {a : α} (hp : P k a) (hpremise : R.premise a = none) (hroot : R.root a) :
      Derives P k a
  | step {k k' : κ} {a b : α} (hp : P k a) (hpremise : R.premise a = some k')
      (hparent : Derives P k' b) (hfollows : R.follows a b) : Derives P k a

variable {R} {P Q : κ → α → Prop}
theorem Derives.mono (hPQ : ∀ k a, P k a → Q k a) (h : R.Derives P k a) :
    R.Derives Q k a := by
  induction h with
  | root hp hpremise hroot => exact .root (hPQ _ _ hp) hpremise hroot
  | step hp hpremise _ hfollows ih => exact .step (hPQ _ _ hp) hpremise ih hfollows

theorem Derives.allowed (h : R.Derives P k a) : P k a := by
  cases h with
  | root hp | step hp => exact hp
end Rules

section
variable [DecidableEq κ] {m : Map κ α} {es : List (Sigma fun _ : κ => α)}
theorem lookup_eraseAll (es : List (Sigma fun _ : κ => α)) (m : Map κ α) (k : κ) :
    (es.foldl (fun m e => m.erase e.1) m).lookup k = if k ∈ es.keys then none else m.lookup k := by
  induction es generalizing m with
  | nil => rfl
  | cons e _ ih =>
    rw [foldl_cons, ih, keys_cons]
    by_cases hk : k = e.1
    · subst hk
      simp [AList.lookup_erase]
    · rw [AList.lookup_erase_ne hk]
      simp [hk]

theorem length_eraseAll_le (es : List (Sigma fun _ : κ => α)) (m : Map κ α) :
    (es.foldl (fun m e => m.erase e.1) m).keys.length ≤ m.keys.length := by
  induction es generalizing m with
  | nil => exact le_refl _
  | cons _ _ ih =>
    refine le_trans (ih _) ?_
    rw [AList.keys_erase]
    exact length_erase_le

theorem lookup_insertAll (hes : es.NodupKeys) :
    (es.foldl (fun m e => m.insert e.1 e.2) m).lookup k = some a ↔
      ⟨k, a⟩ ∈ es ∨ (k ∉ es.keys ∧ m.lookup k = some a) := by
  induction es generalizing m with
  | nil => simp
  | cons e es ih =>
    obtain ⟨hfresh, hrest⟩ := nodupKeys_cons.mp hes
    rw [foldl_cons, ih hrest, keys_cons, mem_cons, mem_cons, not_or]
    by_cases hk : k = e.1
    · subst hk
      have hnot : ⟨e.1, a⟩ ∉ es := fun h => hfresh (mem_keys.mpr ⟨a, h⟩)
      simp only [hnot, hfresh, false_or, not_false_eq_true, true_and, AList.lookup_insert,
        or_false, not_true, false_and]
      constructor
      · intro h
        rw [← Option.some.inj h]
      · intro h
        rw [← h]
    · have hne : (⟨k, a⟩ : Sigma fun _ : κ => α) ≠ e := fun h => hk (congrArg Sigma.fst h)
      rw [AList.lookup_insert_ne hk]
      simp only [hne, hk, false_or, not_false_eq_true, true_and]

theorem lookup_eq_some_iff_mem : m.lookup k = some a ↔ ⟨k, a⟩ ∈ m.entries := AList.mem_lookup_iff
end

namespace Rules
variable [DecidableEq κ] {R : Rules κ α} {start pending derived : Map κ α}
/-- Between two rounds: every entry is pending or derived, and what is derived
could be derived. -/
structure Splits (R : Rules κ α) (start pending derived : Map κ α) : Prop where
  split : ∀ k a, start.lookup k = some a ↔ pending.lookup k = some a ∨ derived.lookup k = some a
  sound : ∀ k a, derived.lookup k = some a → R.Derives (fun k a => start.lookup k = some a) k a

def Closed (R : Rules κ α) (start derived : Map κ α) : Prop :=
  ∀ k a, start.lookup k = some a → R.ready derived a → derived.lookup k = some a

theorem ready_of_premise (hpremise : R.premise a = some k) :
    R.ready derived a ↔ ∃ b, derived.lookup k = some b ∧ R.follows a b := by
  unfold ready
  simp only [hpremise]
  cases derived.lookup k with
  | none | some => simp

theorem derives_of_ready (h : Splits R start pending derived) (hp : start.lookup k = some a)
    (hready : R.ready derived a) :
    R.Derives (fun k a => start.lookup k = some a) k a := by
  cases hpremise : R.premise a with
  | none =>
    rw [ready, hpremise] at hready
    exact .root hp hpremise hready
  | some k' =>
    obtain ⟨b, hb, hfollows⟩ := (ready_of_premise hpremise).mp hready
    exact .step hp hpremise (h.sound k' b hb) hfollows

theorem Splits.round (h : Splits R start pending derived) {now : List (Sigma fun _ : κ => α)}
    (hnow : now = pending.entries.filter (fun e => R.ready derived e.2)) :
    Splits R start (now.foldl (fun pending e => pending.erase e.1) pending)
      (now.foldl (fun derived e => derived.insert e.1 e.2) derived) := by
  have hmem {k : κ} {a : α} : ⟨k, a⟩ ∈ now ↔ pending.lookup k = some a ∧ R.ready derived a := by
    rw [hnow, mem_filter, lookup_eq_some_iff_mem]
  have hkeys : now.NodupKeys := by
    rw [hnow]
    exact pending.nodupKeys.sublist filter_sublist
  have hmoved {k : κ} (hk : k ∈ now.keys) : ∃ a, ⟨k, a⟩ ∈ now := exists_of_mem_keys hk
  refine ⟨?_, ?_⟩
  · intro k a
    rw [lookup_eraseAll, lookup_insertAll hkeys, h.split]
    by_cases hk : k ∈ now.keys
    · -- the entry under this key is the one that moves
      obtain ⟨b, hb⟩ := hmoved hk
      have hpending := (hmem.mp hb).1
      have hstart := (h.split k b).mpr (.inl hpending)
      simp only [hk, if_true, reduceCtorEq, not_true, false_and, or_false, false_or]
      constructor
      · intro ha
        have hsame := (h.split k a).mpr ha
        rw [hstart] at hsame
        rw [← Option.some.inj hsame]
        exact hb
      · intro ha
        exact .inl (hmem.mp ha).1
    · have hnot : ⟨k, a⟩ ∉ now := fun ha => hk (mem_keys_of_mem ha)
      simp only [hk, if_false, hnot, false_or, not_false_eq_true, true_and]
  · intro k a ha
    obtain ha | ⟨_, ha⟩ := (lookup_insertAll hkeys).mp ha
    · obtain ⟨hpending, hready⟩ := hmem.mp ha
      exact derives_of_ready h ((h.split k a).mpr (.inl hpending)) hready
    · exact h.sound k a ha

/-- With a round for each key, the rounds end with all that can be derived. -/
theorem saturate_spec (fuel : ℕ) (h : Splits R start pending derived)
    (hfuel : pending.keys.length ≤ fuel) :
    (∀ k a, (R.saturate fuel pending derived).lookup k = some a →
      R.Derives (fun k a => start.lookup k = some a) k a) ∧
      Closed R start (R.saturate fuel pending derived) := by
  induction fuel generalizing pending derived with
  | zero =>
    refine ⟨h.sound, ?_⟩
    intro k a ha _
    obtain hpending | hderived := (h.split k a).mp ha
    · have hk : k ∈ pending.keys :=
        AList.mem_keys.mp (AList.lookup_isSome.mp (by rw [hpending]; rfl))
      rw [eq_nil_of_length_eq_zero (Nat.le_zero.mp hfuel)] at hk
      cases hk
    · exact hderived
  | succ fuel ih =>
    unfold saturate
    simp only
    split
    · rename_i hnone
      refine ⟨h.sound, ?_⟩
      intro k a ha hready
      obtain hpending | hderived := (h.split k a).mp ha
      · have hmem : (⟨k, a⟩ : Sigma fun _ : κ => α) ∈
            pending.entries.filter (fun e => R.ready derived e.2) :=
          mem_filter.mpr ⟨lookup_eq_some_iff_mem.mp hpending, hready⟩
        rw [hnone] at hmem
        cases hmem
      · exact hderived
    · rename_i hsome
      apply ih (h.round rfl)
      -- the first entry that moves leaves the pending ones
      cases hnow : pending.entries.filter (fun e => R.ready derived e.2) with
      | nil => exact absurd hnow hsome
      | cons e now =>
        have he : e ∈ pending.entries := by
          have hmem : e ∈ pending.entries.filter (fun e => R.ready derived e.2) := by
            rw [hnow]
            exact mem_cons_self
          exact (mem_filter.mp hmem).1
        have hkey : e.1 ∈ pending.keys := mem_keys_of_mem he
        have hle := length_eraseAll_le now (pending.erase e.1)
        rw [AList.keys_erase, length_erase_of_mem hkey] at hle
        have hpos := length_pos_of_mem hkey
        rw [foldl_cons]
        omega

/-- The rounds derive exactly what can be derived. -/
theorem lookup_saturate (fuel : ℕ) (hfuel : start.keys.length ≤ fuel) (k : κ) (a : α) :
    (R.saturate fuel start ∅).lookup k = some a ↔
      R.Derives (fun k a => start.lookup k = some a) k a := by
  have hsplits : Splits R start start ∅ := by
    refine ⟨?_, ?_⟩
    · intro k a
      simp
    · intro k a h
      simp at h
  obtain ⟨hsound, hclosed⟩ := saturate_spec fuel hsplits hfuel
  refine ⟨hsound k a, ?_⟩
  intro h
  induction h with
  | root hp hpremise hroot =>
    apply hclosed _ _ hp
    rw [ready, hpremise]
    exact hroot
  | step hp hpremise _ hfollows ih =>
    apply hclosed _ _ hp
    exact (ready_of_premise hpremise).mpr ⟨_, ih, hfollows⟩
end Rules
end Derivation
