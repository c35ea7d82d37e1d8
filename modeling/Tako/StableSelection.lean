import Mathlib.Data.List.Sort

/-! The first element of a list that passes a test, after the list has been sorted by
a score, best first, with a sort that keeps the order of equals. -/
namespace Selection
open List
variable {α β : Type} [LinearOrder β] {score : α → β} {p : α → Bool} {l : List α} {a b x : α}
/-- An element comes before one that does not score more. -/
def Better (score : α → β) (a b : α) : Prop := score b ≤ score a

instance (score : α → β) : DecidableRel (Better score) := fun a b =>
  inferInstanceAs (Decidable (score b ≤ score a))

instance (score : α → β) : Std.Total (Better score) := ⟨fun a b => le_total (score b) (score a)⟩

instance (score : α → β) : IsTrans α (Better score) := ⟨fun _ _ _ hab hbc => le_trans hbc hab⟩

/-- The best of the elements that pass, and the earliest of those. -/
def FirstBest (score : α → β) (p : α → Bool) (l : List α) (a : α) : Prop :=
  ∃ before rest, l = before ++ a :: rest ∧ p a ∧ (∀ b ∈ l, p b → score b ≤ score a) ∧
    ∀ b ∈ before, p b → score b < score a

theorem FirstBest.mem (h : FirstBest score p l a) : a ∈ l := by
  obtain ⟨before, _, rfl, _⟩ := h
  exact mem_append_right before mem_cons_self

theorem FirstBest.passes (h : FirstBest score p l a) : p a := by
  obtain ⟨_, _, _, hp, _⟩ := h
  exact hp

theorem FirstBest.best (h : FirstBest score p l a) (hb : b ∈ l) (hp : p b) : score b ≤ score a := by
  obtain ⟨_, _, _, _, hbest, _⟩ := h
  exact hbest b hb hp

theorem FirstBest.later (h : FirstBest score p l a) (hb : b ∈ l) (hp : p b) (hne : b ≠ a)
    (hscore : score a ≤ score b) : [a, b] <+ l := by
  obtain ⟨before, rest, rfl, _, _, hfirst⟩ := h
  obtain hb | hb := mem_append.mp hb
  · exact absurd hscore (not_le.mpr (hfirst b hb hp))
  · have hrest : [b] <+ rest := singleton_sublist.mpr ((mem_cons.mp hb).resolve_left hne)
    exact (hrest.cons_cons a).trans (sublist_append_right before _)

theorem firstBest_cons : FirstBest score p (x :: l) a ↔
    (a = x ∧ p x ∧ ∀ b ∈ l, p b → score b ≤ score x) ∨
      (FirstBest score p l a ∧ (p x → score x < score a)) := by
  constructor
  · rintro ⟨before, rest, heq, hp, hbest, hfirst⟩
    cases before with
    | nil =>
      obtain ⟨rfl, rfl⟩ := List.cons.inj heq
      exact .inl ⟨rfl, hp, fun b hb => hbest b (mem_cons_of_mem _ hb)⟩
    | cons y before =>
      obtain ⟨rfl, rfl⟩ := List.cons.inj heq
      have hlater : FirstBest score p (before ++ a :: rest) a :=
        ⟨before, rest, rfl, hp, fun b hb => hbest b (mem_cons_of_mem _ hb),
          fun b hb => hfirst b (mem_cons_of_mem _ hb)⟩
      exact .inr ⟨hlater, hfirst x mem_cons_self⟩
  · rintro (⟨rfl, hp, hbest⟩ | ⟨⟨before, rest, rfl, hp, hbest, hfirst⟩, hx⟩)
    · refine ⟨[], l, rfl, hp, fun b hb hpb => ?_, fun b hb => ?_⟩
      · obtain rfl | hb := mem_cons.mp hb
        · exact le_rfl
        · exact hbest b hb hpb
      · exact absurd hb not_mem_nil
    · refine ⟨x :: before, rest, rfl, hp, fun b hb hpb => ?_, fun b hb hpb => ?_⟩
      · obtain rfl | hb := mem_cons.mp hb
        · exact (hx hpb).le
        · exact hbest b hb hpb
      · obtain rfl | hb := mem_cons.mp hb
        · exact hx hpb
        · exact hfirst b hb hpb

theorem FirstBest.append (h : FirstBest score p l a) {r : List α}
    (hr : ∀ b ∈ r, p b → score b ≤ score a) : FirstBest score p (l ++ r) a := by
  obtain ⟨before, rest, rfl, hp, hbest, hfirst⟩ := h
  refine ⟨before, rest ++ r, by simp, hp, fun b hb hpb => ?_, hfirst⟩
  obtain hb | hb := mem_append.mp hb
  · exact hbest b hb hpb
  · exact hr b hb hpb

theorem FirstBest.of_append {r : List α} (h : FirstBest score p (l ++ r) a) :
    FirstBest score p l a ∨ FirstBest score p r a := by
  induction l with
  | nil => exact .inr h
  | cons x l ih =>
    obtain ⟨rfl, hp, hall⟩ | ⟨hlater, hx⟩ := firstBest_cons.mp h
    · have hl (b : α) (hb : b ∈ l) := hall b (mem_append_left r hb)
      exact .inl (firstBest_cons.mpr (.inl ⟨rfl, hp, hl⟩))
    · obtain hl | hr := ih hlater
      · exact .inl (firstBest_cons.mpr (.inr ⟨hl, hx⟩))
      · exact .inr hr

theorem FirstBest.of_flatMap {γ : Type} {keys : List γ} {f : γ → List α}
    (h : FirstBest score p (keys.flatMap f) a) : ∃ k ∈ keys, FirstBest score p (f k) a := by
  induction keys with
  | nil => exact absurd h.mem not_mem_nil
  | cons k _ ih =>
    rw [flatMap_cons] at h
    obtain hk | hkeys := h.of_append
    · exact ⟨k, mem_cons_self, hk⟩
    · obtain ⟨k', hk', hbest⟩ := ih hkeys
      exact ⟨k', mem_cons_of_mem k hk', hbest⟩

theorem firstBest_map {γ : Type} {f : γ → α} {keys : List γ} : FirstBest score p (keys.map f) a ↔
      ∃ k, f k = a ∧ FirstBest (fun k => score (f k)) (fun k => p (f k)) keys k := by
  induction keys with
  | nil => simp [FirstBest]
  | cons k _ ih =>
    simp only [map_cons, firstBest_cons, ih, forall_mem_map]
    constructor
    · rintro (⟨rfl, hk, hall⟩ | ⟨⟨k', rfl, hbest⟩, hk⟩)
      · exact ⟨k, rfl, .inl ⟨rfl, hk, hall⟩⟩
      · exact ⟨k', rfl, .inr ⟨hbest, hk⟩⟩
    · rintro ⟨k', rfl, ⟨rfl, hk, hall⟩ | ⟨hbest, hk⟩⟩
      · exact .inl ⟨rfl, hk, hall⟩
      · exact .inr ⟨⟨k', rfl, hbest⟩, hk⟩

theorem firstBest_congr {q : α → Bool} (h : ∀ b ∈ l, p b = q b) :
    FirstBest score p l a ↔ FirstBest score q l a := by
  induction l with
  | nil => simp [FirstBest]
  | cons x l ih =>
    have htail (b : α) (hb : b ∈ l) := h b (mem_cons_of_mem x hb)
    have hall : (∀ b ∈ l, p b → score b ≤ score x) ↔ ∀ b ∈ l, q b → score b ≤ score x :=
      forall₂_congr fun b hb => by rw [htail b hb]
    rw [firstBest_cons, firstBest_cons, ih htail, h x mem_cons_self, hall]

theorem firstBest_filter {q : α → Bool} (h : ∀ b, p b → q b) :
    FirstBest score p (l.filter q) a ↔ FirstBest score p l a := by
  induction l with
  | nil => simp
  | cons x l ih =>
    by_cases hq : q x
    · have hall : (∀ b ∈ l.filter q, p b → score b ≤ score x) ↔
          ∀ b ∈ l, p b → score b ≤ score x := by
        constructor
        · intro hb b hmem hp
          exact hb b (mem_filter.mpr ⟨hmem, h b hp⟩) hp
        · intro hb b hmem hp
          exact hb b (mem_of_mem_filter hmem) hp
      rw [filter_cons_of_pos hq, firstBest_cons, firstBest_cons, ih, hall]
    · have hp : ¬p x := fun hp => hq (h x hp)
      rw [filter_cons_of_neg hq, firstBest_cons, ih]
      simp [hp]

/-- The inserted element is found, unless one found before is better. -/
theorem find?_orderedInsert (hl : l.Pairwise (Better score)) :
    (l.orderedInsert (Better score) x).find? p = some a ↔
      (a = x ∧ p x ∧ ∀ b ∈ l, p b → score b ≤ score x) ∨
        (l.find? p = some a ∧ (p x → score x < score a)) := by
  induction l with
  | nil =>
    by_cases hx : p x
    · simp only [orderedInsert_nil, find?_cons_of_pos hx, find?_nil,
        Option.some.injEq, reduceCtorEq, false_and, or_false, hx, true_and]
      exact ⟨fun h => ⟨h.symm, nofun⟩, fun h => h.1.symm⟩
    · simp [hx]
  | cons y l ih =>
    have hbelow (b : α) (hb : b ∈ y :: l) : score b ≤ score y := by
      obtain rfl | hb := mem_cons.mp hb
      · exact le_rfl
      · exact (pairwise_cons.mp hl).1 b hb
    by_cases hxy : Better score x y
    · rw [orderedInsert_cons_of_le _ _ hxy]
      by_cases hx : p x
      · -- everything behind the inserted element scores no more
        have hnot : ¬((y :: l).find? p = some a ∧ (p x → score x < score a)) := by
          rintro ⟨hfind, hlt⟩
          have hle := (hbelow a (mem_of_find?_eq_some hfind)).trans hxy
          exact absurd (hlt hx) (not_lt.mpr hle)
        have hall (b : α) (hb : b ∈ y :: l) (_ : p b) : score b ≤ score x := (hbelow b hb).trans hxy
        rw [find?_cons_of_pos hx, or_iff_left hnot]
        exact ⟨fun h => ⟨(Option.some.inj h).symm, hx, hall⟩, fun h => by rw [h.1]⟩
      · rw [find?_cons_of_neg hx]
        simp [hx]
    · rw [List.orderedInsert, if_neg hxy]
      have hlt : score x < score y := not_le.mp hxy
      by_cases hy : p y
      · rw [find?_cons_of_pos hy, find?_cons_of_pos hy]
        constructor
        · intro h
          cases h
          exact .inr ⟨rfl, fun _ => hlt⟩
        · rintro (⟨_, _, hall⟩ | ⟨h, _⟩)
          · exact absurd (hall y mem_cons_self hy) (not_le.mpr hlt)
          · exact h
      · rw [find?_cons_of_neg hy, find?_cons_of_neg hy, ih (pairwise_cons.mp hl).2]
        simp [hy]

/-- The first that passes in the sorted list is the earliest of the best ones. -/
theorem find?_insertionSort :
    (l.insertionSort (Better score)).find? p = some a ↔ FirstBest score p l a := by
  induction l generalizing a with
  | nil => simp [FirstBest]
  | cons x l ih =>
    have hsorted := pairwise_insertionSort (Better score) l
    rw [insertionSort_cons, find?_orderedInsert hsorted, firstBest_cons, ih]
    simp only [mem_insertionSort]

theorem find?_insertionSort_isSome :
    ((l.insertionSort (Better score)).find? p).isSome ↔ ∃ b ∈ l, p b := by
  rw [find?_isSome]
  simp only [mem_insertionSort]

end Selection
