import Mathlib.Data.List.Forall2
import Mathlib.Order.Lattice

/-! An append-only log that several streams share, and a store that keeps only part of it, with a
floor for each stream below which it promises nothing. -/
namespace StreamLog
open List
variable {ε ρ σ : Type}
structure Coordinates (ε σ : Type) where
  position : ε → ℤ
  stream : ε → σ

variable {e : ε}
namespace Coordinates
variable (C : Coordinates ε σ) (log : List ε)
def Ordered : Prop := log.Pairwise (fun a b => C.position a < C.position b)

variable [DecidableEq σ]
/-- The entries of one stream after a position, in the order of the log. -/
def since (log : List ε) (s : σ) (p : ℤ) : List ε :=
  log.filter (fun e => C.stream e = s ∧ p < C.position e)

variable {C} {p : ℤ} {s : σ}
theorem mem_since {log : List ε} :
    e ∈ C.since log s p ↔ e ∈ log ∧ C.stream e = s ∧ p < C.position e := by
  simp [since]

theorem since_append (log' : List ε) (s : σ) (p : ℤ) :
    C.since (log ++ log') s p = C.since log s p ++ C.since log' s p := by
  simp [since]

theorem since_eq_nil {log : List ε} (h : ∀ e ∈ log, C.stream e = s → C.position e ≤ p) :
    C.since log s p = [] := by
  apply filter_eq_nil_iff.mpr
  intro e he
  simp only [decide_eq_true_eq, not_and, not_lt]
  exact h e he

theorem since_eq_stream {log : List ε} (h : ∀ e ∈ log, p < C.position e) :
    C.since log s p = log.filter (fun e => C.stream e = s) := by
  apply filter_congr
  intro e he
  simp [h e he]

theorem since_head {log : List ε} (hlog : C.Ordered log) {rest : List ε}
    (h : C.since log s p = e :: rest) : C.since log s (C.position e) = rest := by
  have he : e ∈ C.since log s p := by
    rw [h]
    exact mem_cons_self
  obtain ⟨_, _, hp⟩ := mem_since.mp he
  have hnarrow : C.since log s (C.position e) =
      (C.since log s p).filter (fun b => C.position e < C.position b) := by
    unfold since
    rw [filter_filter]
    apply filter_congr
    intro b _
    rw [← Bool.decide_and]
    apply decide_eq_decide.mpr
    constructor
    · rintro ⟨hb, hlt⟩
      exact ⟨hlt, hb, hp.trans hlt⟩
    · rintro ⟨hlt, hb, _⟩
      exact ⟨hb, hlt⟩
  have hordered : (e :: rest).Pairwise (fun a b => C.position a < C.position b) := by
    rw [← h]
    exact hlog.sublist filter_sublist
  rw [hnarrow, h, filter_cons_of_neg (by simp), filter_eq_self]
  intro b hb
  exact decide_eq_true (rel_of_pairwise_cons hordered hb)

theorem since_map {ε' : Type} {C' : Coordinates ε' σ} {f : ε → ε'}
    (hposition : ∀ e, C'.position (f e) = C.position e)
    (hstream : ∀ e, C'.stream (f e) = C.stream e)
    (log : List ε) (s : σ) (p : ℤ) : C'.since (log.map f) s p = (C.since log s p).map f := by
  unfold since
  rw [filter_map]
  congr 1
  apply filter_congr
  intro e _
  simp only [Function.comp_apply, hposition, hstream]
end Coordinates

structure Heads (C : Coordinates ε σ) (log : List ε) (last : ℤ) (heads : σ → ℤ) : Prop where
  ordered : C.Ordered log
  le_last : ∀ e ∈ log, C.position e ≤ last
  head : ∀ e ∈ log, C.position e ≤ heads (C.stream e)
  head_le : ∀ s, heads s ≤ last

theorem Heads.concat [DecidableEq σ] {C : Coordinates ε σ} {log : List ε} {last last' : ℤ}
    {head head' : σ → ℤ} (h : Heads C log last head) (he : C.position e = last + 1)
    (hlast : last' = last + 1)
    (hhead : ∀ s, head' s = if s = C.stream e then last + 1 else head s) :
    Heads C (log ++ [e]) last' head' := by
  have hentry (a : ε) (ha : a ∈ log ++ [e]) : a ∈ log ∨ a = e := by simpa using ha
  refine ⟨?_, ?_, ?_, ?_⟩
  · apply pairwise_append.mpr
    refine ⟨h.ordered, pairwise_singleton _ _, fun a ha b hb => ?_⟩
    have hle := h.le_last a ha
    rw [mem_singleton.mp hb, he]
    omega
  · intro a ha
    obtain ha | rfl := hentry a ha
    · have hle := h.le_last a ha
      omega
    · exact (he.trans hlast.symm).le
  · intro a ha
    rw [hhead]
    obtain ha | rfl := hentry a ha
    · have hle := h.le_last a ha
      split
      · omega
      · exact h.head a ha
    · rw [if_pos rfl, he]
  · intro s
    have hle := h.head_le s
    rw [hhead]
    split <;> omega

/-- What a store still has of a log: its rows are entries, and an entry without
a row is not above the floor of its stream. -/
structure Retains (C : Coordinates ε σ) (Stores : ρ → ε → Prop) (rows : List ρ) (log : List ε)
    (floor : σ → ℤ) : Prop where
  row : ∀ r ∈ rows, ∃ e ∈ log, Stores r e
  entry : ∀ e ∈ log, (∃ r ∈ rows, Stores r e) ∨ C.position e ≤ floor (C.stream e)

theorem forall₂_of_increasing {R : ρ → ε → Prop} {f : ρ → ℤ} {g : ε → ℤ}
    (hkey : ∀ a b, R a b → f a = g b) :
    ∀ {l : List ρ} {m : List ε}, l.Pairwise (fun a b => f a < f b) →
      m.Pairwise (fun a b => g a < g b) → (∀ a ∈ l, ∃ b ∈ m, R a b) →
      (∀ b ∈ m, ∃ a ∈ l, R a b) → List.Forall₂ R l m := by
  intro l
  induction l with
  | nil =>
    intro m _ _ _ hm
    cases m with
    | nil => exact List.Forall₂.nil
    | cons b =>
      obtain ⟨a, ha, _⟩ := hm b mem_cons_self
      cases ha
  | cons a l ih =>
    intro m hl hm hlm hml
    cases m with
    | nil =>
      obtain ⟨b, hb, _⟩ := hlm a mem_cons_self
      cases hb
    | cons b =>
      have ⟨hal, hl'⟩ := pairwise_cons.mp hl
      have ⟨hbm, hm'⟩ := pairwise_cons.mp hm
      -- each head is the least of its list, so the two heads belong together
      have hhead : R a b := by
        obtain ⟨b', hb', hR⟩ := hlm a mem_cons_self
        obtain rfl | hb' := mem_cons.mp hb'
        · exact hR
        · obtain ⟨a', ha', hR'⟩ := hml b mem_cons_self
          obtain rfl | ha' := mem_cons.mp ha'
          · exact hR'
          · have h1 := hal a' ha'
            have h2 := hbm b' hb'
            rw [hkey a b' hR] at h1
            rw [hkey a' b hR'] at h1
            exact absurd h1 (not_lt.mpr h2.le)
      refine List.Forall₂.cons hhead (ih hl' hm' ?_ ?_)
      · intro a' ha'
        obtain ⟨b', hb', hR⟩ := hlm a' (mem_cons_of_mem _ ha')
        obtain rfl | hb' := mem_cons.mp hb'
        · have h1 := hal a' ha'
          rw [hkey a b' hhead, hkey a' b' hR] at h1
          exact absurd h1 (lt_irrefl _)
        · exact ⟨b', hb', hR⟩
      · intro b' hb'
        obtain ⟨a', ha', hR⟩ := hml b' (mem_cons_of_mem _ hb')
        obtain rfl | ha' := mem_cons.mp ha'
        · have h1 := hbm b' hb'
          rw [← hkey a' b hhead, ← hkey a' b' hR] at h1
          exact absurd h1 (lt_irrefl _)
        · exact ⟨a', ha', hR⟩

namespace Retains
variable {C : Coordinates ε σ} {Stores Stores' : ρ → ε → Prop} {rows rows' : List ρ}
  {log : List ε} {floor floor' : σ → ℤ}

theorem retire (h : Retains C Stores rows log floor) (hrows : ∀ r ∈ rows', r ∈ rows)
    (hstores : ∀ r ∈ rows', ∀ e, Stores r e → Stores' r e) (hfloor : ∀ s, floor s ≤ floor' s)
    (hgone : ∀ r ∈ rows, ∀ e, Stores r e → r ∈ rows' ∨ C.position e ≤ floor' (C.stream e)) :
    Retains C Stores' rows' log floor' where
  row r hr := by
    obtain ⟨e, he, hs⟩ := h.row r (hrows r hr)
    exact ⟨e, he, hstores r hr e hs⟩
  entry e he := by
    obtain ⟨r, hr, hs⟩ | hle := h.entry e he
    · obtain hr' | hle := hgone r hr e hs
      · exact .inl ⟨r, hr', hstores r hr' e hs⟩
      · exact .inr hle
    · exact .inr (hle.trans (hfloor _))

theorem concat (h : Retains C Stores rows log floor) {r : ρ}
    (hstores : ∀ r ∈ rows, ∀ e, Stores r e → Stores' r e) (hnew : Stores' r e)
    (hfloor : ∀ s, floor' s = floor s) : Retains C Stores' (rows ++ [r]) (log ++ [e]) floor' where
  row r' hr := by
    obtain hr | hr := mem_append.mp hr
    · obtain ⟨e', he, hs⟩ := h.row r' hr
      exact ⟨e', mem_append_left _ he, hstores r' hr e' hs⟩
    · rw [mem_singleton.mp hr]
      exact ⟨e, mem_concat_self, hnew⟩
  entry e' he := by
    obtain he | he := mem_append.mp he
    · obtain ⟨r', hr, hs⟩ | hle := h.entry e' he
      · exact .inl ⟨r', mem_append_left _ hr, hstores r' hr e' hs⟩
      · rw [hfloor]
        exact .inr hle
    · rw [mem_singleton.mp he]
      exact .inl ⟨r, mem_concat_self, hnew⟩

theorem select [DecidableEq σ] (h : Retains C Stores rows log floor) {id : ρ → ℤ} {stream : ρ → σ}
    (hid : ∀ r e, Stores r e → id r = C.position e)
    (hstream : ∀ r e, Stores r e → stream r = C.stream e)
    (hrows : rows.Pairwise (fun a b => id a < id b)) (hlog : C.Ordered log) {s : σ} {p : ℤ}
    (hp : floor s ≤ p) :
    List.Forall₂ Stores (rows.filter (fun r => stream r = s ∧ p < id r)) (C.since log s p) := by
  apply forall₂_of_increasing hid (hrows.sublist filter_sublist)
    (hlog.sublist filter_sublist)
  · intro r hr
    simp only [mem_filter, decide_eq_true_eq] at hr
    obtain ⟨hr, hs, hlt⟩ := hr
    obtain ⟨e, he, hst⟩ := h.row r hr
    refine ⟨e, Coordinates.mem_since.mpr ⟨he, ?_, ?_⟩, hst⟩
    · rw [← hstream r e hst, hs]
    · rw [← hid r e hst]
      exact hlt
  · intro e he
    obtain ⟨he, hs, hlt⟩ := Coordinates.mem_since.mp he
    obtain ⟨r, hr, hst⟩ | hle := h.entry e he
    · refine ⟨r, ?_, hst⟩
      simp only [mem_filter, decide_eq_true_eq]
      exact ⟨hr, by rw [hstream r e hst, hs], by rw [hid r e hst]; exact hlt⟩
    · -- an entry that lost its row is not above the floor
      rw [hs] at hle
      exact absurd hlt (not_lt.mpr (hle.trans hp))
end Retains
end StreamLog
