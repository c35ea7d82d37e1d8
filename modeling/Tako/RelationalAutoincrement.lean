import Mathlib.Data.List.Sort

/-! Tables with an `INTEGER PRIMARY KEY AUTOINCREMENT`. An id is never given
twice, also not after its row was deleted, so the rows stand in id order. -/
namespace Relational
open List
variable {ρ : Type}
def maxRowid : ℤ := 9223372036854775807

/-- `last` is the largest id given so far, as `sqlite_sequence` keeps it. -/
structure AutoTable (id : ρ → ℤ) where
  rows : List ρ
  last : ℤ
  increasing : rows.Pairwise (fun a b => id a < id b)
  id_pos : ∀ r ∈ rows, 0 < id r
  le_last : ∀ r ∈ rows, id r ≤ last
  last_nonneg : 0 ≤ last
  last_le : last ≤ maxRowid

namespace AutoTable
variable {id : ρ → ℤ}
def empty : AutoTable id where
  rows := []
  last := 0
  increasing := List.Pairwise.nil
  id_pos := by simp
  le_last := by simp
  last_nonneg := le_refl 0
  last_le := by decide

variable (t : AutoTable id)
/-- `INSERT`, which fails once the ids are used up. -/
def insert (mk : ℤ → ρ) (hmk : ∀ i, id (mk i) = i) : Option (AutoTable id) :=
  if h : t.last < maxRowid then
    some
      { rows := t.rows ++ [mk (t.last + 1)]
        last := t.last + 1
        increasing := by
          apply pairwise_append.mpr
          refine ⟨t.increasing, pairwise_singleton _ _, ?_⟩
          intro a ha b hb
          have hle := t.le_last a ha
          rw [mem_singleton.mp hb, hmk]
          omega
        id_pos := by
          intro r hr
          have h0 := t.last_nonneg
          obtain hr | hr := mem_append.mp hr
          · exact t.id_pos r hr
          · rw [mem_singleton.mp hr, hmk]
            omega
        le_last := by
          intro r hr
          obtain hr | hr := mem_append.mp hr
          · have hle := t.le_last r hr
            omega
          · rw [mem_singleton.mp hr, hmk]
        last_nonneg := by
          have h0 := t.last_nonneg
          omega
        last_le := h }
  else none

variable (p : ρ → Prop)
/-- `DELETE .. WHERE p`; the ids given so far stay given. -/
def deleteWhere [DecidablePred p] : AutoTable id where
  rows := t.rows.filter (fun r => ¬p r)
  last := t.last
  increasing := t.increasing.sublist filter_sublist
  id_pos := fun r hr => t.id_pos r (mem_of_mem_filter hr)
  le_last := fun r hr => t.le_last r (mem_of_mem_filter hr)
  last_nonneg := t.last_nonneg
  last_le := t.last_le

/-- An id is taken by a transaction that leaves no row here. -/
def nextval : AutoTable id :=
  if h : t.last < maxRowid then
    { t with
      last := t.last + 1
      le_last := fun r hr => (t.le_last r hr).trans (by omega)
      last_nonneg := t.last_nonneg.trans (by omega)
      last_le := h }
  else t

/-- `SELECT .. WHERE p ORDER BY id`. -/
def select [DecidablePred p] : List ρ :=
  t.rows.filter (fun r => p r)

/-- `SELECT COALESCE(MAX(id), 0) .. WHERE p`. -/
def maxId [DecidablePred p] : ℤ :=
  ((t.select p).map id).max?.getD 0

theorem insert_eq_some {t t' : AutoTable id} {mk : ℤ → ρ} {hmk : ∀ i, id (mk i) = i}
    (h : t.insert mk hmk = some t') :
    t'.rows = t.rows ++ [mk (t.last + 1)] ∧ t'.last = t.last + 1 := by
  unfold insert at h
  split at h
  · cases h
    exact ⟨rfl, rfl⟩
  · cases h

theorem rows_nextval : t.nextval.rows = t.rows := by
  unfold nextval
  split <;> rfl

theorem last_le_nextval : t.last ≤ t.nextval.last := by
  unfold nextval
  split
  · show t.last ≤ t.last + 1
    omega
  · exact le_refl _

theorem mem_select {p : ρ → Prop} [DecidablePred p] {r : ρ} :
    r ∈ t.select p ↔ r ∈ t.rows ∧ p r := by
  simp [select]

theorem mem_deleteWhere {p : ρ → Prop} [DecidablePred p] {r : ρ} :
    r ∈ (t.deleteWhere p).rows ↔ r ∈ t.rows ∧ ¬p r := by
  simp [deleteWhere]

theorem id_injOn {a b : ρ} (ha : a ∈ t.rows) (hb : b ∈ t.rows) (h : id a = id b) : a = b := by
  have hnodup : (t.rows.map id).Nodup := pairwise_map.mpr (t.increasing.imp fun hlt => ne_of_lt hlt)
  exact inj_on_of_nodup_map hnodup ha hb h

theorem maxId_cases [DecidablePred p] : t.maxId p = 0 ∨ ∃ r ∈ t.rows, p r ∧ id r = t.maxId p := by
  unfold maxId
  cases hmax : ((t.select p).map id).max? with
  | none => exact .inl rfl
  | some =>
    obtain ⟨r, hr, hm⟩ := mem_map.mp (max?_mem hmax)
    exact .inr ⟨r, (t.mem_select.mp hr).1, (t.mem_select.mp hr).2, hm⟩

theorem maxId_le [DecidablePred p] : t.maxId p ≤ t.last := by
  obtain hzero | ⟨r, hr, _, hid⟩ := t.maxId_cases p
  · rw [hzero]
    exact t.last_nonneg
  · rw [← hid]
    exact t.le_last r hr

theorem le_maxId {p : ρ → Prop} [DecidablePred p] {r : ρ} (hr : r ∈ t.rows) (hp : p r) :
    id r ≤ t.maxId p := by
  have hmem : id r ∈ (t.select p).map id := mem_map_of_mem (t.mem_select.mpr ⟨hr, hp⟩)
  unfold maxId
  cases hmax : ((t.select p).map id).max? with
  | none =>
    rw [max?_eq_none_iff.mp hmax] at hmem
    cases hmem
  | some => exact (max?_eq_some_iff.mp hmax).2 _ hmem

theorem exists_oldest [DecidablePred p] (n : ℕ) (hsome : (t.select p).take n ≠ []) :
    ∃ a, (∀ r ∈ t.rows, id r ∈ ((t.select p).take n).map id ↔ p r ∧ id r ≤ a) ∧
      (n < (t.select p).length →
        ∀ r ∈ t.rows, p r → (∀ r' ∈ t.rows, p r' → id r' ≤ id r) → a < id r) := by
  have hsorted : ((t.select p).take n ++ (t.select p).drop n).Pairwise
      (fun a b => id a < id b) := by
    rw [take_append_drop]
    exact t.increasing.sublist filter_sublist
  obtain ⟨hfirst, _, hacross⟩ := pairwise_append.mp hsorted
  have hmem {r : ρ} (hr : r ∈ t.rows) (hp : p r) :
      r ∈ (t.select p).take n ∨ r ∈ (t.select p).drop n := by
    apply mem_append.mp
    rw [take_append_drop]
    exact t.mem_select.mpr ⟨hr, hp⟩
  -- the bound is the id of the last of them
  set last := ((t.select p).take n).getLast hsome with hlast
  have hlast_mem : last ∈ (t.select p).take n := getLast_mem hsome
  have hle {r : ρ} (hr : r ∈ (t.select p).take n) : id r ≤ id last := by
    rw [← dropLast_concat_getLast hsome] at hr hfirst
    obtain hr | hr := mem_append.mp hr
    · have hlt := (pairwise_append.mp hfirst).2.2 r hr last (mem_singleton_self _)
      omega
    · rw [mem_singleton.mp hr]
  refine ⟨id last, ?_, ?_⟩
  · intro r hr
    constructor
    · intro hid
      obtain ⟨r', hr', heq⟩ := mem_map.mp hid
      have hsel := t.mem_select.mp (mem_of_mem_take hr')
      obtain rfl := t.id_injOn hsel.1 hr heq
      exact ⟨hsel.2, hle hr'⟩
    · intro h
      obtain hr | hr := hmem hr h.1
      · exact mem_map_of_mem hr
      · have hlt := hacross last hlast_mem r hr
        omega
  · intro _ _ _ _ hnewest
    -- some row is left over, and it is newer than the last one taken
    obtain ⟨r', hr'⟩ : ∃ r', r' ∈ (t.select p).drop n := by
      apply exists_mem_of_ne_nil
      intro hnil
      have hlength := congrArg List.length hnil
      rw [length_drop, length_nil] at hlength
      omega
    have hsel := t.mem_select.mp (mem_of_mem_drop hr')
    have hlt := hacross last hlast_mem r' hr'
    have hle' := hnewest r' hsel.1 hsel.2
    omega
end AutoTable
end Relational
