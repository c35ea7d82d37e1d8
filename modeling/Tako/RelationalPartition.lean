import Tako.RelationalTable

/-! One table shared by several parties. Every row carries the tag of its party,
the key holds within a party, and each party only sees its own part. -/
namespace Relational
open List
variable {τ ρ κ : Type} {key : ρ → κ}
structure Tagged (τ ρ : Type) where
  tag : τ
  row : ρ
deriving DecidableEq, Repr

namespace Tagged
def tagKey (key : ρ → κ) (r : Tagged τ ρ) : τ × κ := (r.tag, key r.row)

def mapRow (f : ρ → ρ) (r : Tagged τ ρ) : Tagged τ ρ := { r with row := f r.row }

theorem tagKey_mapRow {f : ρ → ρ} (hf : ∀ r, key (f r) = key r) (r : Tagged τ ρ) :
    (r.mapRow f).tagKey key = r.tagKey key := by
  simp only [Tagged.tagKey, mapRow, hf]
end Tagged

namespace Table
variable [DecidableEq τ]
def part (t : Table (Tagged.tagKey (τ := τ) key)) (a : τ) : Table key where
  rows := (t.rows.filter (fun r => r.tag = a)).map Tagged.row
  nodup_keys := by
    rw [map_map]
    apply List.Nodup.map_on
    · intro r hr s hs h
      simp only [mem_filter, decide_eq_true_eq] at hr hs
      apply t.key_injOn hr.1 hs.1
      rw [Tagged.tagKey, Tagged.tagKey, hr.2, hs.2]
      exact congrArg (Prod.mk a) h
    · exact t.nodup_rows.filter _

theorem mem_part (t : Table (Tagged.tagKey (τ := τ) key)) {a : τ} {r : ρ} :
    r ∈ (t.part a).rows ↔ (⟨a, r⟩ : Tagged τ ρ) ∈ t.rows := by
  simp only [part, mem_map, mem_filter, decide_eq_true_eq]
  constructor
  · rintro ⟨s, ⟨hs, rfl⟩, rfl⟩
    exact hs
  · intro hr
    exact ⟨⟨a, r⟩, ⟨hr, rfl⟩, rfl⟩

theorem count_part (t : Table (Tagged.tagKey (τ := τ) key)) (a : τ) (p : ρ → Prop)
    [DecidablePred p] : t.count (fun r => r.tag = a ∧ p r.row) = (t.part a).count p := by
  rw [count, count, part, filter_map, length_map, filter_filter]
  congr 1
  apply filter_congr
  intro r _
  simp [and_comm]

/-- `SELECT .. WHERE tag = a AND p`. -/
def selectPart (t : Table (Tagged.tagKey (τ := τ) key)) (a : τ) (p : ρ → Prop) [DecidablePred p] :
    List ρ :=
  (t.rows.filter (fun r => r.tag = a ∧ p r.row)).map Tagged.row

section
variable (t : Table (Tagged.tagKey (τ := τ) key))
include t
theorem selectPart_eq (a : τ) (p : ρ → Prop) [DecidablePred p] :
    t.selectPart a p = (t.part a).rows.filter (fun r => p r) := by
  rw [selectPart, part, filter_map, filter_filter]
  congr 1
  apply filter_congr
  intro r _
  simp [and_comm]

theorem part_updateWhere (a b : τ) (p : ρ → Prop) [DecidablePred p] (f : ρ → ρ)
    (hf : ∀ r, key (f r) = key r) : (t.updateWhere (fun r => r.tag = a ∧ p r.row) (Tagged.mapRow f)
      (Tagged.tagKey_mapRow hf)).part b = (t.part b).updateWhere (fun r => b = a ∧ p r) f hf := by
  apply ext_rows
  simp only [part, updateWhere, filter_map, map_map]
  have hfilter : (fun r : Tagged τ ρ => decide (r.tag = b)) ∘
      (fun r => if r.tag = a ∧ p r.row then r.mapRow f else r) = fun r => decide (r.tag = b) := by
    funext r
    by_cases h : r.tag = a ∧ p r.row <;> simp [h, Tagged.mapRow]
  rw [hfilter]
  apply map_congr_left
  intro r hr
  have ht : r.tag = b := by simpa using (mem_filter.mp hr).2
  by_cases hp : b = a ∧ p r.row <;> simp [ht, hp, Tagged.mapRow]

theorem part_deleteWhere (a b : τ) (p : ρ → Prop) [DecidablePred p] :
    (t.deleteWhere (fun r => r.tag = a ∧ p r.row)).part b =
      (t.part b).deleteWhere (fun r => b = a ∧ p r) := by
  apply ext_rows
  simp only [part, deleteWhere, filter_map, filter_filter]
  congr 1
  apply filter_congr
  intro r _
  by_cases ht : r.tag = b <;> simp [ht]
end

/-- `t'` has `u` as the part of `a` and otherwise the parts of `t`. -/
structure PartSet (t : Table (Tagged.tagKey (τ := τ) key)) (a : τ) (u : Table key)
    (t' : Table (Tagged.tagKey (τ := τ) key)) : Prop where
  own : t'.part a = u
  others : ∀ b, b ≠ a → t'.part b = t.part b

variable {t t' : Table (Tagged.tagKey (τ := τ) key)} {a : τ} {u : Table key}
namespace PartSet
theorem refl : t.PartSet a (t.part a) t := ⟨rfl, fun _ _ => rfl⟩

variable (h : t.PartSet a u t')
include h
theorem deleteWhere (p : ρ → Prop) [DecidablePred p] :
    t.PartSet a (u.deleteWhere p) (t'.deleteWhere (fun r => r.tag = a ∧ p r.row)) := by
  constructor
  · rw [part_deleteWhere, h.own]
    exact deleteWhere_congr _ (by simp)
  · intro b hb
    rw [part_deleteWhere, h.others b hb]
    exact deleteWhere_eq_self _ _ (by simp [hb])

theorem updateWhere (p : ρ → Prop) [DecidablePred p] (f : ρ → ρ) (hf : ∀ r, key (f r) = key r) :
    t.PartSet a (u.updateWhere p f hf) (t'.updateWhere (fun r => r.tag = a ∧ p r.row)
      (Tagged.mapRow f) (Tagged.tagKey_mapRow hf)) := by
  constructor
  · rw [part_updateWhere, h.own]
    exact updateWhere_congr _ f hf (by simp)
  · intro b hb
    rw [part_updateWhere t' a b p f hf, h.others b hb]
    apply ext_rows
    simp [Table.updateWhere, hb]

theorem foldl {α : Type} {f : Table (Tagged.tagKey (τ := τ) key) → α → Table (Tagged.tagKey key)}
    {g : Table key → α → Table key}
    (hstep : ∀ x u t', t.PartSet a u t' → t.PartSet a (g u x) (f t' x)) (xs : List α) :
    t.PartSet a (xs.foldl g u) (xs.foldl f t') := by
  induction xs generalizing u t' with
  | nil => exact h
  | cons x _ ih => exact ih (hstep x u t' h)
end PartSet

variable [DecidableEq κ]
theorem get?_part (t : Table (Tagged.tagKey (τ := τ) key)) (a : τ) (k : κ) :
    (t.part a).get? k = (t.get? (a, k)).map Tagged.row := by
  apply get?_eq_of_mem_iff
  intro r
  rw [mem_part, Option.map_eq_some_iff]
  constructor
  · rintro ⟨hr, rfl⟩
    exact ⟨⟨a, r⟩, t.get?_eq_some.mpr ⟨hr, rfl⟩, rfl⟩
  · rintro ⟨s, hs, rfl⟩
    obtain ⟨hm, hk⟩ := t.get?_eq_some.mp hs
    have ha : s.tag = a := congrArg Prod.fst hk
    refine ⟨?_, congrArg Prod.snd hk⟩
    rw [← ha]
    exact hm

namespace PartSet
variable (h : t.PartSet a u t')
include h
theorem get?_eq_none (r : ρ) :
    t'.get? (Tagged.tagKey key ⟨a, r⟩) = none ↔ u.get? (key r) = none := by
  rw [← h.own, get?_part, Option.map_eq_none_iff, Tagged.tagKey]

theorem insertIgnore (r : ρ) : t.PartSet a (u.insertIgnore r) (t'.insertIgnore ⟨a, r⟩) := by
  have hkey := h.get?_eq_none r
  by_cases hn : u.get? (key r) = none
  · simp only [Table.insertIgnore, hkey.mpr hn, hn, ↓reduceDIte]
    constructor
    · apply ext_rows
      simp [← h.own, part]
    · intro b hb
      rw [← h.others b hb]
      apply ext_rows
      simp [part, hb.symm]
  · simpa only [Table.insertIgnore, hkey, hn, ↓reduceDIte] using h

theorem upsert (r : ρ) (f : ρ → ρ) (hf : ∀ r, key (f r) = key r) : t.PartSet a (u.upsert r f hf)
      (t'.upsert ⟨a, r⟩ (Tagged.mapRow f) (Tagged.tagKey_mapRow hf)) := by
  simp only [Table.upsert, h.get?_eq_none]
  split_ifs
  · exact h.insertIgnore r
  · simp only [Tagged.tagKey, Prod.mk.injEq]
    exact h.updateWhere _ f hf
end PartSet
end Table
end Relational
