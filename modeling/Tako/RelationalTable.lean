import Mathlib.Data.Set.Card

/-! Tables with a primary key, as lists of rows that repeat no key. -/
namespace Relational
open List
variable {ρ κ : Type} {key : ρ → κ}
/-- A table whose rows are told apart by their primary key. -/
structure Table (key : ρ → κ) where
  rows : List ρ
  nodup_keys : (rows.map key).Nodup

namespace Table
def empty : Table key := ⟨[], by simp⟩

variable (t : Table key) (p : ρ → Prop)
/-- `UPDATE .. SET f WHERE p`; the assignment leaves the key alone. -/
def updateWhere [DecidablePred p] (f : ρ → ρ) (hf : ∀ r, key (f r) = key r) : Table key where
  rows := t.rows.map (fun r => if p r then f r else r)
  nodup_keys := by
    have hk : (key ∘ fun r => if p r then f r else r) = key := by
      funext r
      by_cases h : p r <;> simp [h, hf]
    rw [map_map, hk]
    exact t.nodup_keys

def deleteWhere [DecidablePred p] : Table key where
  rows := t.rows.filter (fun r => ¬p r)
  nodup_keys := (filter_sublist.map key).nodup t.nodup_keys

/-- `SELECT COUNT(*) .. WHERE p`, which is also the number of rows an `UPDATE`
or `DELETE` with that condition reports. -/
def count [DecidablePred p] : ℕ :=
  (t.rows.filter (fun r => p r)).length

variable {r : ρ}
theorem key_injOn {s : ρ} (hr : r ∈ t.rows) (hs : s ∈ t.rows) (h : key r = key s) : r = s :=
  inj_on_of_nodup_map t.nodup_keys hr hs h

theorem nodup_rows : t.rows.Nodup := t.nodup_keys.of_map key

theorem ext_rows {s t : Table key} (h : s.rows = t.rows) : s = t := by
  cases s
  cases t
  simpa using h

theorem deleteWhere_eq_self [DecidablePred p] (h : ∀ r ∈ t.rows, ¬p r) : t.deleteWhere p = t := by
  apply ext_rows
  exact filter_eq_self.mpr fun r hr => by simpa using h r hr

theorem deleteWhere_congr {p q : ρ → Prop} [DecidablePred p] [DecidablePred q]
    (h : ∀ r ∈ t.rows, p r ↔ q r) : t.deleteWhere p = t.deleteWhere q := by
  apply ext_rows
  apply filter_congr
  intro r hr
  simp [h r hr]

variable (f : ρ → ρ) (hf : ∀ r, key (f r) = key r)
theorem updateWhere_congr {p q : ρ → Prop} [DecidablePred p] [DecidablePred q]
    (h : ∀ r ∈ t.rows, p r ↔ q r) : t.updateWhere p f hf = t.updateWhere q f hf := by
  apply ext_rows
  apply map_congr_left
  intro r hr
  simp [h r hr]

variable [DecidableEq κ]
def get? (t : Table key) (k : κ) : Option ρ := t.rows.find? (fun r => key r = k)

variable {k : κ}
theorem get?_eq_some : t.get? k = some r ↔ r ∈ t.rows ∧ key r = k := by
  constructor
  · intro h
    exact ⟨mem_of_find?_eq_some h, by simpa using find?_some h⟩
  · rintro ⟨hr, hk⟩
    cases hf : t.get? k with
    | none => simpa [hk] using find?_eq_none.mp hf r hr
    | some s =>
      have hs : s ∈ t.rows := mem_of_find?_eq_some hf
      have hsk : key s = k := by simpa using find?_some hf
      rw [t.key_injOn hs hr (hsk.trans hk.symm)]

theorem get?_key (h : t.get? k = some r) : key r = k :=
  (t.get?_eq_some.mp h).2

theorem mem_rows : r ∈ t.rows ↔ t.get? (key r) = some r := by
  simp [get?_eq_some]

theorem get?_eq_none : t.get? k = none ↔ ∀ r ∈ t.rows, key r ≠ k := by
  simp [get?]

theorem get?_eq_of_mem_iff {t : Table key} {o : Option ρ}
    (h : ∀ r, (r ∈ t.rows ∧ key r = k) ↔ o = some r) : t.get? k = o := by
  apply Option.ext
  intro r
  rw [t.get?_eq_some, h r]

theorem get?_updateWhere [DecidablePred p] (k : κ) :
    (t.updateWhere p f hf).get? k = (t.get? k).map (fun r => if p r then f r else r) := by
  apply get?_eq_of_mem_iff
  intro r
  have hk (s : ρ) : key (if p s then f s else s) = key s := by by_cases h : p s <;> simp [h, hf]
  simp only [updateWhere, mem_map, Option.map_eq_some_iff, get?_eq_some]
  constructor
  · rintro ⟨⟨s, hs, rfl⟩, hkey⟩
    exact ⟨s, ⟨hs, (hk s).symm.trans hkey⟩, rfl⟩
  · rintro ⟨s, ⟨hs, hkey⟩, rfl⟩
    exact ⟨⟨s, hs, rfl⟩, (hk s).trans hkey⟩

theorem get?_updateWhere_key (k : κ) (f : ρ → ρ) (hf : ∀ r, key (f r) = key r) (k' : κ) :
    (t.updateWhere (fun r => key r = k) f hf).get? k' =
      if k' = k then (t.get? k').map f else t.get? k' := by
  rw [get?_updateWhere]
  cases hg : t.get? k' with
  | none => simp
  | some => simp [t.get?_key hg, apply_ite some]

theorem map_get?_updateWhere {γ : Type} [DecidablePred p] {g : ρ → γ} (hg : ∀ r, g (f r) = g r)
    (k : κ) : ((t.updateWhere p f hf).get? k).map g = (t.get? k).map g := by
  rw [get?_updateWhere, Option.map_map]
  congr 1
  funext r
  by_cases h : p r
  · simp [h, hg]
  · simp [h]

theorem get?_deleteWhere [DecidablePred p] (k : κ) :
    (t.deleteWhere p).get? k = (t.get? k).filter (fun r => ¬p r) := by
  apply get?_eq_of_mem_iff
  intro r
  simp only [deleteWhere, mem_filter, Option.filter_eq_some_iff, get?_eq_some]
  tauto

theorem get?_deleteWhere_of_iff [DecidablePred p] {b : Prop} [Decidable b]
    (h : ∀ r, t.get? k = some r → (p r ↔ b)) :
    (t.deleteWhere p).get? k = if b then none else t.get? k := by
  rw [get?_deleteWhere]
  cases hg : t.get? k with
  | none => simp
  | some r => by_cases hb : b <;> simp [h r hg, hb]

/-- `INSERT .. ON CONFLICT DO NOTHING`. -/
def insertIgnore (t : Table key) (r : ρ) : Table key :=
  if h : t.get? (key r) = none then
    ⟨t.rows ++ [r], by
      have hn : key r ∉ t.rows.map key := by
        intro hm
        obtain ⟨s, hs, hk⟩ := mem_map.mp hm
        exact t.get?_eq_none.mp h s hs hk
      rw [map_append, map_singleton]
      exact (nodup_append_comm).mpr (by simpa using ⟨by simpa using hn, t.nodup_keys⟩)⟩
  else t

theorem get?_insertIgnore (r : ρ) (k : κ) :
    (t.insertIgnore r).get? k = (t.get? k).or (if key r = k then some r else none) := by
  unfold insertIgnore
  split
  · rename_i hn
    apply get?_eq_of_mem_iff
    intro s
    by_cases hk : key r = k
    · subst hk
      simp only [hn, ↓reduceIte, Option.none_or, Option.some.injEq, mem_append,
        mem_singleton]
      constructor
      · rintro ⟨hs | hs, hsk⟩
        · exact absurd hsk (t.get?_eq_none.mp hn s hs)
        · exact hs.symm
      · rintro rfl
        exact ⟨.inr rfl, rfl⟩
    · simp only [hk, ↓reduceIte, Option.or_none, get?_eq_some, mem_append,
        mem_singleton]
      constructor
      · rintro ⟨hs | rfl, hsk⟩
        · exact ⟨hs, hsk⟩
        · exact absurd hsk hk
      · rintro ⟨hs, hsk⟩
        exact ⟨.inl hs, hsk⟩
  · rename_i hn
    by_cases hk : key r = k
    · subst hk
      obtain ⟨s, hs⟩ := Option.ne_none_iff_exists'.mp hn
      simp [hs]
    · simp [hk]

/-- `INSERT OR REPLACE`: a row under the same key is deleted first. -/
def replaceRow (t : Table key) (r : ρ) : Table key :=
  (t.deleteWhere (fun s => key s = key r)).insertIgnore r

theorem replaceRow_of_get?_eq_none (h : t.get? (key r) = none) :
    t.replaceRow r = t.insertIgnore r := by
  rw [replaceRow, deleteWhere_eq_self t _ (t.get?_eq_none.mp h)]

theorem get?_replaceRow (r : ρ) :
    (t.replaceRow r).get? = Function.update t.get? (key r) (some r) := by
  funext k
  rw [replaceRow, get?_insertIgnore, get?_deleteWhere]
  by_cases hk : k = key r
  · have hf : (t.get? k).filter (fun s => ¬key s = key r) = none := by
      rw [Option.filter_eq_none_iff]
      intro s hs
      simp [t.get?_key hs, hk]
    rw [hf]
    simp [hk]
  · have hk' : ¬key r = k := fun h => hk h.symm
    rw [Function.update_of_ne hk, if_neg hk', Option.or_none]
    cases hg : t.get? k with
    | none => rfl
    | some s =>
      have hs : ¬key s = key r := fun h => hk' (h.symm.trans (t.get?_key hg))
      simp [hs]

/-- `INSERT .. ON CONFLICT DO UPDATE`, where `merge` edits the row in place. -/
def upsert (t : Table key) (r : ρ) (merge : ρ → ρ) (hm : ∀ s, key (merge s) = key s) :
    Table key :=
  if t.get? (key r) = none then t.insertIgnore r
  else t.updateWhere (fun s => key s = key r) merge hm

theorem get?_upsert (r : ρ) (merge : ρ → ρ) (hm : ∀ s, key (merge s) = key s) (k : κ) :
    (t.upsert r merge hm).get? k =
      if key r = k then some (((t.get? k).map merge).getD r) else t.get? k := by
  unfold upsert
  by_cases hk : key r = k
  · subst hk
    cases hg : t.get? (key r) with
    | none => simp [get?_insertIgnore, hg]
    | some => simp [get?_updateWhere, hg, t.get?_key hg]
  · split
    · simp [get?_insertIgnore, hk]
    · rw [get?_updateWhere_key, if_neg fun h => hk h.symm]

theorem mem_replaceRow {s : ρ} :
    s ∈ (t.replaceRow r).rows ↔ s = r ∨ (s ∈ t.rows ∧ key s ≠ key r) := by
  rw [mem_rows, get?_replaceRow]
  by_cases hk : key s = key r
  · simp only [hk, Function.update_self, Option.some.injEq, ne_eq, not_true_eq_false, and_false,
      or_false]
    exact eq_comm
  · rw [Function.update_of_ne hk, ← mem_rows]
    have hne : s ≠ r := fun h => hk (congrArg key h)
    simp [hk, hne]

theorem finite_keys : {k | t.get? k ≠ none}.Finite := by
  apply (t.rows.map key).toFinset.finite_toSet.subset
  intro k hk
  obtain ⟨r, hr⟩ := Option.ne_none_iff_exists'.mp hk
  obtain ⟨hm, hkey⟩ := t.get?_eq_some.mp hr
  rw [coe_toFinset]
  exact mem_map.mpr ⟨r, hm, hkey⟩

theorem count_mem_keys {l : List ρ} (hl : ∀ r ∈ l, r ∈ t.rows) (hn : l.Nodup) :
    t.count (fun r => key r ∈ l.map key) = l.length := by
  apply List.Perm.length_eq
  apply (perm_ext_iff_of_nodup (t.nodup_rows.filter _) hn).mpr
  intro r
  simp only [mem_filter, mem_map, decide_eq_true_eq]
  constructor
  · rintro ⟨hr, s, hs, hk⟩
    rw [← t.key_injOn (hl s hs) hr hk]
    exact hs
  · intro hr
    exact ⟨hl r hr, r, hr, rfl⟩

theorem count_eq_ncard {ι : Type} [DecidablePred p] (idx : ι → κ) (hidx : Function.Injective idx)
    (hreach : ∀ r ∈ t.rows, p r → ∃ i, idx i = key r) :
    t.count p = Set.ncard {i | ∃ r, t.get? (idx i) = some r ∧ p r} := by
  have hset : Set.image idx {i | ∃ r, t.get? (idx i) = some r ∧ p r} =
      (((t.rows.filter (fun r => p r)).map key).toFinset : Set κ) := by
    ext k
    simp only [Set.mem_image, Set.mem_ofPred_eq, coe_toFinset, mem_map,
      mem_filter, decide_eq_true_eq]
    constructor
    · rintro ⟨i, ⟨r, hg, hp⟩, rfl⟩
      exact ⟨r, ⟨(t.get?_eq_some.mp hg).1, hp⟩, t.get?_key hg⟩
    · rintro ⟨r, ⟨hr, hp⟩, rfl⟩
      obtain ⟨i, hi⟩ := hreach r hr hp
      exact ⟨i, ⟨r, by rw [hi]; exact t.mem_rows.mp hr, hp⟩, hi⟩
  have hnodup : ((t.rows.filter (fun r => p r)).map key).Nodup :=
    (filter_sublist.map key).nodup t.nodup_keys
  rw [← Set.ncard_image_of_injective _ hidx, hset, Set.ncard_coe_finset,
    toFinset_card_of_nodup hnodup, length_map, count]
end Table
end Relational
