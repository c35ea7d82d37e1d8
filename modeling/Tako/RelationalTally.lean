import Mathlib.Algebra.Order.Monoid.Prod
import Tako.RelationalTable

/-! The number and the total weight of some rows, as counters keep them. -/
namespace Relational
open List
variable {ρ : Type} (w : ρ → ℤ)
def tally (rows : List ρ) : ℤ × ℤ := (rows.length, (rows.map w).sum)

@[simp] theorem tally_nil : tally w [] = 0 := rfl

theorem tally_append (l l' : List ρ) : tally w (l ++ l') = tally w l + tally w l' := by simp [tally]

theorem tally_singleton (r : ρ) : tally w [r] = (1, w r) := by simp [tally]

theorem tally_cons (r : ρ) (l : List ρ) : tally w (r :: l) = tally w [r] + tally w l :=
  tally_append w [r] l

theorem tally_perm {l l' : List ρ} (h : l.Perm l') : tally w l = tally w l' := by
  rw [tally, tally, h.length_eq, (h.map w).sum_eq]

theorem tally_filter_add (p : ρ → Prop) [DecidablePred p] (l : List ρ) :
    tally w (l.filter (fun r => p r)) + tally w (l.filter (fun r => ¬p r)) = tally w l := by
  rw [← tally_append]
  apply tally_perm
  simpa using filter_append_perm (fun r => decide (p r)) l

theorem tally_le_of_sublist {w : ρ → ℤ} (hw : ∀ r, 0 ≤ w r) {l l' : List ρ} (h : l.Sublist l') :
    tally w l ≤ tally w l' := by
  induction h with
  | slnil => exact le_refl _
  | @cons l l' r _ ih =>
    rw [tally_cons w r l']
    have hr : 0 ≤ tally w [r] := by
      rw [tally_singleton]
      exact ⟨Int.one_nonneg, hw r⟩
    exact ih.trans (le_add_of_nonneg_left hr)
  | @cons_cons l l' r _ ih =>
    rw [tally_cons w r l, tally_cons w r l']
    exact add_le_add_right ih _

section
variable {κ : Type} {key : ρ → κ} (t : Table key)
theorem tally_deleteWhere (p : ρ → Prop) [DecidablePred p] :
    tally w (t.deleteWhere p).rows + tally w (t.rows.filter (fun r => p r)) = tally w t.rows := by
  rw [add_comm]
  exact tally_filter_add w p t.rows

variable [DecidableEq κ]
theorem filter_key (k : κ) : t.rows.filter (fun r => key r = k) = (t.get? k).toList := by
  cases hk : t.get? k with
  | none =>
    apply filter_eq_nil_iff.mpr
    intro r hr
    simpa using t.get?_eq_none.mp hk r hr
  | some r =>
    obtain ⟨hr, hkey⟩ := t.get?_eq_some.mp hk
    have honly : ∀ s ∈ t.rows.filter (fun r => key r = k), s = r := by
      intro s hs
      obtain ⟨hs, hsk⟩ := mem_filter.mp hs
      exact t.key_injOn hs hr ((of_decide_eq_true hsk).trans hkey.symm)
    have hmem : r ∈ t.rows.filter (fun r => key r = k) := mem_filter.mpr ⟨hr, decide_eq_true hkey⟩
    have hnodup : (t.rows.filter (fun r => key r = k)).Nodup := t.nodup_rows.filter _
    apply perm_singleton.mp
    apply (perm_ext_iff_of_nodup hnodup (nodup_singleton r)).mpr
    intro s
    constructor
    · exact fun hs => mem_singleton.mpr (honly s hs)
    · intro hs
      rw [mem_singleton.mp hs]
      exact hmem

theorem rows_insertIgnore {r : ρ} (h : t.get? (key r) = none) :
    (t.insertIgnore r).rows = t.rows ++ [r] := by
  unfold Table.insertIgnore
  rw [dif_pos h]

theorem rows_replaceRow (r : ρ) :
    (t.replaceRow r).rows = t.rows.filter (fun s => ¬key s = key r) ++ [r] := by
  apply rows_insertIgnore
  rw [Table.get?_deleteWhere]
  cases hk : t.get? (key r) with
  | none => rfl
  | some => simp [t.get?_key hk]

theorem tally_replaceRow (r : ρ) : tally w (t.replaceRow r).rows + tally w (t.get? (key r)).toList =
      tally w t.rows + tally w [r] := by
  rw [rows_replaceRow, tally_append, ← filter_key, add_right_comm]
  exact congrArg (· + tally w [r]) (tally_deleteWhere w t _)

theorem rows_foldl_replaceRow {l : List ρ} (hl : (l.map key).Nodup)
    (hnew : ∀ r ∈ l, t.get? (key r) = none) : (l.foldl Table.replaceRow t).rows = t.rows ++ l := by
  induction l generalizing t with
  | nil => exact (append_nil _).symm
  | cons r l ih =>
    have hr : t.get? (key r) = none := hnew r mem_cons_self
    obtain ⟨hrl, hl⟩ := nodup_cons.mp hl
    have hrest : ∀ s ∈ l, (t.replaceRow r).get? (key s) = none := by
      intro s hs
      have hne : key s ≠ key r := fun h => hrl (h ▸ mem_map_of_mem hs)
      rw [Table.get?_replaceRow, Function.update_of_ne hne]
      exact hnew s (mem_cons_of_mem _ hs)
    rw [foldl_cons, ih (t.replaceRow r) hl hrest, t.replaceRow_of_get?_eq_none hr,
      rows_insertIgnore t hr, append_assoc, singleton_append]
end

end Relational
