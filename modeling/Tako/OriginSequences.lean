import Mathlib.Data.List.Induction
import Mathlib.Data.List.Nodup
import Mathlib.Data.List.Pairwise
import Mathlib.Data.Nat.Basic

/-! Events that carry an origin and a sequence number of that origin, and a receiver that takes an
event only above the last number of its origin. -/
namespace OriginSequence
variable {ε κ : Type} {origin : ε → κ} {sequence : ε → ℕ} {log : List ε}
def Increasing (origin : ε → κ) (sequence : ε → ℕ) (log : List ε) : Prop :=
  log.Pairwise (fun a b => origin a = origin b → sequence a < sequence b)

namespace Increasing
theorem concat_iff {e : ε} : Increasing origin sequence (log ++ [e]) ↔
    Increasing origin sequence log ∧ ∀ a ∈ log, origin a = origin e → sequence a < sequence e := by
  unfold Increasing
  rw [List.pairwise_append]
  simp

theorem nodup (h : Increasing origin sequence log) :
    (log.map (fun e => (origin e, sequence e))).Nodup := by
  apply List.pairwise_map.mpr
  apply h.imp
  intro a b hlt heq
  obtain ⟨horigin, _⟩ := Prod.mk.inj heq
  have hcontra := hlt horigin
  omega
end Increasing

variable [DecidableEq κ]
/-- The number of the last event of an origin, 0 before its first one. -/
def last (origin : ε → κ) (sequence : ε → ℕ) (log : List ε) (k : κ) : ℕ :=
  ((log.filter (fun e => origin e = k)).getLast?.map sequence).getD 0

theorem last_concat (log : List ε) (e : ε) (k : κ) : last origin sequence (log ++ [e]) k =
      if origin e = k then sequence e else last origin sequence log k := by
  unfold last
  rw [List.filter_append]
  by_cases hk : origin e = k
  · simp [hk]
  · simp [hk]

namespace Increasing
theorem le_last (h : Increasing origin sequence log) {e : ε} (he : e ∈ log) :
    sequence e ≤ last origin sequence log (origin e) := by
  induction log using List.reverseRecOn with
  | nil => cases he
  | append_singleton _ b ih =>
    obtain ⟨hlog, hb⟩ := concat_iff.mp h
    rw [last_concat]
    obtain he | he := List.mem_append.mp he
    · by_cases hk : origin b = origin e
      · rw [if_pos hk]
        exact le_of_lt (hb e he hk.symm)
      · rw [if_neg hk]
        exact ih hlog he
    · rw [List.mem_singleton.mp he, if_pos rfl]

theorem concat (h : Increasing origin sequence log) {e : ε}
    (he : last origin sequence log (origin e) < sequence e) :
    Increasing origin sequence (log ++ [e]) := by
  apply concat_iff.mpr
  refine ⟨h, ?_⟩
  intro a ha hk
  have hle := h.le_last ha
  rw [hk] at hle
  omega
end Increasing
end OriginSequence
