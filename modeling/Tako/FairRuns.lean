import Mathlib.Data.Nat.Notation

/-! Infinite runs of a machine, and what a fair run is certain to reach. -/
namespace Execution
variable {σ α : Type*} (step : α → σ → σ)
def states (s : σ) (run : ℕ → α) : ℕ → σ
  | 0 => s
  | n + 1 => step (run n) (states s run n)

theorem states_induction {P : σ → Prop} {s : σ} {run : ℕ → α} (h0 : P s)
    (hstep : ∀ n, P (states step s run n) → P (step (run n) (states step s run n))) (n : ℕ) :
    P (states step s run n) := by
  induction n with
  | zero => exact h0
  | succ n ih => exact hstep n ih

theorem states_of_fixed {s t : σ} {run : ℕ → α} {n : ℕ} (hn : states step s run n = t)
    (hfixed : ∀ m, n ≤ m → step (run m) t = t) {m : ℕ} (hm : n ≤ m) : states step s run m = t := by
  induction m with
  | zero =>
    obtain rfl := Nat.le_zero.mp hm
    exact hn
  | succ m ih =>
    obtain hlast | hlt := Nat.eq_or_lt_of_le hm
    · rw [← hlast]
      exact hn
    · have hle := Nat.le_of_lt_succ hlt
      show step (run m) (states step s run m) = t
      rw [ih hle]
      exact hfixed m hle

/-- Every time at which `P` holds is followed by one at which `Q` does. -/
def LeadsTo (P Q : ℕ → Prop) : Prop := ∀ n, P n → ∃ m, n ≤ m ∧ Q m

namespace LeadsTo
variable {P Q : ℕ → Prop}
theorem of_measure {helpful : ℕ → Prop} {μ : ℕ → ℕ} (hrecurs : ∀ n, ∃ m, n ≤ m ∧ helpful m)
    (hkeep : ∀ n, P n → Q (n + 1) ∨ P (n + 1) ∧ μ (n + 1) ≤ μ n)
    (hhelp : ∀ n, P n → helpful n → Q (n + 1) ∨ P (n + 1) ∧ μ (n + 1) < μ n) : LeadsTo P Q := by
  -- until the next helpful step either the goal is reached or nothing is lost
  have hwait (n k : ℕ) (hn : P n) :
      (∃ m, n ≤ m ∧ Q m) ∨ P (n + k) ∧ μ (n + k) ≤ μ n := by
    induction k with
    | zero => exact .inr ⟨hn, Nat.le_refl _⟩
    | succ k ih =>
      obtain hgoal | ⟨hp, hle⟩ := ih
      · exact .inl hgoal
      · obtain hq | ⟨hp', hle'⟩ := hkeep (n + k) hp
        · exact .inl ⟨n + k + 1, by omega, hq⟩
        · exact .inr ⟨hp', Nat.le_trans hle' hle⟩
  intro n
  generalize hμ : μ n = bound
  induction bound using Nat.strongRecOn generalizing n with
  | ind _ ih =>
    intro hn
    obtain ⟨m, hm, hhelpful⟩ := hrecurs n
    obtain ⟨k, rfl⟩ := Nat.exists_eq_add_of_le hm
    obtain hgoal | ⟨hp, _⟩ := hwait n k hn
    · exact hgoal
    · obtain hq | ⟨hp', _⟩ := hhelp (n + k) hp hhelpful
      · exact ⟨n + k + 1, by omega, hq⟩
      · obtain ⟨u, _, hq⟩ := ih (μ (n + k + 1)) (by omega) (n + k + 1) rfl hp'
        exact ⟨u, by omega, hq⟩
end LeadsTo
end Execution
