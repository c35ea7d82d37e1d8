import Mathlib.Data.List.Basic

/-! Executions of a deterministic machine: inputs are applied one after
another, each gives a reply and a next state. -/
namespace Execution
variable {σ α β : Type*} (exec : α → σ → β × σ) (s : σ) (as : List α)
def after : σ := as.foldl (fun s a => (exec a s).2) s

@[simp] theorem after_nil : after exec s [] = s := rfl

@[simp] theorem after_cons (a : α) (as : List α) :
    after exec s (a :: as) = after exec (exec a s).2 as := rfl

theorem after_append (bs : List α) : after exec s (as ++ bs) = after exec (after exec s as) bs := by
  simp only [after, List.foldl_append]

theorem after_concat (a : α) : after exec s (as ++ [a]) = (exec a (after exec s as)).2 := by
  rw [after_append, after_cons, after_nil]

def trace : σ → List α → List (α × β)
  | _, [] => []
  | s, a :: as => (a, (exec a s).1) :: trace (exec a s).2 as

theorem trace_append (bs : List α) :
    trace exec s (as ++ bs) = trace exec s as ++ trace exec (after exec s as) bs := by
  induction as generalizing s with
  | nil => rfl
  | cons _ _ ih => simp only [List.cons_append, trace, ih, after_cons]

theorem after_induction {P : σ → Prop} (h0 : P s) (hstep : ∀ a ∈ as, ∀ t, P t → P (exec a t).2) :
    P (after exec s as) := by
  induction as generalizing s with
  | nil => exact h0
  | cons a _ ih =>
    exact ih _ (hstep a List.mem_cons_self s h0) fun b hb => hstep b (List.mem_cons_of_mem _ hb)

theorem exists_losing_input {P : σ → Prop} (h0 : P s) (hn : ¬P (after exec s as)) :
    ∃ pre a post, as = pre ++ a :: post ∧ P (after exec s pre) ∧
      ¬P (exec a (after exec s pre)).2 := by
  induction as generalizing s with
  | nil => exact absurd h0 hn
  | cons a as ih =>
    by_cases ha : P (exec a s).2
    · obtain ⟨pre, b, post, he, hp, hl⟩ := ih _ ha hn
      exact ⟨a :: pre, b, post, by rw [he, List.cons_append], hp, hl⟩
    · exact ⟨[], a, as, rfl, h0, ha⟩

end Execution
