import Mathlib.Data.List.Basic

/-! Words that are written one after the other, and how they can be read again. -/
namespace Codes
open List
variable {α β : Type} {x y x' y' : List β}
/-- A code is read from its end when the last letters tell its words apart. -/
theorem append_inj_of_getLast? {f : α → List β} {a b : α} (hne : ∀ a, f a ≠ [])
    (hlast : ∀ a b, (f a).getLast? = (f b).getLast? → a = b)
    (h : x ++ f a = y ++ f b) : x = y ∧ a = b := by
  have hends := congrArg getLast? h
  rw [getLast?_append_of_ne_nil _ (hne a), getLast?_append_of_ne_nil _ (hne b)] at hends
  obtain rfl := hlast a b hends
  exact ⟨append_cancel_right h, rfl⟩

/-- A field is read from its front up to the letter that does not occur in it. -/
theorem append_cons_inj {d : β} (hx : d ∉ x) (hy : d ∉ y) (h : x ++ d :: x' = y ++ d :: y') :
    x = y ∧ x' = y' := by
  obtain ⟨z, rfl, hz⟩ | ⟨z, rfl, hz⟩ := append_eq_append_iff.mp h
  · cases z <;> simp_all
  · cases z <;> simp_all

/-- Words that can be told apart and read off the front one after the other. -/
theorem forall_mem_of_flatMap {α β γ : Type} {R : α → β → Prop} {f : α → List γ} {g : β → List γ}
    {l : List α} {l' : List β} {x y : List γ} (hlength : l.length = l'.length)
    (hwords : ∀ a ∈ l, ∀ b ∈ l', ∀ x y, f a ++ x = g b ++ y → R a b ∧ x = y)
    (h : l.flatMap f ++ x = l'.flatMap g ++ y) : (∀ a ∈ l, ∃ b ∈ l', R a b) ∧ x = y := by
  induction l generalizing l' with
  | nil =>
    obtain rfl := length_eq_zero_iff.mp hlength.symm
    exact ⟨nofun, h⟩
  | cons a l ih =>
    cases l' with
    | nil => cases hlength
    | cons b l' =>
      rw [flatMap_cons, flatMap_cons, append_assoc, append_assoc] at h
      obtain ⟨hab, h⟩ := hwords a mem_cons_self b mem_cons_self _ _ h
      obtain ⟨hall, hxy⟩ := ih (Nat.succ.inj hlength)
        (fun a ha b hb => hwords a (mem_cons_of_mem _ ha) b (mem_cons_of_mem _ hb)) h
      refine ⟨forall_mem_cons.mpr ⟨⟨b, mem_cons_self, hab⟩, fun a ha => ?_⟩, hxy⟩
      obtain ⟨b', hb', hab'⟩ := hall a ha
      exact ⟨b', mem_cons_of_mem _ hb', hab'⟩

end Codes
