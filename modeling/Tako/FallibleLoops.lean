import Mathlib.Data.List.Basic

/-! Computations that stop at the first error, and loops of them. -/
namespace Fallible
open List
variable {ε α β σ : Type} {x : Except ε α} {f : α → Except ε β}
theorem bind_eq_ok {b : β} (h : (x >>= f) = .ok b) : ∃ a, x = .ok a ∧ f a = .ok b := by
  cases x with
  | error => cases h
  | ok a => exact ⟨a, rfl, h⟩

variable {e : ε} {a : α}
theorem ok_bind (h : x = .ok a) : (x >>= f) = f a := by
  rw [h]
  rfl

theorem bind_eq_ok_iff {b : β} : (x >>= f) = .ok b ↔ ∃ a, x = .ok a ∧ f a = .ok b :=
  ⟨bind_eq_ok, fun ⟨_, hx, hf⟩ => (ok_bind hx).trans hf⟩

theorem bind_eq_error (h : (x >>= f) = .error e) :
    x = .error e ∨ ∃ a, x = .ok a ∧ f a = .error e := by
  cases x with
  | error => exact .inl (congrArg Except.error (Except.error.inj h))
  | ok a => exact .inr ⟨a, rfl, h⟩

theorem elim_eq_ok {o : Option α} (h : o.elim (.error e) Except.ok = .ok a) : o = some a := by
  cases o with
  | none => cases h
  | some => exact congrArg some (Except.ok.inj h)

theorem ok_pair_inj {a a' : α} {b b' : β} (h : (.ok (a, b) : Except ε (α × β)) = .ok (a', b')) :
    a = a' ∧ b = b' :=
  Prod.mk.inj (Except.ok.inj h)

variable {p : Prop}
theorem check_eq_ok [Decidable p] (h : (if p then .error e else x) = .ok a) :
    ¬p ∧ x = .ok a := by
  by_cases hp : p
  · rw [if_pos hp] at h
    cases h
  · rw [if_neg hp] at h
    exact ⟨hp, h⟩

theorem check_eq_ok_iff [Decidable p] :
    (if p then .error e else x) = .ok a ↔ ¬p ∧ x = .ok a :=
  ⟨check_eq_ok, fun ⟨hp, hx⟩ => (if_neg hp).trans hx⟩

theorem check_eq_error [Decidable p] {e e' : ε} (h : (if p then .error e' else x) = .error e) :
    e = e' ∨ x = .error e := by
  by_cases hp : p
  · rw [if_pos hp] at h
    exact .inl (Except.error.inj h).symm
  · rw [if_neg hp] at h
    exact .inr h

variable {f : σ → α → Except ε σ} {l : List α}
theorem foldlM_error {s : σ} (h : l.foldlM f s = .error e) : ∃ t, ∃ a ∈ l, f t a = .error e := by
  induction l generalizing s with
  | nil => cases h
  | cons a l ih =>
    rw [foldlM_cons] at h
    obtain ha | ⟨t, _, h⟩ := bind_eq_error h
    · exact ⟨s, a, mem_cons_self, ha⟩
    · obtain ⟨t, a', ha', herror⟩ := ih h
      exact ⟨t, a', mem_cons_of_mem _ ha', herror⟩

/-- The computation gives what satisfies `Q`, or an error that satisfies `E`. -/
def Yields {α : Type} (E : ε → Prop) (x : Except ε α) (Q : α → Prop) : Prop :=
  match x with
  | .ok a => Q a
  | .error e => E e

namespace Yields
variable {E : ε → Prop} {P : α → Prop} {Q : β → Prop}
theorem bind {x : Except ε α} {f : α → Except ε β} (hx : Yields E x P)
    (hf : ∀ a, P a → Yields E (f a) Q) : Yields E (x >>= f) Q := by
  cases x with
  | ok a => exact hf a hx
  | error => exact hx

theorem imp {x : Except ε β} {P : β → Prop} (h : Yields E x P)
    (hQ : ∀ b, x = .ok b → P b → Q b) : Yields E x Q := by
  cases x with
  | ok b => exact hQ b rfl h
  | error => exact h

theorem map {x : Except ε α} {g : α → β} (h : Yields E x fun a => Q (g a)) :
    Yields E (x.map g) Q := by
  cases x with
  | ok | error => exact h

theorem check {x : Except ε β} [Decidable p] (he : p → E e) (hx : ¬p → Yields E x Q) :
    Yields E (if p then .error e else x) Q := by
  by_cases hp : p
  · rw [if_pos hp]
    exact he hp
  · rw [if_neg hp]
    exact hx hp

theorem foldlM {s : σ} (I : List α → σ → Prop) (h0 : I [] s)
    (hstep : ∀ done a t, (∀ x ∈ done ++ [a], x ∈ l) → I done t →
      Yields E (f t a) (I (done ++ [a]))) : Yields E (l.foldlM f s) (I l) := by
  have hrun (done rest : List α) (t : σ) (hl : done ++ rest = l) (ht : I done t) :
      Yields E (rest.foldlM f t) (I l) := by
    induction rest generalizing done t with
    | nil =>
      rw [← hl, append_nil]
      exact ht
    | cons a rest ih =>
      have hsplit : (done ++ [a]) ++ rest = l := by
        rw [append_assoc, singleton_append]
        exact hl
      rw [foldlM_cons]
      refine (hstep done a t (fun x hx => ?_) ht).bind fun t' ht' => ih (done ++ [a]) t' hsplit ht'
      rw [← hsplit]
      exact mem_append_left rest hx
  exact hrun [] l s rfl h0
end Yields

theorem foldlM_invariant {s s' : σ} (h : l.foldlM f s = .ok s') {I : List α → σ → Prop}
    (h0 : I [] s)
    (hstep : ∀ done a t t', a ∈ l → I done t → f t a = .ok t' → I (done ++ [a]) t') :
    I l s' := by
  have hloop : Yields (fun _ => True) (l.foldlM f s) (I l) := by
    refine .foldlM I h0 fun done a t hdone ht => ?_
    cases ha : f t a with
    | ok t' => exact hstep done a t t' (hdone a (mem_append_right _ mem_cons_self)) ht ha
    | error => trivial
  rw [h] at hloop
  exact hloop

theorem foldlM_ok {s : σ} (I : List α → σ → Prop) (h0 : I [] s)
    (hstep : ∀ done a t, (∀ x ∈ done ++ [a], x ∈ l) → I done t → ∃ t', f t a = .ok t' ∧
      I (done ++ [a]) t') : ∃ s', l.foldlM f s = .ok s' ∧ I l s' := by
  have hloop : Yields (fun _ => False) (l.foldlM f s) (I l) := by
    refine .foldlM I h0 fun done a t hdone ht => ?_
    obtain ⟨t', ha, hI⟩ := hstep done a t hdone ht
    rw [ha]
    exact hI
  cases hrun : l.foldlM f s with
  | ok s' =>
    rw [hrun] at hloop
    exact ⟨s', rfl, hloop⟩
  | error =>
    rw [hrun] at hloop
    exact hloop.elim

end Fallible
