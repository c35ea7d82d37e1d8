import Mathlib.Logic.Relation
import Tako.FallibleLoops

/-! Programs over a state that keep what they have done when they fail: how they end, and the
steps that a part of the state takes. -/
namespace Effects
open Fallible
variable {ε σ α β τ : Type}
def final : EStateM.Result ε σ α → σ
  | .ok _ s => s
  | .error _ s => s

def refuse (p : Prop) [Decidable p] (e : ε) : EStateM ε σ Unit := if p then throw e else pure ()

def fromExcept : Except ε α → EStateM ε σ α
  | .ok a => pure a
  | .error e => throw e

/-- What is still done when the program has failed. -/
def onError (m : EStateM ε σ α) (cleanup : ε → EStateM ε σ Unit) : EStateM ε σ α := fun s =>
  match m s with
  | .ok a s' => .ok a s'
  | .error e s' => (cleanup e >>= fun _ => throw e) s'

/-- Where `P` holds, the program ends with `Q`, or with an error that satisfies `E`. -/
def Settles (E : ε → σ → Prop) (P : σ → Prop) (m : EStateM ε σ α) (Q : α → σ → Prop) : Prop :=
  ∀ s, P s →
    match m s with
    | .ok a s' => Q a s'
    | .error e s' => E e s'

variable {cleanup : ε → EStateM ε σ Unit} {x : Except ε α} {p : Prop} {f : α → EStateM ε σ β}
  {m : EStateM ε σ α} {g : α → β}
namespace Settles
variable {E : ε → σ → Prop} {P : σ → Prop} {Q : α → σ → Prop} {R : β → σ → Prop} {a : α} {e : ε}

theorem bind (hm : Settles E P m Q) (hf : ∀ a, Settles E (Q a) (f a) R) :
    Settles E P (m >>= f) R := by
  intro s hs
  have hrun := hm s hs
  have hbind : (m >>= f) s = EStateM.bind m f s := rfl
  rw [hbind, EStateM.bind]
  cases hm' : m s with
  | ok a s' =>
    rw [hm'] at hrun
    exact hf a s' hrun
  | error =>
    rw [hm'] at hrun
    exact hrun

theorem mono {E' : ε → σ → Prop} {P' : σ → Prop} {Q' : α → σ → Prop} (hm : Settles E P m Q)
    (hP : ∀ s, P' s → P s) (hQ : ∀ a s, Q a s → Q' a s) (hE : ∀ e s, E e s → E' e s) :
    Settles E' P' m Q' := by
  intro s hs
  have hrun := hm s (hP s hs)
  cases hm' : m s with
  | ok a s' =>
    rw [hm'] at hrun
    exact hQ a s' hrun
  | error e s' =>
    rw [hm'] at hrun
    exact hE e s' hrun

theorem given (hp : ∀ s, P s → p) (hm : p → Settles E P m Q) : Settles E P m Q :=
  fun s hs => hm (hp s hs) s hs

theorem pure (h : ∀ s, P s → Q a s) : Settles E P (Pure.pure a : EStateM ε σ α) Q := h

theorem map (hm : Settles E P m Q) (hR : ∀ a s, Q a s → R (g a) s) :
    Settles E P (g <$> m) R :=
  hm.bind fun a => pure fun s hs => hR a s hs

theorem fromExcept (h : ∀ s, P s → Yields (E · s) x (Q · s)) :
    Settles E P (fromExcept x) Q := by
  cases x with
  | ok => exact h
  | error => exact h

theorem checked (hx : x = .ok a) (hf : Settles E P (f a) R) :
    Settles E P (Effects.fromExcept x >>= f) R := by
  rw [hx]
  exact hf

theorem passed [Decidable p] {f : Unit → EStateM ε σ β} (hp : ¬p) (hf : ∀ u, Settles E P (f u) R) :
    Settles E P (refuse p e >>= f) R := by
  unfold refuse
  rw [if_neg hp]
  exact hf ()

theorem onError (hm : Settles E P m Q) (hcleanup : ∀ e, Settles E (E e) (cleanup e) fun _ => E e) :
    Settles E P (onError m cleanup) Q := by
  intro s hs
  have hrun := hm s hs
  unfold Effects.onError
  cases hm' : m s with
  | ok =>
    rw [hm'] at hrun
    exact hrun
  | error e s' =>
    rw [hm'] at hrun
    exact (hcleanup e).bind (f := fun _ => throw e) (fun _ _ hs => hs) s' hrun
end Settles

/-- Where `P` holds, the program takes steps only, and where it does not fail it ends
with `Q`. -/
def Leads (view : σ → τ) (step : τ → τ → Prop) (P : τ → Prop) (m : EStateM ε σ α)
    (Q : α → τ → Prop) : Prop :=
  ∀ s₀, Settles (fun _ s => Relation.ReflTransGen step s₀ (view s))
    (fun s => Relation.ReflTransGen step s₀ (view s) ∧ P (view s)) m
    fun a s => Relation.ReflTransGen step s₀ (view s) ∧ Q a (view s)

namespace Leads
variable {view : σ → τ} {step : τ → τ → Prop} {P P' : τ → Prop} {Q Q' : α → τ → Prop}
  {R : β → τ → Prop} {e : ε}

theorem bind (hm : Leads view step P m Q) (hf : ∀ a, Leads view step (Q a) (f a) R) :
    Leads view step P (m >>= f) R :=
  fun s₀ => (hm s₀).bind fun a => hf a s₀

theorem mono (h : Leads view step P m Q) (hP : ∀ s, P' s → P s) (hQ : ∀ a s, Q a s → Q' a s) :
    Leads view step P' m Q' :=
  fun s₀ => (h s₀).mono (fun _ hs => hs.imp_right (hP _)) (fun a _ hs => hs.imp_right (hQ a _))
    fun _ _ hs => hs

theorem given (hp : ∀ s, P s → p) (hm : p → Leads view step P m Q) :
    Leads view step P m Q :=
  fun s₀ => .given (fun _ hs => hp _ hs.2) fun hp => hm hp s₀

theorem pure {a : α} (h : ∀ s, P s → Q a s) :
    Leads view step P (Pure.pure a : EStateM ε σ α) Q :=
  fun _ => .pure fun _ hs => hs.imp_right (h _)

/-- The program goes on with what was read. -/
theorem checked (hf : ∀ a, Leads view step (fun s => P s ∧ x = .ok a) (f a) R) :
    Leads view step P (fromExcept x >>= f) R := by
  cases x with
  | ok a => exact fun s₀ s hs => hf a s₀ s ⟨hs.1, hs.2, rfl⟩
  | error => exact fun _ _ hs => hs.1

theorem passed [Decidable p] {f : Unit → EStateM ε σ β}
    (hf : ∀ u, Leads view step (fun s => P s ∧ ¬p) (f u) R) :
    Leads view step P (refuse p e >>= f) R := by
  unfold refuse
  by_cases hp : p
  · rw [if_pos hp]
    exact fun _ _ hs => hs.1
  · rw [if_neg hp]
    exact fun s₀ s hs => hf () s₀ s ⟨hs.1, hs.2, hp⟩

theorem map (h : Leads view step P m Q) (hR : ∀ a s, Q a s → R (g a) s) :
    Leads view step P (g <$> m) R :=
  fun s₀ => (h s₀).map fun a _ hs => hs.imp_right (hR a _)

theorem onError (hm : Leads view step P m Q)
    (hcleanup : ∀ e, Leads view step (fun _ => True) (cleanup e) fun _ _ => True) :
    Leads view step P (onError m cleanup) Q :=
  fun s₀ => (hm s₀).onError fun e =>
    (hcleanup e s₀).mono (fun _ hs => ⟨hs, trivial⟩) (fun _ _ hs => hs.1) fun _ _ hs => hs

theorem keep (h : Leads view step P m Q) {K : τ → Prop} (hK : ∀ s s', K s → step s s' → K s') :
    Leads view step (fun s => K s ∧ P s) m fun a s => K s ∧ Q a s := by
  have hsteps {s s' : τ} (hs : Relation.ReflTransGen step s s') (hk : K s) : K s' := by
    induction hs with
    | refl => exact hk
    | tail _ hstep ih => exact hK _ _ ih hstep
  intro s₀ s hs
  have hrun := h (view s) s ⟨.refl, hs.2.2⟩
  cases hm : m s with
  | ok =>
    rw [hm] at hrun
    exact ⟨hs.1.trans hrun.1, hsteps hrun.1 hs.2.1, hrun.2⟩
  | error =>
    rw [hm] at hrun
    exact hs.1.trans hrun

theorem final (h : Leads view step P m Q) {s : σ} (hs : P (view s)) :
    Relation.ReflTransGen step (view s) (view (final (m s))) := by
  have hrun := h (view s) s ⟨.refl, hs⟩
  cases hm : m s with
  | ok =>
    rw [hm] at hrun
    exact hrun.1
  | error =>
    rw [hm] at hrun
    exact hrun
end Leads

end Effects
