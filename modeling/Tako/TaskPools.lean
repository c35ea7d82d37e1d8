import Mathlib.Data.List.Basic

/-! Tasks that run side by side on a shared state. A task is what is left of it: a
step of it acts on the shared state and leaves the rest. -/
namespace Tasks
open List
/-- A program of calls. It goes on with what a call replies, or with something
that it does not control. -/
inductive Script (π : Type) (ρ : π → Type) (α : Type) where
  | ret (a : α)
  | call (p : π) (next : ρ p → Script π ρ α)
  | choose (next : ℕ → Script π ρ α)

namespace Script
variable {π : Type} {ρ : π → Type} {α β : Type}
def bind : Script π ρ α → (α → Script π ρ β) → Script π ρ β
  | .ret a, f => f a
  | .call p next, f => .call p fun r => (next r).bind f
  | .choose next, f => .choose fun n => (next n).bind f

instance : Monad (Script π ρ) where
  pure := .ret
  bind := bind

def invoke (p : π) : Script π ρ (ρ p) := .call p .ret

def pick : Script π ρ ℕ := .choose .ret
end Script

structure Pool (τ σ : Type) where
  tasks : List τ
  shared : σ

inductive Event (ω ι : Type) where
  | start (w : ω)
  | run (task : ℕ) (input : ι)

section
variable {τ σ ω ι : Type} (create : ω → τ) (step : τ → ι → σ → Option (τ × σ))
/-- A task that cannot go on yet stays where it is. -/
def exec : Event ω ι → Pool τ σ → Pool τ σ
  | .start w, p => { p with tasks := p.tasks ++ [create w] }
  | .run k input, p =>
    match p.tasks[k]? with
    | none => p
    | some t =>
      match step t input p.shared with
      | none => p
      | some (t', s) => ⟨p.tasks.set k t', s⟩

def after (p : Pool τ σ) (events : List (Event ω ι)) : Pool τ σ :=
  events.foldl (fun p event => exec create step event p) p

def Meets (C : Event ω ι → Pool τ σ → Prop) : Pool τ σ → List (Event ω ι) → Prop
  | _, [] => True
  | p, event :: events => C event p ∧ Meets C (exec create step event p) events

instance Meets.decidable (C : Event ω ι → Pool τ σ → Prop) [∀ event p, Decidable (C event p)]
    (p : Pool τ σ) :
    (events : List (Event ω ι)) → Decidable (Meets create step C p events)
  | [] => .isTrue trivial
  | event :: events =>
    have := Meets.decidable C (exec create step event p) events
    inferInstanceAs (Decidable (C event p ∧ Meets create step C (exec create step event p) events))

/-- What is kept by a new task and by a step of a task. -/
structure Kept (C : Event ω ι → Pool τ σ → Prop) (I : Pool τ σ → Prop) : Prop where
  start : ∀ p w, I p → C (.start w) p → I { p with tasks := p.tasks ++ [create w] }
  run : ∀ p k input t t' s, I p → C (.run k input) p → p.tasks[k]? = some t →
    step t input p.shared = some (t', s) → I ⟨p.tasks.set k t', s⟩

variable {create step} {C : Event ω ι → Pool τ σ → Prop} {I : Pool τ σ → Prop} {p : Pool τ σ}
/-- An invariant that starts and steps keep is kept by every event. -/
theorem Kept.exec (h : Kept create step C I) (hI : I p) {event : Event ω ι} (hC : C event p) :
    I (exec create step event p) := by
  cases event with
  | start w => exact h.start p w hI hC
  | run k input =>
    simp only [Tasks.exec]
    cases ht : p.tasks[k]? with
    | none => exact hI
    | some t =>
      cases hstep : step t input p.shared with
      | none => simpa only [hstep] using hI
      | some next => simpa only [hstep] using h.run p k input t next.1 next.2 hI hC ht hstep

theorem meets_always (p : Pool τ σ) (events : List (Event ω ι)) :
    Meets create step (fun _ _ => True) p events := by
  induction events generalizing p with
  | nil => trivial
  | cons _ _ ih => exact ⟨trivial, ih _⟩

theorem Kept.after (h : Kept create step C I) (hI : I p) {events : List (Event ω ι)}
    (hC : Meets create step C p events) : I (after create step p events) := by
  induction events generalizing p with
  | nil => exact hI
  | cons _ _ ih => exact ih (h.exec hI hC.1) hC.2
end

section
variable {τ κ : Type} {tasks : List τ} {P Q : τ → Prop} {A B A' B' : κ → Prop} {D : κ → τ → Prop}
  {k : ℕ} {t t' : τ} {locked : Bool}
def Has (P : τ → Prop) (tasks : List τ) : Prop := ∃ t ∈ tasks, P t

theorem forall_set (h : ∀ u ∈ tasks, Q u) (hQ : Q t') : ∀ u ∈ tasks.set k t', Q u := by
  intro u hu
  obtain hu | rfl := mem_or_eq_of_mem_set hu
  · exact h u hu
  · exact hQ

theorem forall_set_ne (h : ∀ j u, k ≠ j → tasks[j]? = some u → Q u) (hQ : Q t') :
    ∀ u ∈ tasks.set k t', Q u := by
  intro u hu
  obtain ⟨j, hj⟩ := getElem?_of_mem hu
  by_cases hkj : k = j
  · subst hkj
    obtain ⟨_, hku⟩ := List.getElem?_eq_some_iff.mp hj
    rw [List.getElem_set_self] at hku
    exact hku ▸ hQ
  · rw [List.getElem?_set_ne hkj] at hj
    exact h j u hkj hj

theorem forall_append (h : ∀ u ∈ tasks, Q u) (hQ : Q t') : ∀ u ∈ tasks ++ [t'], Q u := by
  intro u hu
  obtain hu | hu := mem_append.mp hu
  · exact h u hu
  · rw [mem_singleton.mp hu]
    exact hQ

/-- Where `A` holds, `B` does, or a task is about to see to it. -/
def Owed (A B : κ → Prop) (D : κ → τ → Prop) (tasks : List τ) : Prop :=
  ∀ i, A i → B i ∨ Has (D i) tasks

theorem Owed.append (h : Owed A B D tasks) (t : τ) : Owed A B D (tasks ++ [t]) := by
  intro i hA
  obtain hB | ⟨u, hu, hD⟩ := h i hA
  · exact .inl hB
  · exact .inr ⟨u, mem_append_left _ hu, hD⟩

theorem Owed.settled (h : Owed A B D tasks) (hnone : ∀ i, ∀ t ∈ tasks, ¬D i t) {i : κ} (hA : A i) :
    B i := by
  obtain hB | ⟨t, ht, hD⟩ := h i hA
  · exact hB
  · exact absurd hD (hnone i t ht)

/-- A task with `P` and a task with `Q` are one task. -/
def Apart (P Q : τ → Prop) (tasks : List τ) : Prop :=
  ∀ (j k : ℕ) t u, tasks[j]? = some t → tasks[k]? = some u → P t → Q u → j = k

theorem Apart.append (h : Apart P Q tasks) (hP : ¬P t) (hQ : ¬Q t) :
    Apart P Q (tasks ++ [t]) := by
  have hsplit {R : τ → Prop} (hR : ¬R t) (j : ℕ) (u : τ) (hu : (tasks ++ [t])[j]? = some u)
      (hRu : R u) : tasks[j]? = some u := by
    obtain hlt | hle := Nat.lt_or_ge j tasks.length
    · rw [getElem?_append_left hlt] at hu
      exact hu
    · rw [getElem?_append_right hle] at hu
      have hmem := mem_of_getElem? hu
      rw [mem_singleton.mp hmem] at hRu
      exact absurd hRu hR
  intro i j u v hu hv hPu hQv
  exact h i j u v (hsplit hP i u hu hPu) (hsplit hQ j v hv hQv) hPu hQv

def Alone (P : τ → Prop) (tasks : List τ) : Prop :=
  ∀ (j k : ℕ) t u, tasks[j]? = some t → tasks[k]? = some u → P t → P u → j = k

theorem Alone.append (h : Alone P tasks) (hP : ¬P t) : Alone P (tasks ++ [t]) :=
  Apart.append h hP hP

/-- One task at a time holds the lock, and none while it is free. -/
structure Mutex (P : τ → Prop) (locked : Bool) (tasks : List τ) : Prop where
  alone : Alone P tasks
  free : locked = false → ∀ t ∈ tasks, ¬P t

theorem Mutex.append (h : Mutex P locked tasks) (hP : ¬P t) : Mutex P locked (tasks ++ [t]) :=
  ⟨h.alone.append hP, fun hfree => forall_append (h.free hfree) hP⟩

variable (ht : tasks[k]? = some t)
include ht
theorem has_set (hP : P t') : Has P (tasks.set k t') := by
  obtain ⟨hk, _⟩ := List.getElem?_eq_some_iff.mp ht
  exact ⟨t', List.mem_set hk t', hP⟩

theorem Has.set (h : Has P tasks) (hP : ¬P t) (t' : τ) : Has P (tasks.set k t') := by
  obtain ⟨u, hu, hPu⟩ := h
  obtain ⟨j, hj⟩ := getElem?_of_mem hu
  have hkj : k ≠ j := by
    rintro rfl
    rw [ht] at hj
    exact hP (Option.some.inj hj ▸ hPu)
  have hj' : (tasks.set k t')[j]? = some u := by
    rw [List.getElem?_set_ne hkj]
    exact hj
  exact ⟨u, mem_of_getElem? hj', hPu⟩

theorem Owed.set (h : Owed A B D tasks)
    (hstep : ∀ i, A' i → ¬B' i → ¬D i t' → A i ∧ ¬B i ∧ ¬D i t) :
    Owed A' B' D (tasks.set k t') := by
  intro i hA'
  by_cases hB' : B' i
  · exact .inl hB'
  by_cases hD' : D i t'
  · exact .inr (has_set ht hD')
  obtain ⟨hA, hB, hD⟩ := hstep i hA' hB' hD'
  obtain hB2 | hHas := h i hA
  · exact absurd hB2 hB
  · exact .inr (hHas.set ht hD t')

theorem Apart.set (h : Apart P Q tasks)
    (hP : P t' → P t ∨ ¬Has Q tasks) (hQ : Q t' → Q t ∨ ¬Has P tasks) :
    Apart P Q (tasks.set k t') := by
  have hother (j : ℕ) (u : τ) (hkj : k ≠ j) (hu : (tasks.set k t')[j]? = some u) :
      tasks[j]? = some u := by
    rw [List.getElem?_set_ne hkj] at hu
    exact hu
  have hself (u : τ) (hu : (tasks.set k t')[k]? = some u) : u = t' := by
    obtain ⟨hk, _⟩ := List.getElem?_eq_some_iff.mp ht
    rw [List.getElem?_set_self hk] at hu
    exact (Option.some.inj hu).symm
  intro i j u v hu hv hPu hQv
  by_contra hij
  by_cases hki : k = i
  · subst hki
    rw [hself u hu] at hPu
    have hv := hother j v hij hv
    obtain hPt | hnone := hP hPu
    · exact hij (h k j t v ht hv hPt hQv)
    · exact hnone ⟨v, mem_of_getElem? hv, hQv⟩
  · have hu := hother i u hki hu
    by_cases hkj : k = j
    · subst hkj
      rw [hself v hv] at hQv
      obtain hQt | hnone := hQ hQv
      · exact hij (h i k u t hu ht hPu hQt)
      · exact hnone ⟨u, mem_of_getElem? hu, hPu⟩
    · exact hij (h i j u v hu (hother j v hkj hv) hPu hQv)

theorem Alone.set (h : Alone P tasks) (hP : P t' → P t ∨ ¬Has P tasks) : Alone P (tasks.set k t') :=
  Apart.set ht h hP hP

theorem Alone.forall_set {Q' : τ → Prop} (h : Alone P tasks) (hPt : P t)
    (hall : ∀ u ∈ tasks, Q u) (hQ : ∀ u, ¬P u → Q u → Q' u) (hQ' : Q' t') :
    ∀ u ∈ tasks.set k t', Q' u := by
  refine forall_set_ne (fun j u hkj hu => ?_) hQ'
  exact hQ u (fun hPu => hkj (h k j t u ht hu hPt hPu)) (hall u (mem_of_getElem? hu))

namespace Mutex
variable (h : Mutex P locked tasks)
include h
theorem outside (hP : ¬P t') : Mutex P locked (tasks.set k t') :=
  ⟨h.alone.set ht fun hP' => absurd hP' hP, fun hfree => forall_set (h.free hfree) hP⟩

theorem acquire (hfree : locked = false) : Mutex P true (tasks.set k t') := by
  refine ⟨h.alone.set ht fun _ => .inr ?_, nofun⟩
  rintro ⟨u, hu, hP⟩
  exact h.free hfree u hu hP

theorem inside (hP : P t) {locked' : Bool}
    (hrelease : locked' = false → ¬P t') : Mutex P locked' (tasks.set k t') := by
  refine ⟨h.alone.set ht fun _ => .inl hP, fun hfree => ?_⟩
  exact h.alone.forall_set (Q := fun _ => True) ht hP (fun _ _ => trivial)
    (fun _ hnot _ => hnot) (hrelease hfree)
end Mutex

variable {p : τ → Bool}
theorem countP_set_add (t' : τ) :
    (tasks.set k t').countP p + (if p t then 1 else 0) =
      tasks.countP p + (if p t' then 1 else 0) := by
  induction tasks generalizing k with
  | nil => cases ht
  | cons _ _ ih =>
    cases k with
    | zero =>
      cases ht
      simp only [set_cons_zero, countP_cons]
      omega
    | succ k =>
      have hk := ih (k := k) ht
      simp only [set_cons_succ, countP_cons]
      omega

theorem countP_set_eq {t' : τ} (h : p t' = p t) :
    (tasks.set k t').countP p = tasks.countP p := by
  have hadd := countP_set_add (p := p) ht t'
  rw [h] at hadd
  exact Nat.add_right_cancel hadd
end
end Tasks
