import Mathlib.Logic.Relation
import Tako.TaskPools

/-! One script among the steps of others: rules for what holds all along its runs and at the end.
-/
namespace Tasks
open Relation
structure Made (π : Type) (ρ : π → Type) (σ : Type) where
  call : π
  reply : ρ call
  state : σ

/-- What is said of a state and of the calls made so far. -/
abbrev Assertion (π : Type) (ρ : π → Type) (σ : Type) := σ → List (Made π ρ σ) → Prop

structure Course (π : Type) (ρ : π → Type) (σ α : Type) where
  rest : Script π ρ α
  state : σ
  made : List (Made π ρ σ)

inductive Move (ι : Type) where
  | own (input : ℕ)
  | other (o : ι)

variable {π : Type} {ρ : π → Type} {σ α β ι : Type} {x : Script π ρ α} {made : List (Made π ρ σ)}
section
variable (perform : (p : π) → σ → Option (ρ p × σ)) (others : ι → σ → Option σ)

def Course.exec (c : Course π ρ σ α) : Move ι → Course π ρ σ α
  | .own input =>
    match c.rest with
    | .ret _ => c
    | .choose next => { c with rest := next input }
    | .call p next =>
      match perform p c.state with
      | none => c
      | some (r, s) => ⟨next r, s, c.made ++ [⟨p, r, s⟩]⟩
  | .other o =>
    match others o c.state with
    | none => c
    | some s => { c with state := s }

def Course.after (c : Course π ρ σ α) (moves : List (Move ι)) : Course π ρ σ α :=
  moves.foldl (Course.exec perform others) c

/-- Every step of the others meets a condition on where it happens. -/
def Course.Meets (C : ι → Assertion π ρ σ) : Course π ρ σ α → List (Move ι) → Prop
  | _, [] => True
  | c, .own input :: moves => Course.Meets C (c.exec perform others (.own input)) moves
  | c, .other o :: moves =>
    C o c.state c.made ∧ Course.Meets C (c.exec perform others (.other o)) moves

instance Course.Meets.decidable (C : ι → Assertion π ρ σ) [∀ o s made, Decidable (C o s made)] :
    (c : Course π ρ σ α) → (moves : List (Move ι)) →
      Decidable (Course.Meets perform others C c moves)
  | _, [] => .isTrue trivial
  | c, .own input :: moves => Course.Meets.decidable C (c.exec perform others (.own input)) moves
  | c, .other o :: moves =>
    have := Course.Meets.decidable C (c.exec perform others (.other o)) moves
    inferInstanceAs (Decidable (C o c.state c.made ∧
      Course.Meets perform others C (c.exec perform others (.other o)) moves))

variable (C : ι → Assertion π ρ σ)
/-- What the others can make of a state between two steps of the script. -/
def Drifts (made : List (Made π ρ σ)) : σ → σ → Prop :=
  ReflTransGen fun s s' => ∃ o, C o s made ∧ others o s = some s'

/-- All along the run of a script `I` holds, and `Q` when it has returned. -/
def Ensures (I : Assertion π ρ σ) (Q : α → Assertion π ρ σ) : Script π ρ α → Assertion π ρ σ
  | .ret a, s, made => ∀ s', Drifts others C made s s' → I s' made ∧ Q a s' made
  | .call p next, s, made => ∀ s', Drifts others C made s s' → I s' made ∧
      ∀ r s'', perform p s' = some (r, s'') → Ensures I Q (next r) s'' (made ++ [⟨p, r, s''⟩])
  | .choose next, s, made => ∀ s', Drifts others C made s s' → I s' made ∧
      ∀ n, Ensures I Q (next n) s' made

def Stable (P : Assertion π ρ σ) : Prop :=
  ∀ o s s' made, P s made → C o s made → others o s = some s' → P s' made

variable {perform others C} {I P : Assertion π ρ σ} {Q : α → Assertion π ρ σ}
  {R : β → Assertion π ρ σ} {s s' : σ}

theorem Stable.drifts (h : Stable others C P) (hP : P s made) (hs : Drifts others C made s s') :
    P s' made := by
  induction hs with
  | refl => exact hP
  | tail _ hstep ih =>
    obtain ⟨o, hC, ho⟩ := hstep
    exact h o _ _ made ih hC ho

theorem Ensures.drifts (h : Ensures perform others C I Q x s made)
    (hs : Drifts others C made s s') : Ensures perform others C I Q x s' made := by
  cases x with
  | ret | call | choose => exact fun s'' hs' => h s'' (hs.trans hs')

theorem Ensures.invariant (h : Ensures perform others C I Q x s made) : I s made := by
  cases x with
  | ret | call | choose => exact (h s .refl).1

theorem Ensures.returned {a : α} (h : Ensures perform others C I Q (.ret a) s made) :
    Q a s made := (h s .refl).2

theorem ensures_ret {a : α} (hstable : Stable others C (Q a)) (hI : ∀ s, Q a s made → I s made)
    (h : Q a s made) : Ensures perform others C I Q (.ret a) s made := by
  intro s' hs
  have hQ := hstable.drifts h hs
  exact ⟨hI s' hQ, hQ⟩

theorem ensures_call {p : π} {next : ρ p → Script π ρ α} (hstable : Stable others C P)
    (hI : ∀ s, P s made → I s made) (h : P s made)
    (hnext : ∀ s r s', P s made → perform p s = some (r, s') →
      Ensures perform others C I Q (next r) s' (made ++ [⟨p, r, s'⟩])) :
    Ensures perform others C I Q (.call p next) s made := by
  intro s' hs
  have hP := hstable.drifts h hs
  exact ⟨hI s' hP, fun r s'' hperform => hnext s' r s'' hP hperform⟩

theorem ensures_choose {next : ℕ → Script π ρ α} (hstable : Stable others C P)
    (hI : ∀ s, P s made → I s made) (h : P s made)
    (hnext : ∀ s n, P s made → Ensures perform others C I Q (next n) s made) :
    Ensures perform others C I Q (.choose next) s made := by
  intro s' hs
  have hP := hstable.drifts h hs
  exact ⟨hI s' hP, fun n => hnext s' n hP⟩

theorem ensures_bind {f : α → Script π ρ β} (hx : Ensures perform others C I Q x s made)
    (hf : ∀ a s made, Q a s made → Ensures perform others C I R (f a) s made) :
    Ensures perform others C I R (x >>= f) s made := by
  induction x generalizing s made with
  | ret a => exact hf a s made hx.returned
  | call _ _ ih =>
    intro s' hs
    exact ⟨(hx s' hs).1, fun r s'' hperform => ih r ((hx s' hs).2 r s'' hperform)⟩
  | choose _ ih =>
    intro s' hs
    exact ⟨(hx s' hs).1, fun n => ih n ((hx s' hs).2 n)⟩

theorem Ensures.mono {Q' : α → Assertion π ρ σ} (h : Ensures perform others C I Q x s made)
    (hQ : ∀ a s made, Q a s made → Q' a s made) : Ensures perform others C I Q' x s made := by
  induction x generalizing s made with
  | ret a =>
    intro s' hs
    exact ⟨(h s' hs).1, hQ a s' made (h s' hs).2⟩
  | call _ _ ih =>
    intro s' hs
    exact ⟨(h s' hs).1, fun r s'' hperform => ih r ((h s' hs).2 r s'' hperform)⟩
  | choose _ ih =>
    intro s' hs
    exact ⟨(h s' hs).1, fun n => ih n ((h s' hs).2 n)⟩

variable {c : Course π ρ σ α}
section
variable (h : Ensures perform others C I Q c.rest c.state c.made)
include h
/-- One move, of the script or of another, keeps what is ensured. -/
theorem ensures_exec (move : Move ι) (hC : ∀ o, move = .other o → C o c.state c.made) :
    Ensures perform others C I Q (c.exec perform others move).rest
      (c.exec perform others move).state (c.exec perform others move).made := by
  obtain ⟨rest, s, _⟩ := c
  cases move with
  | own input =>
    cases rest with
    | ret => exact h
    | choose => exact (h s .refl).2 input
    | call p =>
      simp only [Course.exec]
      cases hperform : perform p s with
      | none => exact h
      | some reply => exact (h s .refl).2 reply.1 reply.2 hperform
  | other o =>
    simp only [Course.exec]
    cases ho : others o s with
    | none => exact h
    | some => exact h.drifts (.single ⟨o, hC o rfl, ho⟩)

variable {moves : List (Move ι)}
/-- What a script ensures holds after any moves that meet the condition. -/
theorem ensures_after (hC : Course.Meets perform others C c moves) :
    Ensures perform others C I Q (c.after perform others moves).rest
      (c.after perform others moves).state (c.after perform others moves).made := by
  induction moves generalizing c with
  | nil => exact h
  | cons move _ ih =>
    cases move with
    | own input =>
      have hnext := ensures_exec h (.own input) nofun
      exact ih hnext hC
    | other o =>
      have hnext := ensures_exec h (.other o) fun o' ho => by
        cases ho
        exact hC.1
      exact ih hnext hC.2

theorem ensures_after_ret (hC : Course.Meets perform others C c moves) {a : α}
    (ha : (c.after perform others moves).rest = .ret a) :
    Q a (c.after perform others moves).state (c.after perform others moves).made := by
  have hafter := ensures_after h hC
  rw [ha] at hafter
  exact hafter.returned
end

theorem meets_true (c : Course π ρ σ α) (moves : List (Move ι)) :
    Course.Meets perform others (fun _ _ _ => True) c moves := by
  induction moves generalizing c with
  | nil => trivial
  | cons move _ ih =>
    cases move with
    | own => exact ih _
    | other => exact ⟨trivial, ih _⟩
end

section
variable {μ ν : Type}
/-- A monitor reads the calls of a script and their replies. Whatever is replied, the
script makes only calls that `S` allows there, and returns as `Q` says. -/
def Script.Tracks (watch : μ → (p : π) → ρ p → μ) (S : μ → π → Prop) (Q : α → μ → Prop) :
    Script π ρ α → μ → Prop
  | .ret a, m => Q a m
  | .call p next, m => S m p ∧ ∀ r, (next r).Tracks watch S Q (watch m p r)
  | .choose next, m => ∀ n, (next n).Tracks watch S Q m

variable {watch : μ → (p : π) → ρ p → μ} {S : μ → π → Prop} {Q : α → μ → Prop} {m : μ}

theorem Script.Tracks.bind {R : β → μ → Prop} {f : α → Script π ρ β} (hx : x.Tracks watch S Q m)
    (hf : ∀ a m, Q a m → (f a).Tracks watch S R m) : (x >>= f).Tracks watch S R m := by
  induction x generalizing m with
  | ret a => exact hf a m hx
  | call _ _ ih => exact ⟨hx.1, fun r => ih r (hx.2 r)⟩
  | choose _ ih => exact fun n => ih n (hx n)

/-- What one monitor says of a script, so does another that follows it. -/
theorem Script.Tracks.follow {watch' : ν → (p : π) → ρ p → ν} {S' : ν → π → Prop}
    {Q' : α → ν → Prop} {F : μ → ν → Prop} {n : ν} (hx : x.Tracks watch S Q m)
    (hcall : ∀ m n p, F m n → S m p → S' n p ∧ ∀ r, F (watch m p r) (watch' n p r))
    (hQ : ∀ a m n, F m n → Q a m → Q' a n) (h : F m n) : x.Tracks watch' S' Q' n := by
  induction x generalizing m n with
  | ret a => exact hQ a m n h hx
  | call p _ ih =>
    obtain ⟨hS, hrel⟩ := hcall m n p h hx.1
    exact ⟨hS, fun r => ih r (hx.2 r) (hrel r)⟩
  | choose _ ih => exact fun k => ih k (hx k) h

theorem Script.Tracks.mono {R : α → μ → Prop} (hx : x.Tracks watch S Q m)
    (hQ : ∀ a m, Q a m → R a m) : x.Tracks watch S R m := by
  refine hx.follow (F := Eq) ?_ ?_ rfl
  · rintro m _ p rfl hS
    exact ⟨hS, fun _ => rfl⟩
  · rintro a m _ rfl
    exact hQ a m

variable {perform : (p : π) → σ → Option (ρ p × σ)} {others : ι → σ → Option σ}
  {C : ι → Assertion π ρ σ} {I : Assertion π ρ σ} {s : σ}
/-- A script does on the state what its monitor says of it, if every call does. -/
theorem ensures_tracks {P : μ → Assertion π ρ σ} (hx : x.Tracks watch S Q m)
    (hstable : ∀ m, Stable others C (P m)) (hI : ∀ m s made, P m s made → I s made)
    (hkeeps : ∀ m p s r s' made, S m p → P m s made → perform p s = some (r, s') →
      P (watch m p r) s' (made ++ [⟨p, r, s'⟩])) (h : P m s made) :
    Ensures perform others C I (fun a s made => ∃ m, Q a m ∧ P m s made) x s made := by
  induction x generalizing m s made with
  | ret =>
    intro s' hs
    have hP := (hstable m).drifts h hs
    exact ⟨hI m s' made hP, m, hx, hP⟩
  | call p _ ih =>
    refine ensures_call (hstable m) (fun s => hI m s made) h fun s r s' hP hperform => ?_
    exact ih r (hx.2 r) (hkeeps m p s r s' made hx.1 hP hperform)
  | choose _ ih =>
    exact ensures_choose (hstable m) (fun s => hI m s made) h fun s n hP => ih n (hx n) hP

/-- What the monitor has made of the calls so far. -/
def reading (watch : μ → (p : π) → ρ p → μ) (m : μ) (made : List (Made π ρ σ)) : μ :=
  made.foldl (fun m c => watch m c.call c.reply) m

theorem Ensures.reading {R : α → Assertion π ρ σ} (h : Ensures perform others C I R x s made)
    (hx : x.Tracks watch S Q (reading watch m made)) :
    Ensures perform others C I
      (fun a s made => R a s made ∧ Q a (reading watch m made)) x s made := by
  induction x generalizing s made with
  | ret => exact fun s' hs => ⟨(h s' hs).1, (h s' hs).2, hx⟩
  | call p _ ih =>
    refine fun s' hs => ⟨(h s' hs).1, fun r s'' hperform => ?_⟩
    refine ih r ((h s' hs).2 r s'' hperform) ?_
    rw [Tasks.reading, List.foldl_append]
    exact hx.2 r
  | choose _ ih => exact fun s' hs => ⟨(h s' hs).1, fun n => ih n ((h s' hs).2 n) (hx n)⟩
end

section
variable {π' : Type} {ρ' : π' → Type} {σ' κ ι' : Type}
/-- A script of calls as one of the calls of a larger system. -/
def Script.lift (f : π → π') (g : ∀ p, ρ' (f p) → ρ p) : Script π ρ α → Script π' ρ' α
  | .ret a => .ret a
  | .call p next => .call (f p) fun r => (next (g p r)).lift f g
  | .choose next => .choose fun n => (next n).lift f g

/-- The larger system does on a part of its state what the calls do, and leaves the
rest alone. -/
structure Embeds (perform : (p : π) → σ → Option (ρ p × σ))
    (perform' : (p : π') → σ' → Option (ρ' p × σ')) (others : ι → σ → Option σ)
    (others' : ι' → σ' → Option σ') (C : ι → Prop) (f : π → π') (g : ∀ p, ρ' (f p) → ρ p)
    (view : σ' → σ) (rest : σ' → κ) : Prop where
  calls : ∀ p s r s', perform' (f p) s = some (r, s') →
    perform p (view s) = some (g p r, view s') ∧ rest s' = rest s
  others : ∀ o s s', others' o s = some s' →
    (∃ o', C o' ∧ others o' (view s) = some (view s')) ∧ rest s' = rest s

variable {perform : (p : π) → σ → Option (ρ p × σ)}
  {perform' : (p : π') → σ' → Option (ρ' p × σ')} {others : ι → σ → Option σ}
  {others' : ι' → σ' → Option σ'} {C : ι → Prop} {f : π → π'} {g : ∀ p, ρ' (f p) → ρ p}
  {view : σ' → σ} {rest : σ' → κ} {Q : α → σ → Prop}

theorem Script.Tracks.lift {μ : Type} {watch : μ → (p : π) → ρ p → μ}
    {watch' : μ → (p : π') → ρ' p → μ} {S : μ → π' → Prop} {R : α → μ → Prop} {m : μ}
    (hwatch : ∀ m p r, watch' m (f p) r = watch m p (g p r))
    (hx : x.Tracks watch (fun m p => S m (f p)) R m) : (x.lift f g).Tracks watch' S R m := by
  induction x generalizing m with
  | ret => exact hx
  | call p _ ih =>
    refine ⟨hx.1, fun r => ih _ ?_⟩
    rw [hwatch]
    exact hx.2 _
  | choose _ ih => exact fun n => ih n (hx n)

variable {made' : List (Made π' ρ' σ')}
theorem Embeds.drifts (h : Embeds perform perform' others others' C f g view rest) {s s' : σ'}
    (hs : Drifts others' (fun _ _ _ => True) made' s s') :
    Drifts others (fun o _ _ => C o) made (view s) (view s') ∧ rest s' = rest s := by
  induction hs with
  | refl => exact ⟨.refl, rfl⟩
  | tail _ hstep ih =>
    obtain ⟨o, _, ho⟩ := hstep
    obtain ⟨hview, hrest⟩ := h.others o _ _ ho
    exact ⟨ih.1.tail hview, hrest.trans ih.2⟩

theorem Embeds.ensures (h : Embeds perform perform' others others' C f g view rest) {s : σ'}
    (hx : Ensures perform others (fun o _ _ => C o) (fun _ _ => True) (fun a s _ => Q a s) x
      (view s) made) : Ensures perform' others' (fun _ _ _ => True) (fun _ _ => True)
      (fun a s' _ => Q a (view s') ∧ rest s' = rest s) (x.lift f g) s made' := by
  induction x generalizing s made made' with
  | ret =>
    intro s' hs
    obtain ⟨hview, hrest⟩ := h.drifts hs
    exact ⟨trivial, (hx (view s') hview).2, hrest⟩
  | call p _ ih =>
    intro s' hs
    obtain ⟨hview, hrest⟩ := h.drifts hs
    refine ⟨trivial, fun r s'' hperform => ?_⟩
    obtain ⟨hperform, hrest'⟩ := h.calls p s' r s'' hperform
    refine (ih (g p r) ((hx (view s') hview).2 _ _ hperform)).mono fun a t _ ht => ?_
    exact ⟨ht.1, ht.2.trans (hrest'.trans hrest)⟩
  | choose _ ih =>
    intro s' hs
    obtain ⟨hview, hrest⟩ := h.drifts hs
    refine ⟨trivial, fun n => ?_⟩
    exact (ih n ((hx (view s') hview).2 n)).mono fun a t _ ht => ⟨ht.1, ht.2.trans hrest⟩
end
end Tasks
