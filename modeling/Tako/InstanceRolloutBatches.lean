import Tako.InstanceRollout

/-! The batches of a rolling update: each new instance is started behind its suppression, and
removed again when one of them fails. -/
namespace Tako.Instances
open Tasks List Function
namespace Rollout
open Operation
variable {i : InstanceId} {t : Trail} {seen : List Observation} {batch : List InstanceId}
section
variable {α : Type}
/-- Every look found its instance healthy. -/
def Fine (seen : List Observation) : Prop := ∀ i s, .look i s ∈ seen → s = .healthy

theorem Fine.append {later : List Observation} (h : Fine seen) (hlater : Fine later) :
    Fine (seen ++ later) := fun i s hs => (mem_append.mp hs).elim (h i s) (hlater i s)

end

section
variable {u : Rollout} {total : ℕ} {live started : List InstanceId} {a : App} {made : Log}
  {α : Type} {Q : α → App → Log → Prop}
def firsts (u : Rollout) (n : ℕ) : List InstanceId := List.range' u.before.allocated n

def Covers (u : Rollout) : ℕ → List ℕ → Prop
  | k, [] => k = u.target
  | k, start :: rest => k = start ∧ start < u.target ∧
      u.Covers (min (start + u.r.batchSize) u.target) rest

/-- What is known while an operation on one new instance is under way. -/
def Attaching (u : Rollout) (total : ℕ) (live started : List InstanceId) (seen : List Observation)
    (i : InstanceId) (t : Trail) (a : App) (made : Log) : Prop :=
  (∀ config, t.config = some config → config = u.config) ∧
    u.Growing total live (if t.attached then i :: started else started) seen a made

variable [hbefore : Fact u.before.Numbered]
theorem Attaching.works {p : Call} {r : p.Reply} {a' : App}
    (h : u.Attaching total live started seen i t a made) (hi : i ∈ live) (hnot : i ∉ started)
    (hp : p.Works i t) (hperform : perform p a = some (r, a')) :
    u.Attaching total live started seen i (t.next p r) a' (made ++ [⟨p, r, a'⟩]) := by
  obtain ⟨hconfig, h⟩ := h
  constructor
  · intro config hnext
    cases p
    case config =>
      obtain ⟨rfl, _⟩ := eq_of_some_pair hperform
      obtain rfl : a.config = config := Option.some.inj hnext
      exact h.config
    all_goals exact hconfig config hnext
  · refine h.adjusts hp hi hperform fun j hj => ?_
    have hmem (hj : j ∈ started) : j ∈ if t.attached then i :: started else started := by
      split
      · exact mem_cons_of_mem i hj
      · exact hj
    cases hprocess : p.process with
    | none =>
      simp only [Trail.next, hprocess, Option.map_none, Option.getD_none] at hj
      by_cases hji : j = i
      · exact .inr ⟨hji, hji ▸ h.attached j hj⟩
      · exact .inl ⟨hji, hj⟩
    | some process =>
      simp only [Trail.next, hprocess, Option.map_some, Option.getD_some] at hj
      cases process with
      | none => exact .inl ⟨fun hji => hnot (hji ▸ hj), hmem hj⟩
      | some config =>
        have hread : t.config = some config := by
          cases p <;> cases hprocess
          exact hp.2
        obtain rfl | hj := mem_cons.mp hj
        · exact .inr ⟨rfl, congrArg some (hconfig config hread)⟩
        · exact .inl ⟨fun hji => hnot (hji ▸ hj), hmem hj⟩

section
variable (h : u.Growing total live started seen a made)
include h
end

/-- A new instance is registered and has yet to be withheld from routing; it is
starting, so that no check touches it. -/
structure Allocated (u : Rollout) (total : ℕ) (live started : List InstanceId)
    (seen : List Observation) (a : App) (made : Log) : Prop where
  grown : u.Growing total live started seen
    { a with instances := u.before.instances ++ live, allocated := u.before.allocated + total }
    made
  instances : a.instances = u.before.instances ++ (live ++ [u.before.allocated + total])
  allocated : a.allocated = u.before.allocated + (total + 1)
  starting : a.stateOf (u.before.allocated + total) = .starting
  built : (a.objects (u.before.allocated + total)).buildVersion = u.config.version

namespace Allocated
omit hbefore in
theorem modify (h : u.Allocated total live started seen a made) {f : Instance → Instance}
    (hversion : ∀ instance_, (f instance_).buildVersion = instance_.buildVersion)
    (hprocess : i ∈ started → ∀ instance_,
      (f instance_).process.map Child.startedFrom = instance_.process.map Child.startedFrom)
    (hstate : i = u.before.allocated + total → ∀ instance_, (f instance_).state = instance_.state) :
    u.Allocated total live started seen (a.modify i f) made where
  __ := h
  grown := h.grown.modify hversion hprocess
  starting := App.modify_kept _ h.starting fun hi => hstate hi.symm
  built := App.modify_kept _ h.built fun _ => hversion

theorem serving (h : u.Allocated total live started seen a made) : u.Serving a made :=
  { h.grown.serving with }

theorem steady : u.Steady (u.Allocated total live started seen) := by
  refine steady_of (fun a made i s h hle hstarting hC => ?_) (fun a made i f h hkept _ => ?_)
    fun a made now h => { h with grown := h.grown.of_now now }
  · have hmem : i ∈ u.before.instances ++ (live ++ [u.before.allocated + total]) :=
      h.instances ▸ hC.1
    have hne : i ≠ u.before.allocated + total := fun hi => hstarting (hi ▸ h.starting)
    obtain hold | hnew := mem_append.mp hmem
    · exact absurd (hbefore.out.instances i hold) (Nat.not_lt_of_le hle)
    obtain hnew | hlast := mem_append.mp hnew
    · have hs : i ∈ a.routingSuppressed := (h.grown.withheld i hnew).2.2
      have hr : i ∉ a.routed := h.grown.notMem_routed hle
      simp only [App.setInstanceHealthState]
      split_ifs
      · exact h
      · rw [App.setInstanceStateLocked_of_suppressed hs hr]
        exact h.modify (fun _ => rfl) (fun _ _ => rfl) fun hi => absurd hi hne
    · exact absurd (mem_singleton.mp hlast) hne
  · exact h.modify (fun x => (hkept x).1) (fun _ x => (hkept x).2.2) fun _ x => (hkept x).2.1
end Allocated

abbrev Grown (u : Rollout) (n : ℕ) (seen : List Observation) (a : App)
    (made : Log) : Prop :=
  u.Growing n (u.firsts n) (u.firsts n) seen a made

def Undone (u : Rollout) (a : App) (made : Log) : Prop :=
  ∃ total seen, u.Growing total [] [] seen a made

end
end Rollout

end Tako.Instances
