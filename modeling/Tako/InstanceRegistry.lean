import Tako.InstanceRollout

/-! An app seen from its registry, while nothing but requests, the clock and exits of processes
goes on besides. -/
namespace Tako.Instances
open Tasks Function
structure Registry where
  config : AppConfig
  allocated : ℕ
  instances : List InstanceId
  states : InstanceId → InstanceState

def App.registry (a : App) : Registry := ⟨a.config, a.allocated, a.instances, a.stateOf⟩

namespace Registry
variable (R : Registry) (i : InstanceId)
def set (s : InstanceState) : Registry := { R with states := Function.update R.states i s }

def allocate : Registry :=
  { R with allocated := R.allocated + 1
           instances := R.instances ++ [R.allocated]
           states := Function.update R.states R.allocated .starting }

def remove : Registry := { R with instances := R.instances.filter (· ≠ i) }
end Registry

def Outside.Calm : Outside → Prop
  | .check _ _ => False
  | _ => True

theorem App.registry_modify (a : App) (i : InstanceId) (f : Instance → Instance) :
    (a.modify i f).registry = a.registry.set i (f (a.objects i)).state := by
  have hstates : (a.modify i f).stateOf = Function.update a.stateOf i (f (a.objects i)).state :=
    comp_update Instance.state a.objects i _
  rw [App.registry, hstates]
  rfl

theorem Registry.set_self (R : Registry) (i : InstanceId) : R.set i (R.states i) = R := by
  rw [Registry.set, update_eq_self]

theorem Registry.set_set (R : Registry) (i : InstanceId) (s s' : InstanceState) :
    (R.set i s).set i s' = R.set i s' := by
  simp only [Registry.set, update_idem]

variable {i : InstanceId} {a : App}
theorem App.registry_modify_of_state {f : Instance → Instance}
    (hf : (f (a.objects i)).state = (a.objects i).state) :
    (a.modify i f).registry = a.registry := by
  rw [App.registry_modify, hf]
  exact Registry.set_self ..

theorem registry_calm {first : ℕ} {o : Outside} {a' : App} (ho : o.Calm)
    (h : o.apply first a = some a') : a'.registry = a.registry := by
  cases o with
  | check => cases ho
  | exit =>
    simp only [Outside.apply] at h
    split at h <;> cases h
    refine App.registry_modify_of_state ?_
    rfl
  | inFlight =>
    cases h
    refine App.registry_modify_of_state ?_
    rfl
  | tick =>
    cases h
    rfl

/-- However the operation goes on from an app with this registry, `Q` holds of its
result and of the registry then. -/
def Returns {α : Type} (Q : α → Registry → Prop) (x : Operation α) (R : Registry) : Prop :=
  ∀ a made, a.registry = R →
    Ensures perform (Outside.apply 0) (fun o _ _ => o.Calm) (fun _ _ => True)
      (fun r a _ => Q r a.registry) x a made

section
open Operation
variable {α β : Type} {Q : α → Registry → Prop} {Q' : β → Registry → Prop} {R : Registry}

theorem stable_registry (R : Registry) :
    Stable (ρ := Call.Reply) (π := Call) (Outside.apply 0) (fun o _ _ => o.Calm)
      (fun a _ => a.registry = R) := by
  intro _ _ _ _ h hC ho
  exact (registry_calm hC ho).trans h

theorem returns_ret {r : α} (h : Q r R) : Returns Q (pure r) R := by
  intro _ _ ha a' hdrifts
  have ha' : a'.registry = R := (stable_registry R).drifts ha hdrifts
  have hQ : Q r a'.registry := ha'.symm ▸ h
  exact ⟨trivial, hQ⟩

variable {p : Call} {f : p.Reply → Operation α}
theorem returns_call
    (h : ∀ a r a', a.registry = R → perform p a = some (r, a') → Returns Q (f r) a'.registry) :
    Returns Q (invoke p >>= f) R := by
  intro a _ ha
  refine ensures_call (stable_registry R) (fun _ _ => trivial) ha fun a r a' ha hperform => ?_
  exact h a r a' ha hperform a' _ rfl

theorem returns_pick {f : ℕ → Operation α} (h : ∀ n, Returns Q (f n) R) :
    Returns Q (pick >>= f) R := by
  intro a made ha
  exact ensures_choose (stable_registry R) (fun _ _ => trivial) ha fun a n ha => h n a made ha

variable {x : Operation α}
theorem returns_bind {f : α → Operation β} (hx : Returns Q x R)
    (hf : ∀ r R', Q r R' → Returns Q' (f r) R') : Returns Q' (x >>= f) R := by
  intro a made ha
  exact ensures_bind (hx a made ha) fun r a made hQ => hf r a.registry hQ a made rfl

theorem Returns.mono {Q' : α → Registry → Prop} (h : Returns Q x R)
    (hQ : ∀ r R', Q r R' → Q' r R') : Returns Q' x R := by
  intro a made ha
  exact (h a made ha).mono fun r a _ hr => hQ r a.registry hr

theorem returns_same (hp : ∀ a r a', perform p a = some (r, a') → a'.registry = a.registry)
    (h : ∀ r, Returns Q (f r) R) : Returns Q (invoke p >>= f) R := by
  refine returns_call fun a r a' ha hperform => ?_
  rw [hp a r a' hperform, ha]
  exact h r

theorem returns_reads {g : Registry → p.Reply} (hp : ∀ a, perform p a = some (g a.registry, a))
    (h : Returns Q (f (g R)) R) : Returns Q (invoke p >>= f) R := by
  refine returns_call fun a r a' ha hperform => ?_
  rw [hp] at hperform
  cases hperform
  rw [ha]
  exact h

theorem returns_getInstances {f : List InstanceId → Operation α} (h : Returns Q (f R.instances) R) :
    Returns Q (invoke .getInstances >>= f) R :=
  returns_reads (g := Registry.instances) (fun _ => rfl) h

variable {f : InstanceState → Operation α}
theorem returns_state (h : Returns Q (f (R.states i)) R) :
    Returns Q (invoke (.state i) >>= f) R :=
  returns_reads (g := fun R => R.states i) (fun _ => rfl) h

theorem returns_updateConfig {config : AppConfig} {f : Unit → Operation α}
    (h : Returns Q (f ()) { R with config := config }) :
    Returns Q (invoke (.updateConfig config) >>= f) R := by
  refine returns_call fun a r a' ha hperform => ?_
  cases hperform
  have hnew : App.registry { a with config := config } = { a.registry with config := config } := rfl
  rw [hnew, ha]
  exact h

theorem returns_allocateInstance {f : InstanceId → Operation α}
    (h : Returns Q (f R.allocated) R.allocate) : Returns Q (invoke .allocateInstance >>= f) R := by
  refine returns_call fun a r a' ha hperform => ?_
  obtain ⟨hr, ha'⟩ := eq_of_some_pair hperform
  have hnew : (a.allocateInstance.2).registry = a.registry.allocate := by
    have hstates : (a.allocateInstance.2).stateOf =
        Function.update a.stateOf a.allocated .starting :=
      comp_update Instance.state a.objects a.allocated _
    rw [App.registry, hstates]
    rfl
  have hallocated : a.allocateInstance.1 = R.allocated := congrArg Registry.allocated ha
  rw [← hr, ← ha', hnew, ha, hallocated]
  exact h

theorem registry_removeInstance (a : App) :
    (a.removeInstance i).2.registry = a.registry.remove i := by
  rw [App.removeInstance]
  split
  · rfl
  · rename_i hmem
    have hremove : a.registry.remove i = { a.registry with
        instances := a.instances.filter (· ≠ i) } := rfl
    rw [hremove, filter_ne_of_notMem hmem]
    rfl

theorem returns_removeInstance {f : Bool → Operation α} (h : ∀ r, Returns Q (f r) (R.remove i)) :
    Returns Q (invoke (.removeInstance i) >>= f) R := by
  refine returns_call fun a r a' ha hperform => ?_
  obtain ⟨_, ha'⟩ := eq_of_some_pair hperform
  rw [← ha', registry_removeInstance, ha]
  exact h r

theorem registry_setInstanceStateLocked (a : App) (s : InstanceState) :
    (a.setInstanceStateLocked i s).2.registry = a.registry.set i s := by
  obtain ⟨healthy, heq, _⟩ := a.setInstanceStateLocked_eq (i := i) (s := s)
  have hset : (a.setState i s).registry = a.registry.set i s := a.registry_modify i _
  rw [heq]
  exact hset

theorem returns_setInstanceState {s : InstanceState} (h : ∀ r, Returns Q (f r) (R.set i s)) :
    Returns Q (invoke (.setInstanceState i s) >>= f) R := by
  refine returns_call fun a r a' ha hperform => ?_
  obtain ⟨_, ha'⟩ := eq_of_some_pair hperform
  rw [← ha', registry_setInstanceStateLocked, ha]
  exact h r

theorem registry_works {t : Trail} {r : p.Reply} {a' : App} (hp : p.Works i t)
    (h : perform p a = some (r, a')) :
    a'.registry = a.registry.set i (p.stateSet.getD (a.registry.states i)) := by
  obtain ⟨f, _, _, rfl, _, _, hf⟩ := adjusts hp h
  have hmodify := a.registry_modify i f
  rw [(hf _).2.1] at hmodify
  exact hmodify

/-- An operation on one instance sets its state as its calls do. -/
theorem returns_trails {Q : α → Trail → Prop} {t : Trail} (hx : Trails i Q x t)
    (ht : t.state = R.states i) : Returns (fun r R' => ∃ t, Q r t ∧ R' = R.set i t.state) x R := by
  intro a made ha
  refine ensures_tracks (P := fun t (a : App) _ => a.registry = R.set i t.state) hx ?_
    (fun _ _ _ _ => trivial) ?_ ?_
  · intro t o a a' made hs hC ho
    exact (registry_calm hC ho).trans hs
  · intro t p a r a' made hp hs hperform
    rw [registry_works hp hperform, hs, Registry.set_set]
    simp only [Registry.set, update_self]
    rfl
  · rw [ha, ht, Registry.set_self]
end
end Tako.Instances
