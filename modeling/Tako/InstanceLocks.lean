import Mathlib.Logic.Relation
import Tako.InstanceOperations

/-! The methods of an app at the granularity of their locks. One that takes the transition mutex
makes several accesses under it; the removal of an instance makes three without it. -/
namespace Tako.Instances
open Tasks
/-- What is left to do under the transition mutex, and after it. -/
inductive Locked where
  -- `set_instance_health_state` looks at the state first
  | guard (i : InstanceId) (s : InstanceState) (refused accepted : Operation Unit)
  | swap (i : InstanceId) (s : InstanceState) (next : InstanceState → Operation Unit)
  | unlist (i : InstanceId) (next : Operation Unit)
  | refresh (i : InstanceId) (next : Operation Unit)
  -- `add_healthy_instance`, and the instances of a rollout that come after it
  | look (i : InstanceId) (rest : List InstanceId) (next : Operation Unit)
  | push (i : InstanceId) (rest : List InstanceId) (next : Operation Unit)
  | mark (i : InstanceId) (next : Operation Unit)
  -- `enable_instance_routing_locked`
  | unmark (i : InstanceId) (rest : List InstanceId) (next : Bool → Operation Unit)
  | verify (i : InstanceId) (rest : List InstanceId) (next : Bool → Operation Unit)
  -- the first loop of `enable_rollout_routing`
  | check (left ids : List InstanceId)
      (next : Except (InstanceId × InstanceState) Unit → Operation Unit)
  | unlock (next : Operation Unit)

namespace Locked
def enableRest (rest : List InstanceId) (next : Operation Unit) : Locked :=
  match rest with
  | [] => .unlock next
  | i :: rest => .unmark i rest fun _ => next

/-- What `set_instance_state_locked` does after it has swapped the state. -/
def swapped (i : InstanceId) (previous s : InstanceState) (next : Operation Unit) : Locked :=
  if previous = s then
    if s = .healthy then .refresh i next else .unlock next
  else if previous = .healthy then .unlist i next
  else if s = .healthy then .look i [] next
  else .unlock next

/-- One access under the mutex. The mutex is released last. -/
def step : Locked → App → Locked × App
  | .guard i s refused accepted, a =>
    (if a.stateOf i = .draining ∨ a.stateOf i = .stopped then .unlock refused
      else .swap i s fun _ => accepted, a)
  | .swap i s next, a => (swapped i (a.stateOf i) s (next (a.stateOf i)), a.setState i s)
  | .unlist i next, a => (.unlock next, a.removeHealthyInstance i)
  | .refresh i next, a => (.unlock next, a.refreshHealthyInstance i)
  | .look i rest next, a =>
    (if i ∈ a.routingSuppressed then enableRest rest next else .push i rest next, a)
  | .push i rest next, a => (enableRest rest next, a.pushHealthyInstance i)
  | .mark i next, a => (.unlist i next, a.suppress i)
  | .unmark i rest next, a => (.verify i rest next, a.unsuppress i)
  | .verify i rest next, a =>
    (if a.stateOf i = .healthy then .look i rest (next true) else enableRest rest (next false), a)
  | .check [] ids next, a => (enableRest ids (next (.ok ())), a)
  | .check (i :: left) ids next, a =>
    (if a.stateOf i = .healthy then .check left ids next
      else .unlock (next (.error (i, a.stateOf i))), a)
  | .unlock next, a => (.unlock next, a)
end Locked

/-- A task: between two calls, at the transition mutex, under it, or in the
removal of an instance. -/
inductive Task where
  | running (rest : Operation Unit)
  | waiting (body : Locked)
  | holding (body : Locked)
  | unsuppressing (i : InstanceId) (next : Operation Unit)
  | unlisting (i : InstanceId) (next : Operation Unit)

namespace Task
def enter (p : Call) (next : p.Reply → Operation Unit) (a : App) : Option (Task × App) :=
  match p, next with
  | .setInstanceState i s, next => some (.waiting (.swap i s next), a)
  | .setInstanceHealthState i s, next => some (.waiting (.guard i s (next false) (next true)), a)
  | .suppressInstanceRouting i, next => some (.waiting (.mark i (next ())), a)
  | .enableInstanceRouting i, next => some (.waiting (.unmark i [] next), a)
  | .enableRolloutRouting ids, next => some (.waiting (.check ids ids next), a)
  | .removeInstance i, next =>
    if i ∈ a.instances then some (.unsuppressing i (next true), a.unregister i)
    else some (.running (next false), a)
  | p, next => (perform p a).map fun reply => (.running (next reply.1), reply.2)

/-- One access of a task; `input` is what it does not control. -/
def step (t : Task) (input : ℕ) (a : App) : Option (Task × App) :=
  match t with
  | .running (.ret ()) => none
  | .running (.choose next) => some (.running (next input), a)
  | .running (.call p next) => enter p next a
  | .waiting body =>
    if a.instanceTransitions then none
    else some (.holding body, { a with instanceTransitions := true })
  | .holding (.unlock next) => some (.running next, { a with instanceTransitions := false })
  | .holding body => some (.holding (body.step a).1, (body.step a).2)
  | .unsuppressing i next => some (.unlisting i next, a.unsuppress i)
  | .unlisting i next => some (.running next, a.removeHealthyInstance i)

def finished : Task → Bool
  | .running (.ret ()) => true
  | _ => false
end Task

/-- The operations that run side by side, and the exit of a process. -/
inductive Command where
  | allocateInstance
  | spawn (i : InstanceId)
  | checkInstance (health : Operation.HealthConfig) (i : InstanceId)
  | update (r : Operation.RollingUpdateConfig) (config : AppConfig) (target : ℕ)
  | startApp (count : ℕ)
  | stopApp
  | kill (i : InstanceId)
  | suppressInstanceRouting (i : InstanceId)
  | enableInstanceRouting (i : InstanceId)
  | removeInstance (i : InstanceId)
  | exit (i : InstanceId)

def Command.operation : Command → Operation Unit
  | .allocateInstance => do let _ ← Operation.invoke .allocateInstance
  | .spawn i => do let _ ← Operation.spawn i
  | .checkInstance health i => Operation.checkInstance health i
  | .update r config target => do let _ ← Operation.update r config target
  | .startApp count => do let _ ← Operation.startInstances count
  | .stopApp => do let _ ← Operation.stopApp
  | .kill i => do let _ ← Operation.kill i
  | .suppressInstanceRouting i => Operation.invoke (.suppressInstanceRouting i)
  | .enableInstanceRouting i => do let _ ← Operation.invoke (.enableInstanceRouting i)
  | .removeInstance i => do let _ ← Operation.invoke (.removeInstance i)
  | .exit i => Operation.invoke (.exit i)

def Command.task (command : Command) : Task := .running command.operation

abbrev Work := Pool Task App

abbrev Moment := Event Command ℕ

def work (config : AppConfig) (events : List Moment) : Work :=
  after Command.task Task.step ⟨[], App.new config⟩ events

def Quiet (w : Work) : Prop := ∀ t ∈ w.tasks, t.finished = true

instance (w : Work) : Decidable (Quiet w) :=
  inferInstanceAs (Decidable (∀ t ∈ w.tasks, t.finished = true))

/-! A call that no other task comes between does what it does in one step. -/

def StepsTo (x y : Task × App) : Prop := ∃ input, x.1.step input x.2 = some y

abbrev RunsTo := Relation.ReflTransGen StepsTo

section
open Relation
variable {a a' : App} {i : InstanceId} {rest : List InstanceId} {next : Operation Unit}
def Accesses (x y : Locked × App) : Prop := (∀ next, x.1 ≠ .unlock next) ∧ x.1.step x.2 = y

abbrev Holds := ReflTransGen Accesses

theorem holds_access (body : Locked) (h : ∀ next, body ≠ .unlock next) :
    Holds (body, a) (body.step a) := .single ⟨h, rfl⟩

theorem holds_look :
    Holds (.look i rest next, a) (Locked.enableRest rest next, a.addHealthyInstance i) := by
  have hlook := holds_access (a := a) (.look i rest next) nofun
  by_cases hs : i ∈ a.routingSuppressed
  · simpa only [Locked.step, if_pos hs, App.addHealthyInstance] using hlook
  · have hpush := holds_access (a := a) (.push i rest next) nofun
    simp only [Locked.step, if_neg hs] at hlook
    rw [App.addHealthyInstance, if_neg hs]
    exact hlook.trans hpush

theorem holds_swap {s : InstanceState} (reply : InstanceState → Operation Unit) :
    Holds (.swap i s reply, a)
      (.unlock (reply (a.stateOf i)), (a.setInstanceStateLocked i s).2) := by
  have hswap := holds_access (a := a) (.swap i s reply) nofun
  refine hswap.trans ?_
  simp only [Locked.step, Locked.swapped, App.setInstanceStateLocked]
  split_ifs with hsame hhealthy hwas his
  · exact holds_access (.refresh i _) nofun
  · exact .refl
  · exact holds_access (.unlist i _) nofun
  · exact holds_look
  · exact .refl

theorem holds_unmark (rest : List InstanceId) (reply : Bool → Operation Unit) :
    Holds (.unmark i rest reply, a) (Locked.enableRest rest (reply (a.enableInstanceRouting i).1),
        (a.enableInstanceRouting i).2) := by
  have hunmark := holds_access (a := a) (.unmark i rest reply) nofun
  have hverify := holds_access (a := a.unsuppress i) (.verify i rest reply) nofun
  refine (hunmark.trans hverify).trans ?_
  by_cases hhealthy : (a.unsuppress i).stateOf i = .healthy
  · simp only [Locked.step, App.enableInstanceRouting, if_pos hhealthy]
    exact holds_look
  · simp only [Locked.step, App.enableInstanceRouting, if_neg hhealthy]
    exact .refl

theorem holds_enableRest : Holds (Locked.enableRest rest next, a)
    (.unlock next, rest.foldl (fun a i => (a.enableInstanceRouting i).2) a) := by
  induction rest generalizing a with
  | nil => exact .refl
  | cons i rest ih => exact (holds_unmark rest _).trans ih

variable {reply : Except (InstanceId × InstanceState) Unit → Operation Unit}
  {left ids : List InstanceId}

theorem holds_check (h : ∀ i ∈ left, a.stateOf i = .healthy) :
    Holds (.check left ids reply, a) (Locked.enableRest ids (reply (.ok ())), a) := by
  induction left with
  | nil => exact holds_access (.check [] ids reply) nofun
  | cons i left ih =>
    have hcheck := holds_access (a := a) (.check (i :: left) ids reply) nofun
    simp only [Locked.step, if_pos (h i List.mem_cons_self)] at hcheck
    exact hcheck.trans (ih fun j hj => h j (List.mem_cons_of_mem i hj))

theorem holds_check_error (h : left.find? (fun i => a.stateOf i ≠ .healthy) = some i) :
    Holds (.check left ids reply, a) (.unlock (reply (.error (i, a.stateOf i))), a) := by
  induction left with
  | nil => cases h
  | cons j left ih =>
    have hcheck := holds_access (a := a) (.check (j :: left) ids reply) nofun
    by_cases hhealthy : a.stateOf j = .healthy
    · simp only [Locked.step, if_pos hhealthy] at hcheck
      rw [List.find?_cons_of_neg (by simpa using hhealthy)] at h
      exact hcheck.trans (ih h)
    · simp only [Locked.step, if_neg hhealthy] at hcheck
      rw [List.find?_cons_of_pos (by simpa using hhealthy)] at h
      rw [← Option.some.inj h]
      exact hcheck

def App.setLock (b : Bool) (a : App) : App := { a with instanceTransitions := b }

theorem step_setLock (b : Bool) (body : Locked) :
    body.step (a.setLock b) = ((body.step a).1, (body.step a).2.setLock b) := by
  cases body with
  | push i =>
    have hpush : (a.setLock b).pushHealthyInstance i = (a.pushHealthyInstance i).setLock b := by
      rw [App.pushHealthyInstance, App.pushHealthyInstance, apply_ite (App.setLock b)]
      rfl
    rw [Locked.step, hpush]
    rfl
  | check left => cases left <;> rfl
  | _ => rfl

theorem Locked.step_instanceTransitions (body : Locked) (a : App) :
    (body.step a).2.instanceTransitions = a.instanceTransitions :=
  congrArg (·.2.instanceTransitions) (step_setLock _ body)

theorem Holds.instanceTransitions {x y : Locked × App} (h : Holds x y) :
    y.2.instanceTransitions = x.2.instanceTransitions := by
  induction h with
  | refl => rfl
  | tail _ hstep ih =>
    obtain ⟨_, rfl⟩ := hstep
    exact (Locked.step_instanceTransitions _ _).trans ih

theorem runsTo_locked {body : Locked} (hfree : a.instanceTransitions = false)
    (h : Holds (body, a) (.unlock next, a')) : RunsTo (.waiting body, a) (.running next, a') := by
  have hacquire : StepsTo (.waiting body, a) (.holding body, a.setLock true) := by
    refine ⟨0, ?_⟩
    simp only [Task.step, hfree]
    rfl
  have hstep (x y : Locked × App) (hxy : Accesses x y) :
      StepsTo (.holding x.1, x.2.setLock true) (.holding y.1, y.2.setLock true) := by
    obtain ⟨body, b⟩ := x
    obtain ⟨hx, rfl⟩ := hxy
    have hlock := congrArg (fun z => some (Task.holding z.1, z.2)) (step_setLock (a := b) true body)
    cases body with
    | unlock next => exact absurd rfl (hx next)
    | _ => exact ⟨0, hlock⟩
  have hheld := ReflTransGen.lift (fun x => (Task.holding x.1, x.2.setLock true)) hstep _ _ h
  have hrelease : StepsTo (.holding (.unlock next), a'.setLock true) (.running next, a') := by
    have hsame : a' = (a'.setLock true).setLock false := by
      rw [← hfree, ← h.instanceTransitions]
      rfl
    rw [hsame]
    exact ⟨0, rfl⟩
  exact (ReflTransGen.head hacquire hheld).tail hrelease

theorem runsTo_setInstanceHealthState {s : InstanceState} (refused accepted : Operation Unit)
    (hfree : a.instanceTransitions = false) : RunsTo (.waiting (.guard i s refused accepted), a)
      (.running (if (a.setInstanceHealthState i s).1 then accepted else refused),
        (a.setInstanceHealthState i s).2) := by
  apply runsTo_locked hfree
  have hguard := holds_access (a := a) (.guard i s refused accepted) nofun
  by_cases hlate : a.stateOf i = .draining ∨ a.stateOf i = .stopped
  · simp only [Locked.step, if_pos hlate] at hguard
    simp only [App.setInstanceHealthState, if_pos hlate]
    exact hguard
  · simp only [Locked.step, if_neg hlate] at hguard
    simp only [App.setInstanceHealthState, if_neg hlate]
    exact hguard.trans (holds_swap fun _ => accepted)

theorem runsTo_enableRolloutRouting (ids : List InstanceId)
    (reply : Except (InstanceId × InstanceState) Unit → Operation Unit)
    (hfree : a.instanceTransitions = false) : RunsTo (.waiting (.check ids ids reply), a)
      (.running (reply (a.enableRolloutRouting ids).1), (a.enableRolloutRouting ids).2) := by
  apply runsTo_locked hfree
  cases hfind : ids.find? (fun i => a.stateOf i ≠ .healthy) with
  | some =>
    simp only [App.enableRolloutRouting, hfind]
    exact holds_check_error hfind
  | none =>
    simp only [App.enableRolloutRouting, hfind]
    have hall : ∀ i ∈ ids, a.stateOf i = .healthy := by simpa using hfind
    exact (holds_check hall).trans holds_enableRest

theorem runsTo_call {p : Call} {reply : p.Reply → Operation Unit} {r : p.Reply}
    (hfree : a.instanceTransitions = false) (h : perform p a = some (r, a')) :
    RunsTo (.running (.call p reply), a) (.running (reply r), a') := by
  have hfirst {t : Task} {b : App} (henter : Task.enter p reply a = some (t, b)) :
      RunsTo (.running (.call p reply), a) (t, b) := .single ⟨0, henter⟩
  cases p
  case setInstanceState i s =>
    obtain ⟨rfl, rfl⟩ := Prod.mk.inj (Option.some.inj h)
    exact (hfirst rfl).trans (runsTo_locked hfree (holds_swap reply))
  case setInstanceHealthState i s =>
    have heq : a.setInstanceHealthState i s = (r, a') := Option.some.inj h
    have hrun := runsTo_setInstanceHealthState (i := i) (s := s) (reply false) (reply true) hfree
    rw [heq] at hrun
    cases r <;> exact (hfirst rfl).trans hrun
  case suppressInstanceRouting i =>
    cases h
    have hmark := holds_access (a := a) (.mark i (reply ())) nofun
    have hunlist := holds_access (a := a.suppress i) (.unlist i (reply ())) nofun
    exact (hfirst rfl).trans (runsTo_locked hfree (hmark.trans hunlist))
  case enableInstanceRouting i =>
    obtain ⟨rfl, rfl⟩ := Prod.mk.inj (Option.some.inj h)
    exact (hfirst rfl).trans (runsTo_locked hfree (holds_unmark [] reply))
  case enableRolloutRouting ids =>
    have heq : a.enableRolloutRouting ids = (r, a') := Option.some.inj h
    have hrun := runsTo_enableRolloutRouting ids reply hfree
    rw [heq] at hrun
    exact (hfirst rfl).trans hrun
  case removeInstance i =>
    have heq : a.removeInstance i = (r, a') := Option.some.inj h
    by_cases hi : i ∈ a.instances
    · rw [App.removeInstance, if_pos hi] at heq
      cases heq
      have henter := hfirst (if_pos hi)
      exact (henter.tail ⟨0, rfl⟩).tail ⟨0, rfl⟩
    · rw [App.removeInstance, if_neg hi] at heq
      cases heq
      exact hfirst (if_neg hi)
  all_goals
    refine hfirst ?_
    simp only [Task.enter, h, Option.map_some]

theorem runsTo_call_health :
    RunsTo (.running (.call (.setInstanceHealthState 0 .healthy) fun _ => .ret ()),
        (App.new {}).allocateInstance.2)
      (.running (.ret ()), ((App.new {}).allocateInstance.2.setInstanceHealthState 0 .healthy).2) :=
  runsTo_call rfl rfl
end
end Tako.Instances
