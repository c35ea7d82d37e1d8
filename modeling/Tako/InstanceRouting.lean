import Tako.InstanceLocks

/-! The routing list against the registry, the states and the suppressed instances. Each has a
lock of its own, so between two accesses they disagree; what is missing is owed by a task. -/
namespace Tako.Instances
open Tasks List Function
/-- The instance whose state or process a call changes without the transition
mutex. -/
def Call.touches : Call → Option InstanceId
  | .setReady i => some i
  | .setStopped i => some i
  | .takeProcess i => some i
  | .awaitExit i => some i
  | _ => none

/-- An instance that is put into the routing list is registered, healthy and has
its process, and what happens outside the transition mutex happens to instances
that are not in it. -/
def careful (moment : Moment) (w : Work) : Bool :=
  match moment with
  | .start _ => true
  | .run k _ =>
    match w.tasks[k]? with
    | some (.holding (.push i _ _)) =>
      decide (i ∈ w.shared.instances ∧ w.shared.stateOf i = .healthy ∧
        (w.shared.objects i).process.isSome)
    | some (.running (.call p _)) =>
      match p.touches with
      | some i => decide (i ∉ w.shared.routed)
      | none => true
    | _ => true

def Locked.Entry : Locked → Prop
  | .guard _ _ _ _ => True
  | .swap _ _ _ => True
  | .mark _ _ => True
  | .unmark _ _ _ => True
  | .check _ _ _ => True
  | _ => False

def App.Routable (a : App) (i : InstanceId) : Prop :=
  i ∈ a.instances ∧ a.stateOf i = .healthy ∧ i ∉ a.routingSuppressed

namespace Task
def Holds : Task → Prop
  | .holding _ => True
  | _ => False

variable (i : InstanceId)
def Leaving : Task → Prop
  | .unsuppressing j _ => j = i
  | .unlisting j _ => j = i
  | _ => False

def Unlisting : Task → Prop
  | .holding (.unlist j _) => j = i
  | _ => False

def Adding : Task → Prop
  | .holding (.verify j _ _) => j = i
  | .holding (.look j _ _) => j = i
  | .holding (.push j _ _) => j = i
  | _ => False

def Relies (a : App) : Task → Prop
  | .waiting body => body.Entry
  | .holding (.push i _ _) => i ∉ a.routingSuppressed
  | .holding (.unlist i _) => ¬a.Routable i
  | .unsuppressing i _ => i ∉ a.instances ∧ i < a.allocated
  | .unlisting i _ => i ∉ a.instances ∧ i < a.allocated
  | _ => True

structure Free (t : Task) : Prop where
  leaving : ∀ i, ¬t.Leaving i
  unlisting : ∀ i, ¬t.Unlisting i
  adding : ∀ i, ¬t.Adding i

theorem free_running (rest : Operation Unit) : Free (.running rest) :=
  ⟨fun _ => id, fun _ => id, fun _ => id⟩

theorem free_waiting (body : Locked) : Free (.waiting body) :=
  ⟨fun _ => id, fun _ => id, fun _ => id⟩

theorem free_of_finished {t : Task} (h : t.finished = true) : Free t := by
  cases t with
  | running rest => exact free_running rest
  | waiting body => exact free_waiting body
  | holding | unsuppressing | unlisting => cases h

theorem relies_entry (a : App) {body : Locked} (h : body.Entry) : Relies a (.holding body) := by
  cases body <;> first | exact h.elim | trivial
end Task

/-- A change that the routing list does not see: the states are what they were, or
one that is not healthy. -/
structure App.Unseen (a a' : App) : Prop where
  instances : a'.instances = a.instances
  routed : a'.routed = a.routed
  suppressed : a'.routingSuppressed = a.routingSuppressed
  allocated : a'.allocated = a.allocated
  state : ∀ i ∈ a.routed, a'.stateOf i = a.stateOf i
  healthy : ∀ i, a'.stateOf i = .healthy → a.stateOf i = .healthy
  process : ∀ i ∈ a.routed, (a.objects i).process.isSome → (a'.objects i).process.isSome

variable {w : Work} {k : ℕ} {t t' : Task} {a a' : App} {i : InstanceId}
namespace App.Unseen
theorem refl (a : App) : a.Unseen a :=
  ⟨rfl, rfl, rfl, rfl, fun _ _ => rfl, fun _ => id, fun _ _ => id⟩

variable {f : Instance → Instance}
theorem modify_of (hrouted : i ∈ a.routed → (f (a.objects i)).state = a.stateOf i ∧
      ((a.objects i).process.isSome → (f (a.objects i)).process.isSome))
    (hhealthy : (f (a.objects i)).state = .healthy → a.stateOf i = .healthy) :
    a.Unseen (a.modify i f) := by
  have hcases (j : InstanceId) : (a.modify i f).objects j = a.objects j ∨
      j = i ∧ (a.modify i f).objects j = f (a.objects j) := by
    by_cases hj : j = i
    · subst hj
      exact .inr ⟨rfl, update_self ..⟩
    · exact .inl (update_of_ne hj ..)
  refine ⟨rfl, rfl, rfl, rfl, fun j hj => ?_, fun j hj => ?_, fun j hj hsome => ?_⟩
  · obtain heq | ⟨rfl, heq⟩ := hcases j
    · rw [App.stateOf, heq, App.stateOf]
    · rw [App.stateOf, heq]
      exact (hrouted hj).1
  · obtain heq | ⟨rfl, heq⟩ := hcases j
    · rwa [App.stateOf, heq] at hj
    · rw [App.stateOf, heq] at hj
      exact hhealthy hj
  · obtain heq | ⟨rfl, heq⟩ := hcases j
    · rwa [heq]
    · rw [heq]
      exact (hrouted hj).2 hsome

theorem modify (hstate : ∀ instance_, (f instance_).state = instance_.state)
    (hprocess : ∀ instance_, instance_.process.isSome → (f instance_).process.isSome) :
    a.Unseen (a.modify i f) :=
  modify_of (fun _ => ⟨hstate _, hprocess _⟩) fun h => (hstate _).symm.trans h

theorem modify_of_notMem (hi : i ∉ a.routed)
    (hstate : ∀ instance_, (f instance_).state = .healthy → instance_.state = .healthy) :
    a.Unseen (a.modify i f) :=
  modify_of (fun hmem => absurd hmem hi) (hstate _)

theorem routable (h : a.Unseen a') (hi : a'.Routable i) : a.Routable i :=
  ⟨h.instances ▸ hi.1, h.healthy i hi.2.1, h.suppressed ▸ hi.2.2⟩

theorem setState (hi : i ∉ a.routed) {s : InstanceState} (hs : s ≠ .healthy) :
    a.Unseen (a.setState i s) :=
  modify_of_notMem hi fun _ h => absurd h hs
end App.Unseen

section
variable {p : Call} {next : p.Reply → Operation Unit}

inductive Enters (a : App) : Task → App → Prop where
  | waits {body : Locked} : body.Entry → Enters a (.waiting body) a
  | removes {i : InstanceId} {rest : Operation Unit} :
    i ∈ a.instances → Enters a (.unsuppressing i rest) (a.unregister i)
  | allocates {rest : Operation Unit} : Enters a (.running rest) a.allocateInstance.2
  | unseen {rest : Operation Unit} {a' : App} : a.Unseen a' →
    a'.instanceTransitions = a.instanceTransitions → Enters a (.running rest) a'

theorem enters (h : Task.enter p next a = some (t', a'))
    (htouches : ∀ i, p.touches = some i → i ∉ a.routed) : Enters a t' a' := by
  have hsame (rest : Operation Unit) : Enters a (.running rest) a :=
    .unseen (.refl a) rfl
  cases p
  case setInstanceState | setInstanceHealthState | suppressInstanceRouting |
      enableInstanceRouting | enableRolloutRouting =>
    simp only [Task.enter, Option.some.injEq, Prod.mk.injEq] at h
    obtain ⟨rfl, rfl⟩ := h
    exact .waits trivial
  case removeInstance i =>
    simp only [Task.enter] at h
    by_cases hi : i ∈ a.instances
    · rw [if_pos hi] at h
      cases h
      exact .removes hi
    · rw [if_neg hi] at h
      cases h
      exact hsame _
  case allocateInstance =>
    cases h
    exact .allocates
  case setReady i | setStopped i =>
    cases h
    exact .unseen (.setState (htouches i rfl) (by decide)) rfl
  case takeProcess i =>
    cases h
    dsimp only
    refine .unseen (.modify_of_notMem (htouches i rfl) ?_) rfl
    exact fun _ => id
  case awaitExit i =>
    simp only [Task.enter, perform] at h
    by_cases hi : (a.objects i).isAlive
    · rw [if_pos hi] at h
      cases h
    · rw [if_neg hi] at h
      cases h
      dsimp only
      refine .unseen (.modify_of_notMem (htouches i rfl) ?_) rfl
      exact fun _ => id
  case lockStop i =>
    simp only [Task.enter, perform] at h
    by_cases hi : (a.objects i).stopLock
    · rw [if_pos hi] at h
      cases h
    · rw [if_neg hi] at h
      cases h
      dsimp only
      refine .unseen (.modify ?_ ?_) rfl
      exacts [fun _ => rfl, fun _ => id]
  case awaitStarted i =>
    simp only [Task.enter, perform] at h
    cases hi : a.stateOf i <;> rw [hi] at h <;> cases h <;> exact hsame _
  case awaitDrained | sleepUntil =>
    simp only [Task.enter, perform] at h
    split at h <;> cases h
    exact hsame _
  case never => cases h
  case setProcess =>
    cases h
    dsimp only
    refine .unseen (.modify ?_ ?_) rfl
    exacts [fun _ => rfl, fun _ _ => rfl]
  case exit =>
    cases h
    dsimp only
    refine .unseen (.modify ?_ ?_) rfl
    · exact fun _ => rfl
    · intro _ _
      rwa [Option.isSome_map]
  case setPort | cleanupUpstream | setContainer | clearCompose | unlockStop =>
    cases h
    dsimp only
    refine .unseen (.modify ?_ ?_) rfl
    exacts [fun _ => rfl, fun _ => id]
  case updateConfig | setAppState | clearFailures | addFailure | send | logStopFailure =>
    cases h
    exact .unseen { App.Unseen.refl a with } rfl
  all_goals
    cases h
    exact hsame _

inductive Steps (a : App) : Task → Task → App → Prop where
  | chooses {next : ℕ → Operation Unit} {input : ℕ} :
    Steps a (.running (.choose next)) (.running (next input)) a
  | enters {p : Call} {next : p.Reply → Operation Unit} {t' : Task} {a' : App} :
    Enters a t' a' → Steps a (.running (.call p next)) t' a'
  | acquires {body : Locked} : a.instanceTransitions = false →
    Steps a (.waiting body) (.holding body) { a with instanceTransitions := true }
  | accesses {body : Locked} : Steps a (.holding body) (.holding (body.step a).1) (body.step a).2
  | releases {next : Operation Unit} : Steps a (.holding (.unlock next)) (.running next)
      { a with instanceTransitions := false }
  | unsuppresses {i : InstanceId} {next : Operation Unit} :
    Steps a (.unsuppressing i next) (.unlisting i next) (a.unsuppress i)
  | unlists {i : InstanceId} {next : Operation Unit} :
    Steps a (.unlisting i next) (.running next) (a.removeHealthyInstance i)

/-- What a task does in one step, where the router sees no touch of an unlocked call. -/
theorem steps {input : ℕ} (h : t.step input a = some (t', a'))
    (htouches : ∀ p next i, t = .running (.call p next) → p.touches = some i → i ∉ a.routed) :
    Steps a t t' a' := by
  cases t with
  | running rest =>
    cases rest with
    | ret => cases h
    | choose =>
      cases h
      exact .chooses
    | call p next => exact .enters (enters h fun i => htouches p next i rfl)
  | waiting =>
    simp only [Task.step] at h
    cases hfree : a.instanceTransitions with
    | true =>
      rw [hfree] at h
      cases h
    | false =>
      rw [hfree] at h
      cases h
      exact .acquires hfree
  | holding body =>
    cases body with
    | unlock =>
      cases h
      exact .releases
    | _ =>
      cases h
      exact .accesses
  | unsuppressing =>
    cases h
    exact .unsuppresses
  | unlisting =>
    cases h
    exact .unlists
end

abbrev Exclusive (w : Work) : Prop := Mutex Task.Holds w.shared.instanceTransitions w.tasks

theorem Exclusive.steps (h : Exclusive w) (ht : w.tasks[k]? = some t)
    (hstep : Steps w.shared t t' a) : Exclusive ⟨w.tasks.set k t', a⟩ := by
  cases hstep with
  | chooses | unsuppresses | unlists => exact h.outside ht id
  | enters hentered =>
    cases hentered with
    | waits | removes | allocates => exact h.outside ht id
    | unseen _ ha =>
      refine ⟨(h.outside ht id).alone, fun hfree => ?_⟩
      rw [ha] at hfree
      exact (h.outside ht id).free hfree
  | acquires hfree => exact h.acquire ht hfree
  | accesses =>
    refine h.inside ht trivial fun hfree => ?_
    rw [Locked.step_instanceTransitions] at hfree
    exact absurd trivial (h.free hfree _ (mem_of_getElem? ht))
  | releases => exact h.inside ht trivial fun _ => id

structure Routing (w : Work) : Prop where
  relies : ∀ t ∈ w.tasks, t.Relies w.shared
  known : ∀ i ∈ w.shared.instances, i < w.shared.allocated
  nodup : w.shared.routed.Nodup
  registered : Owed (· ∈ w.shared.routed) (· ∈ w.shared.instances) Task.Leaving w.tasks
  healthy : Owed (· ∈ w.shared.routed) (w.shared.stateOf · = .healthy) Task.Unlisting w.tasks
  unsuppressed :
    Owed (· ∈ w.shared.routed) (· ∉ w.shared.routingSuppressed) Task.Unlisting w.tasks
  complete : Owed w.shared.Routable (· ∈ w.shared.routed) Task.Adding w.tasks
  backed : ∀ i ∈ w.shared.routed, (w.shared.objects i).process.isSome

namespace Routing
variable (h : Routing w)
include h
theorem lt_allocated (hi : i ∈ w.shared.routed) : i < w.shared.allocated := by
  obtain hreg | ⟨t, ht, hleaving⟩ := h.registered i hi
  · exact h.known i hreg
  · have hrelies := h.relies t ht
    cases t with
    | unsuppressing | unlisting => exact hleaving ▸ hrelies.2
    | _ => cases hleaving

omit h in
theorem relies_of_le {u : Task} {b : App} (h : u.Relies b)
    (hinstances : ∀ i ∈ a.instances, i ∈ b.instances ∨ b.allocated ≤ i)
    (hallocated : b.allocated ≤ a.allocated)
    (hsuppressed : ∀ i ∈ a.routingSuppressed, i ∈ b.routingSuppressed)
    (hroutable : ∀ i, a.Routable i → b.Routable i) : u.Relies a := by
  have hgone {i : InstanceId} (hi : i ∉ b.instances ∧ i < b.allocated) :
      i ∉ a.instances ∧ i < a.allocated := by
    refine ⟨fun hmem => ?_, Nat.lt_of_lt_of_le hi.2 hallocated⟩
    obtain hmem | hle := hinstances i hmem
    · exact hi.1 hmem
    · exact Nat.not_lt_of_le hle hi.2
  cases u with
  | running => trivial
  | waiting => exact h
  | holding body =>
    cases body with
    | push i => exact fun hmem => h (hsuppressed i hmem)
    | unlist i => exact fun hr => h (hroutable i hr)
    | _ => trivial
  | unsuppressing | unlisting => exact hgone h

section
variable (ht : w.tasks[k]? = some t) (hfree : t.Free)
include ht hfree
theorem unseen (hseen : w.shared.Unseen a)
    (hrelies : t'.Relies a) : Routing ⟨w.tasks.set k t', a⟩ where
  relies := by
    refine forall_set (fun u hu => relies_of_le (h.relies u hu) ?_ ?_ ?_ ?_) hrelies
    · exact fun i hi => .inl (hseen.instances ▸ hi)
    · exact Nat.le_of_eq hseen.allocated.symm
    · exact fun i hi => hseen.suppressed ▸ hi
    · exact fun i => hseen.routable
  known i hi := by
    rw [hseen.allocated]
    exact h.known i (hseen.instances ▸ hi)
  nodup := hseen.routed ▸ h.nodup
  registered := by
    refine h.registered.set ht fun i hi hnot _ => ?_
    exact ⟨hseen.routed ▸ hi, hseen.instances ▸ hnot, hfree.leaving i⟩
  healthy := by
    refine h.healthy.set ht fun i hi hnot _ => ?_
    have hmem : i ∈ w.shared.routed := hseen.routed ▸ hi
    exact ⟨hmem, fun hh => hnot ((hseen.state i hmem).trans hh), hfree.unlisting i⟩
  unsuppressed := by
    refine h.unsuppressed.set ht fun i hi hnot _ => ?_
    exact ⟨hseen.routed ▸ hi, hseen.suppressed ▸ hnot, hfree.unlisting i⟩
  complete := by
    refine h.complete.set ht fun i hi hnot _ => ?_
    exact ⟨hseen.routable hi, hseen.routed ▸ hnot, hfree.adding i⟩
  backed i hi := by
    have hmem : i ∈ w.shared.routed := hseen.routed ▸ hi
    exact hseen.process i hmem (h.backed i hmem)

theorem allocates (rest : Operation Unit) :
    Routing ⟨w.tasks.set k (.running rest), w.shared.allocateInstance.2⟩ := by
  have hstate (i : InstanceId) : w.shared.allocateInstance.2.stateOf i =
      if i = w.shared.allocated then .starting else w.shared.stateOf i := by
    by_cases hi : i = w.shared.allocated
    · simp only [hi, App.stateOf, App.allocateInstance, update_self, if_pos]
    · simp only [App.stateOf, App.allocateInstance, update_of_ne hi, if_neg hi]
  have hold {i : InstanceId} (hi : w.shared.allocateInstance.2.stateOf i = .healthy) :
      i ≠ w.shared.allocated ∧ w.shared.stateOf i = .healthy := by
    rw [hstate] at hi
    split at hi
    · cases hi
    · exact ⟨‹_›, hi⟩
  have hreg {i : InstanceId} (hi : i ∈ w.shared.allocateInstance.2.instances)
      (hne : i ≠ w.shared.allocated) : i ∈ w.shared.instances := by
    obtain hi | hi := mem_append.mp hi
    · exact hi
    · exact absurd (mem_singleton.mp hi) hne
  have hroutable {i : InstanceId} (hi : w.shared.allocateInstance.2.Routable i) :
      w.shared.Routable i := by
    obtain ⟨hne, hhealthy⟩ := hold hi.2.1
    exact ⟨hreg hi.1 hne, hhealthy, hi.2.2⟩
  constructor
  · refine forall_set (fun u hu => relies_of_le (h.relies u hu) ?_ ?_ ?_ ?_) trivial
    · intro i hi
      by_cases hne : i = w.shared.allocated
      · exact .inr (Nat.le_of_eq hne.symm)
      · exact .inl (hreg hi hne)
    · exact Nat.le_succ _
    · exact fun _ => id
    · exact fun _ => hroutable
  · intro i hi
    by_cases hne : i = w.shared.allocated
    · rw [hne]
      exact Nat.lt_succ_self _
    · exact Nat.lt_succ_of_lt (h.known i (hreg hi hne))
  · exact h.nodup
  · refine h.registered.set ht fun i hi hnot _ => ?_
    exact ⟨hi, fun hmem => hnot (mem_append_left _ hmem), hfree.leaving i⟩
  · refine h.healthy.set ht fun i hi hnot _ => ?_
    have hne : i ≠ w.shared.allocated := Nat.ne_of_lt (h.lt_allocated hi)
    rw [hstate, if_neg hne] at hnot
    exact ⟨hi, hnot, hfree.unlisting i⟩
  · exact h.unsuppressed.set ht fun i hi hnot _ => ⟨hi, hnot, hfree.unlisting i⟩
  · exact h.complete.set ht fun i hi hnot _ => ⟨hroutable hi, hnot, hfree.adding i⟩
  · intro i hi
    have hne : i ≠ w.shared.allocated := Nat.ne_of_lt (h.lt_allocated hi)
    simp only [App.allocateInstance, update_of_ne hne]
    exact h.backed i hi

theorem removes (hi : i ∈ w.shared.instances)
    (rest : Operation Unit) :
    Routing ⟨w.tasks.set k (.unsuppressing i rest), w.shared.unregister i⟩ := by
  have hroutable {j : InstanceId} (hj : (w.shared.unregister i).Routable j) :
      w.shared.Routable j := ⟨(App.mem_unregister.mp hj.1).1, hj.2⟩
  constructor
  · refine forall_set (fun u hu => relies_of_le (h.relies u hu) ?_ ?_ ?_ ?_) ?_
    · exact fun j hj => .inl (App.mem_unregister.mp hj).1
    · exact Nat.le_refl _
    · exact fun _ => id
    · exact fun j => hroutable
    · exact ⟨fun hmem => (App.mem_unregister.mp hmem).2 rfl, h.known i hi⟩
  · exact fun j hj => h.known j (App.mem_unregister.mp hj).1
  · exact h.nodup
  · refine h.registered.set ht fun j hj hnot hduty => ?_
    have hne : j ≠ i := fun hji => hduty hji.symm
    exact ⟨hj, fun hmem => hnot (App.mem_unregister.mpr ⟨hmem, hne⟩), hfree.leaving j⟩
  · exact h.healthy.set ht fun j hj hnot _ => ⟨hj, hnot, hfree.unlisting j⟩
  · exact h.unsuppressed.set ht fun j hj hnot _ => ⟨hj, hnot, hfree.unlisting j⟩
  · exact h.complete.set ht fun j hj hnot _ => ⟨hroutable hj, hnot, hfree.adding j⟩
  · exact h.backed
end

variable {next : Operation Unit}
theorem unsuppresses (ht : w.tasks[k]? = some (.unsuppressing i next)) :
    Routing ⟨w.tasks.set k (.unlisting i next), w.shared.unsuppress i⟩ := by
  have hgone : i ∉ w.shared.instances ∧ i < w.shared.allocated := h.relies _ (mem_of_getElem? ht)
  have hroutable {j : InstanceId} (hj : (w.shared.unsuppress i).Routable j) :
      w.shared.Routable j := by
    have hne : j ≠ i := fun hji => hgone.1 (hji ▸ hj.1)
    exact ⟨hj.1, hj.2.1, fun hs => hj.2.2 (App.mem_unsuppress.mpr ⟨hs, hne⟩)⟩
  constructor
  · refine forall_set (fun u hu => relies_of_le (h.relies u hu) ?_ ?_ ?_ ?_) hgone
    · exact fun _ => .inl
    · exact Nat.le_refl _
    · exact fun j hj => (App.mem_unsuppress.mp hj).1
    · exact fun j => hroutable
  · exact h.known
  · exact h.nodup
  · exact h.registered.set ht fun j hj hnot hduty => ⟨hj, hnot, hduty⟩
  · exact h.healthy.set ht fun j hj hnot _ => ⟨hj, hnot, id⟩
  · refine h.unsuppressed.set ht fun j hj hnot _ => ?_
    exact ⟨hj, fun hopen => hnot fun hs => hopen (App.mem_unsuppress.mp hs).1, id⟩
  · exact h.complete.set ht fun j hj hnot _ => ⟨hroutable hj, hnot, id⟩
  · exact h.backed

theorem unlists (ht : w.tasks[k]? = some (.unlisting i next)) :
    Routing ⟨w.tasks.set k (.running next), w.shared.removeHealthyInstance i⟩ := by
  have hgone : i ∉ w.shared.instances ∧ i < w.shared.allocated := h.relies _ (mem_of_getElem? ht)
  have hstays {j : InstanceId} (hj : j ∈ (w.shared.removeHealthyInstance i).routed) :
      j ∈ w.shared.routed ∧ j ≠ i := App.mem_routed_removeHealthyInstance.mp hj
  constructor
  · exact forall_set h.relies trivial
  · exact h.known
  · rw [App.routed_removeHealthyInstance]
    exact h.nodup.filter _
  · refine h.registered.set ht fun j hj hnot _ => ?_
    exact ⟨(hstays hj).1, hnot, fun hji => (hstays hj).2 hji.symm⟩
  · exact h.healthy.set ht fun j hj hnot _ => ⟨(hstays hj).1, hnot, id⟩
  · exact h.unsuppressed.set ht fun j hj hnot _ => ⟨(hstays hj).1, hnot, id⟩
  · refine h.complete.set ht fun j hj hnot _ => ?_
    have hne : j ≠ i := fun hji => hgone.1 (hji ▸ hj.1)
    exact ⟨hj, fun hmem => hnot (App.mem_routed_removeHealthyInstance.mpr ⟨hmem, hne⟩), id⟩
  · exact fun j hj => h.backed j (hstays hj).1

section
variable {body : Locked} {rest : List InstanceId} (hex : Exclusive w)

include hex
theorem inside (ht : w.tasks[k]? = some (.holding body))
    (hinstances : a.instances = w.shared.instances) (hallocated : a.allocated = w.shared.allocated)
    (hrelies : t'.Relies a) (hnodup : a.routed.Nodup)
    (hregistered : ∀ j ∈ a.routed, j ∈ w.shared.routed ∨ j ∈ w.shared.instances)
    (hhealthy : ∀ j ∈ a.routed, a.stateOf j ≠ .healthy → ¬t'.Unlisting j →
      j ∈ w.shared.routed ∧ w.shared.stateOf j ≠ .healthy ∧ ¬(Task.holding body).Unlisting j)
    (hopen : ∀ j ∈ a.routed, ¬j ∉ a.routingSuppressed → ¬t'.Unlisting j →
      j ∈ w.shared.routed ∧ ¬j ∉ w.shared.routingSuppressed ∧ ¬(Task.holding body).Unlisting j)
    (hcomplete : ∀ j, a.Routable j → j ∉ a.routed → ¬t'.Adding j →
      w.shared.Routable j ∧ j ∉ w.shared.routed ∧ ¬(Task.holding body).Adding j)
    (hbacked : ∀ j ∈ a.routed, (a.objects j).process.isSome) : Routing ⟨w.tasks.set k t', a⟩ where
  relies := by
    refine hex.alone.forall_set ht trivial h.relies (fun u hnot hu => ?_) hrelies
    cases u with
    | running => trivial
    | waiting => exact hu
    | holding => exact absurd trivial hnot
    | unsuppressing | unlisting => exact ⟨hinstances ▸ hu.1, hallocated ▸ hu.2⟩
  known j hj := by
    rw [hallocated]
    exact h.known j (hinstances ▸ hj)
  nodup := hnodup
  registered := by
    refine h.registered.set ht fun j hj hnot _ => ?_
    have hnot : j ∉ w.shared.instances := hinstances ▸ hnot
    obtain hmem | hreg := hregistered j hj
    · exact ⟨hmem, hnot, id⟩
    · exact absurd hreg hnot
  healthy := h.healthy.set ht hhealthy
  unsuppressed := h.unsuppressed.set ht hopen
  complete := h.complete.set ht hcomplete
  backed := hbacked

omit h hex in
theorem free_enableRest (rest : List InstanceId) (next : Operation Unit) :
    (Task.holding (Locked.enableRest rest next)).Free ∧
      ∀ a, (Task.holding (Locked.enableRest rest next)).Relies a := by
  cases rest with
  | nil | cons => exact ⟨⟨fun _ => id, fun _ => id, fun _ => id⟩, fun _ => trivial⟩

theorem swap {s : InstanceState} {reply : InstanceState → Operation Unit}
    (ht : w.tasks[k]? = some (.holding (.swap i s reply))) :
    Routing ⟨w.tasks.set k (.holding (Locked.swapped i (w.shared.stateOf i) s next)),
      w.shared.setState i s⟩ := by
  have hself : (w.shared.setState i s).stateOf i = s := App.stateOf_setState_self
  have hother {j : InstanceId} (hj : j ≠ i) :
      (w.shared.setState i s).stateOf j = w.shared.stateOf j := App.stateOf_setState_of_ne hj
  refine h.inside hex ht (by rfl) (by rfl) ?_ ?_ ?_ ?_ ?_ ?_ ?_
  · -- only an instance that stops being healthy is taken out of the list
    unfold Locked.swapped
    split_ifs with hsame hhealthy hwas his
    · trivial
    · trivial
    · intro hr
      exact hsame (hwas.trans (hself.symm.trans hr.2.1).symm)
    · trivial
    · trivial
  · exact h.nodup
  · exact fun _ => .inl
  · intro j hj hnot hduty
    by_cases hji : j = i
    · subst hji
      rw [hself] at hnot
      refine ⟨hj, fun hwas => hduty ?_, id⟩
      rw [Locked.swapped, hwas, if_neg (Ne.symm hnot), if_pos rfl]
      rfl
    · exact ⟨hj, hother hji ▸ hnot, id⟩
  · exact fun j hj hnot _ => ⟨hj, hnot, id⟩
  · intro j hj hnot hduty
    by_cases hji : j = i
    · subst hji
      have his : s = .healthy := hself.symm.trans hj.2.1
      refine ⟨⟨hj.1, ?_, hj.2.2⟩, hnot, id⟩
      by_contra hwas
      refine hduty ?_
      rw [Locked.swapped, his, if_neg hwas, if_neg hwas, if_pos rfl]
      rfl
    · exact ⟨⟨hj.1, hother hji ▸ hj.2.1, hj.2.2⟩, hnot, id⟩
  · intro j hj
    have hprocess : ((w.shared.setState i s).objects j).process = (w.shared.objects j).process := by
      by_cases hji : j = i
      · subst hji
        simp only [App.setState, App.modify, update_self]
      · simp only [App.setState, App.modify, update_of_ne hji]
    rw [hprocess]
    exact h.backed j hj

theorem unlist (ht : w.tasks[k]? = some (.holding (.unlist i next))) :
    Routing ⟨w.tasks.set k (.holding (.unlock next)), w.shared.removeHealthyInstance i⟩ := by
  have hnotRoutable : ¬w.shared.Routable i := h.relies _ (mem_of_getElem? ht)
  have hstays {j : InstanceId} (hj : j ∈ (w.shared.removeHealthyInstance i).routed) :
      j ∈ w.shared.routed ∧ j ≠ i := App.mem_routed_removeHealthyInstance.mp hj
  refine h.inside hex ht (by rfl) (by rfl) ?_ ?_ ?_ ?_ ?_ ?_ ?_
  · trivial
  · rw [App.routed_removeHealthyInstance]
    exact h.nodup.filter _
  · exact fun j hj => .inl (hstays hj).1
  · exact fun j hj hnot _ => ⟨(hstays hj).1, hnot, fun hij => (hstays hj).2 hij.symm⟩
  · exact fun j hj hnot _ => ⟨(hstays hj).1, hnot, fun hij => (hstays hj).2 hij.symm⟩
  · intro j hj hnot _
    have hne : j ≠ i := fun hji => hnotRoutable (hji ▸ hj)
    exact ⟨hj, fun hmem => hnot (App.mem_routed_removeHealthyInstance.mpr ⟨hmem, hne⟩), id⟩
  · exact fun j hj => h.backed j (hstays hj).1

theorem looks (ht : w.tasks[k]? = some (.holding body)) (hrelies : t'.Relies w.shared)
    (hunlisting : ∀ j, ¬(Task.holding body).Unlisting j)
    (hadding : ∀ j, w.shared.Routable j → (Task.holding body).Adding j → t'.Adding j) :
    Routing ⟨w.tasks.set k t', w.shared⟩ := by
  refine h.inside hex ht (by rfl) (by rfl) hrelies h.nodup ?_ ?_ ?_ ?_ ?_
  · exact fun _ => .inl
  · exact fun j hj hnot _ => ⟨hj, hnot, hunlisting j⟩
  · exact fun j hj hnot _ => ⟨hj, hnot, hunlisting j⟩
  · exact fun j hj hnot hduty => ⟨hj, hnot, fun hwas => hduty (hadding j hj hwas)⟩
  · exact h.backed

theorem push (ht : w.tasks[k]? = some (.holding (.push i rest next)))
    (hreg : i ∈ w.shared.instances) (hhealthy : w.shared.stateOf i = .healthy)
    (hprocess : (w.shared.objects i).process.isSome) :
    Routing ⟨w.tasks.set k (.holding (Locked.enableRest rest next)),
      w.shared.pushHealthyInstance i⟩ := by
  have hopen : i ∉ w.shared.routingSuppressed := h.relies _ (mem_of_getElem? ht)
  obtain ⟨_, hrelies⟩ := free_enableRest rest next
  have hkept : (w.shared.pushHealthyInstance i).instances = w.shared.instances ∧
      (w.shared.pushHealthyInstance i).allocated = w.shared.allocated ∧
      (w.shared.pushHealthyInstance i).routingSuppressed = w.shared.routingSuppressed ∧
      (w.shared.pushHealthyInstance i).objects = w.shared.objects := by
    unfold App.pushHealthyInstance
    split <;> exact ⟨rfl, rfl, rfl, rfl⟩
  obtain ⟨hinstances, hallocated, hsuppressed, hobjects⟩ := hkept
  have hmem {j : InstanceId} : j ∈ (w.shared.pushHealthyInstance i).routed ↔
      j ∈ w.shared.routed ∨ j = i := App.mem_routed_pushHealthyInstance
  refine h.inside hex ht hinstances hallocated (hrelies _) ?_ ?_ ?_ ?_ ?_ ?_
  · rw [App.routed_pushHealthyInstance]
    split
    · exact h.nodup
    · exact h.nodup.append (nodup_singleton i) (by simpa using ‹i ∉ w.shared.routed›)
  · rintro j hj
    obtain hj | rfl := hmem.mp hj
    · exact .inl hj
    · exact .inr hreg
  · intro j hj hnot _
    rw [App.stateOf, hobjects] at hnot
    obtain hj | rfl := hmem.mp hj
    · exact ⟨hj, hnot, id⟩
    · exact absurd hhealthy hnot
  · intro j hj hnot _
    rw [hsuppressed] at hnot
    obtain hj | rfl := hmem.mp hj
    · exact ⟨hj, hnot, id⟩
    · exact absurd hopen hnot
  · intro j hj hnot _
    have hne : i ≠ j := fun hij => hnot (hmem.mpr (.inr hij.symm))
    refine ⟨⟨hinstances ▸ hj.1, ?_, hsuppressed ▸ hj.2.2⟩, fun hr => hnot (hmem.mpr (.inl hr)), hne⟩
    have hstate := hj.2.1
    rwa [App.stateOf, hobjects] at hstate
  · intro j hj
    rw [hobjects]
    obtain hj | rfl := hmem.mp hj
    · exact h.backed j hj
    · exact hprocess

theorem mark (ht : w.tasks[k]? = some (.holding (.mark i next))) :
    Routing ⟨w.tasks.set k (.holding (.unlist i next)), w.shared.suppress i⟩ := by
  refine h.inside hex ht (by rfl) (by rfl) ?_ ?_ ?_ ?_ ?_ ?_ ?_
  · exact fun hr => hr.2.2 (App.mem_suppress.mpr (.inl rfl))
  · exact h.nodup
  · exact fun _ => .inl
  · exact fun j hj hnot _ => ⟨hj, hnot, id⟩
  · intro j hj hnot hduty
    have hne : j ≠ i := fun hji => hduty hji.symm
    refine ⟨hj, fun hopen => hnot fun hs => ?_, id⟩
    obtain hji | hs := App.mem_suppress.mp hs
    · exact hne hji
    · exact hopen hs
  · intro j hj hnot _
    exact ⟨⟨hj.1, hj.2.1, fun hs => hj.2.2 (App.mem_suppress.mpr (.inr hs))⟩, hnot, id⟩
  · exact h.backed

theorem unmark {reply : Bool → Operation Unit}
    (ht : w.tasks[k]? = some (.holding (.unmark i rest reply))) :
    Routing ⟨w.tasks.set k (.holding (.verify i rest reply)), w.shared.unsuppress i⟩ := by
  refine h.inside hex ht (by rfl) (by rfl) ?_ ?_ ?_ ?_ ?_ ?_ ?_
  · trivial
  · exact h.nodup
  · exact fun _ => .inl
  · exact fun j hj hnot _ => ⟨hj, hnot, id⟩
  · intro j hj hnot _
    exact ⟨hj, fun hopen => hnot fun hs => hopen (App.mem_unsuppress.mp hs).1, id⟩
  · intro j hj hnot hduty
    have hne : j ≠ i := fun hji => hduty hji.symm
    exact ⟨⟨hj.1, hj.2.1, fun hs => hj.2.2 (App.mem_unsuppress.mpr ⟨hs, hne⟩)⟩, hnot, id⟩
  · exact h.backed

theorem accesses (ht : w.tasks[k]? = some (.holding body))
    (hpush : ∀ i rest next, body = .push i rest next → i ∈ w.shared.instances ∧
      w.shared.stateOf i = .healthy ∧ (w.shared.objects i).process.isSome) :
    Routing ⟨w.tasks.set k (.holding (body.step w.shared).1), (body.step w.shared).2⟩ := by
  cases body with
  | guard =>
    refine h.looks hex ht ?_ (fun _ => id) (fun _ _ hwas => hwas.elim)
    simp only [Locked.step]
    split <;> trivial
  | swap => exact h.swap hex ht
  | unlist => exact h.unlist hex ht
  | refresh i next =>
    have hfree : (Task.holding (.refresh i next)).Free := ⟨fun _ => id, fun _ => id, fun _ => id⟩
    have hseen := App.Unseen.refl w.shared
    exact h.unseen ht hfree { hseen with routed := App.routed_refreshHealthyInstance } trivial
  | look i rest next =>
    obtain ⟨_, hrelies⟩ := free_enableRest rest next
    by_cases hs : i ∈ w.shared.routingSuppressed
    · simp only [Locked.step, if_pos hs]
      exact h.looks hex ht (hrelies _) (fun _ => id)
        fun j hj hwas => absurd hs (hwas ▸ hj.2.2)
    · simp only [Locked.step, if_neg hs]
      exact h.looks hex ht hs (fun _ => id) fun _ _ => id
  | push i rest next =>
    obtain ⟨hreg, hhealthy, hprocess⟩ := hpush i rest next rfl
    exact h.push hex ht hreg hhealthy hprocess
  | mark => exact h.mark hex ht
  | unmark => exact h.unmark hex ht
  | verify i rest reply =>
    obtain ⟨_, hrelies⟩ := free_enableRest rest (reply false)
    by_cases hhealthy : w.shared.stateOf i = .healthy
    · simp only [Locked.step, if_pos hhealthy]
      exact h.looks hex ht trivial (fun _ => id) fun _ _ => id
    · simp only [Locked.step, if_neg hhealthy]
      exact h.looks hex ht (hrelies _) (fun _ => id)
        fun j hj hwas => absurd (hwas ▸ hj.2.1) hhealthy
  | check left ids reply =>
    obtain ⟨_, hrelies⟩ := free_enableRest ids (reply (.ok ()))
    cases left with
    | nil => exact h.looks hex ht (hrelies _) (fun _ => id) fun _ _ hwas => hwas.elim
    | cons =>
      refine h.looks hex ht ?_ (fun _ => id) fun _ _ hwas => hwas.elim
      simp only [Locked.step]
      split <;> trivial
  | unlock => exact h.looks hex ht trivial (fun _ => id) fun _ _ hwas => hwas.elim
end

theorem enters (ht : w.tasks[k]? = some t) (hfree : t.Free) (hentered : Enters w.shared t' a) :
    Routing ⟨w.tasks.set k t', a⟩ := by
  cases hentered with
  | waits hentry => exact h.unseen ht hfree (.refl _) hentry
  | removes hi => exact h.removes ht hfree hi _
  | allocates => exact h.allocates ht hfree _
  | unseen hseen => exact h.unseen ht hfree hseen trivial

theorem steps (hex : Exclusive w) (ht : w.tasks[k]? = some t) (hstep : Steps w.shared t t' a)
    (hpush : ∀ i rest next, t = .holding (.push i rest next) → i ∈ w.shared.instances ∧
      w.shared.stateOf i = .healthy ∧ (w.shared.objects i).process.isSome) :
    Routing ⟨w.tasks.set k t', a⟩ := by
  have hseen := App.Unseen.refl w.shared
  cases hstep with
  | chooses => exact h.unseen ht (Task.free_running _) hseen trivial
  | enters hentered => exact h.enters ht (Task.free_running _) hentered
  | @acquires body hfree =>
    have hentry : body.Entry := h.relies _ (mem_of_getElem? ht)
    exact h.unseen ht (Task.free_waiting body) { hseen with } (Task.relies_entry _ hentry)
  | accesses => exact h.accesses hex ht fun i rest next hbody => hpush i rest next (by rw [hbody])
  | @releases next =>
    have hfree : (Task.holding (.unlock next)).Free := ⟨fun _ => id, fun _ => id, fun _ => id⟩
    exact h.unseen ht hfree { hseen with } trivial
  | unsuppresses => exact h.unsuppresses ht
  | unlists => exact h.unlists ht

theorem start (rest : Operation Unit) :
    Routing { w with tasks := w.tasks ++ [.running rest] } where
  __ := h
  relies := forall_append h.relies trivial
  registered := h.registered.append _
  healthy := h.healthy.append _
  unsuppressed := h.unsuppressed.append _
  complete := h.complete.append _

theorem exact_of_quiet (hquiet : Quiet w) :
    w.shared.routed.Nodup ∧ ∀ i, i ∈ w.shared.routed ↔ w.shared.Routable i := by
  have hfree (t : Task) (ht : t ∈ w.tasks) : t.Free := Task.free_of_finished (hquiet t ht)
  refine ⟨h.nodup, fun i => ⟨fun hi => ⟨?_, ?_, ?_⟩, fun hi => ?_⟩⟩
  · exact h.registered.settled (fun j t ht => (hfree t ht).leaving j) hi
  · exact h.healthy.settled (fun j t ht => (hfree t ht).unlisting j) hi
  · exact h.unsuppressed.settled (fun j t ht => (hfree t ht).unlisting j) hi
  · exact h.complete.settled (fun j t ht => (hfree t ht).adding j) hi
end Routing

theorem kept_routing : Kept Command.task Task.step (fun moment w => careful moment w = true)
    (fun w => Exclusive w ∧ Routing w) where
  start w command h _ := by
    exact ⟨h.1.append id, h.2.start _⟩
  run w k input t t' a h hC ht hstep := by
    simp only [careful, ht] at hC
    have hstep : Steps w.shared t t' a := by
      refine steps hstep fun p next i hcall htouches => ?_
      subst hcall
      simp only [htouches, decide_eq_true_eq] at hC
      exact hC
    refine ⟨h.1.steps ht hstep, h.2.steps h.1 ht hstep fun i rest next hpush => ?_⟩
    subst hpush
    simp only [decide_eq_true_eq] at hC
    exact hC

theorem routing_new (config : AppConfig) :
    Exclusive ⟨[], App.new config⟩ ∧ Routing ⟨[], App.new config⟩ := by
  refine ⟨⟨?_, ?_⟩, ⟨?_, ?_, nodup_nil, ?_, ?_, ?_, ?_, ?_⟩⟩
  · exact nofun
  · exact nofun
  · exact nofun
  · exact nofun
  · exact nofun
  · exact nofun
  · exact nofun
  · exact fun _ hi => absurd hi.1 not_mem_nil
  · exact nofun

/-- The routing list holds exactly the registered, healthy and not suppressed
instances whenever no operation is in progress, and a request is sent to an
instance that is registered and has its process. -/
theorem routing_list_exact (config : AppConfig) (events : List Moment)
    (hcareful : Meets Command.task Task.step (fun moment w => careful moment w = true)
      ⟨[], App.new config⟩ events)
    (hquiet : Quiet (work config events)) :
    (work config events).shared.routed.Nodup ∧
      (∀ i, i ∈ (work config events).shared.routed ↔ (work config events).shared.Routable i) ∧
      ∀ n h, (work config events).shared.healthyBackendForRequest n = some h →
        h.id ∈ (work config events).shared.instances ∧
          ((work config events).shared.objects h.id).process.isSome := by
  have hinv : Exclusive (work config events) ∧ Routing (work config events) :=
    kept_routing.after (routing_new config) hcareful
  obtain ⟨hnodup, hexact⟩ := hinv.2.exact_of_quiet hquiet
  refine ⟨hnodup, hexact, fun n h hbackend => ?_⟩
  have hmem : h.id ∈ (work config events).shared.routed := mem_map_of_mem (mem_of_getElem? hbackend)
  exact ⟨((hexact h.id).mp hmem).1, hinv.2.backed h.id hmem⟩

def accesses (task n : ℕ) : List Moment := List.replicate n (.run task 0)

def startAndStop : List Moment :=
  [.start .allocateInstance, .run 0 0, .start (.spawn 0)] ++ accesses 1 8 ++
    (.run 1 8085 :: accesses 1 9) ++ .start .stopApp :: accesses 2 14 ++
    [.start (.exit 0), .run 3 0] ++ accesses 2 7

theorem routing_list_exact_startAndStop :
    (work {} startAndStop).shared.routed.Nodup ∧
      (∀ i, i ∈ (work {} startAndStop).shared.routed ↔
        (work {} startAndStop).shared.Routable i) ∧
      ∀ n h, (work {} startAndStop).shared.healthyBackendForRequest n = some h →
        h.id ∈ (work {} startAndStop).shared.instances ∧
          ((work {} startAndStop).shared.objects h.id).process.isSome :=
  routing_list_exact {} startAndStop (by decide +kernel) (by decide +kernel)

/-- The app is stopped while a new instance has yet to report its port. The port
is read after the instance was killed and removed, and the instance is made healthy
without a look at its state: it stays in the routing list. -/
def stopWhileStarting : List Moment :=
  [.start .allocateInstance, .run 0 0, .start (.spawn 0)] ++ accesses 1 8 ++
    .start .stopApp :: accesses 2 13 ++ [.start (.exit 0), .run 3 0] ++ accesses 2 7 ++
    .run 1 8085 :: accesses 1 9

theorem removed_instance_routed :
    Quiet (work {} stopWhileStarting) ∧ (work {} stopWhileStarting).shared.instances = [] ∧
      ((work {} stopWhileStarting).shared.objects 0).process = none ∧
      (work {} stopWhileStarting).shared.healthyBackendForRequest 0 = some ⟨0, some 8080⟩ := by
  decide +kernel

end Tako.Instances
