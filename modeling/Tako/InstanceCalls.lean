import Tako.ScriptRules
import Tako.InstanceOperations

/-! The calls that the operations are made of, and what a call that is about one
instance can change. -/
namespace Tako.Instances
open Tasks
/-- What the calls about one instance have made of it, as far as they say so. -/
structure Trail where
  -- the configuration read last
  config : Option AppConfig := none
  attached : Bool
  state : InstanceState
  ready : Bool := false
  stopped : Bool := false

/-- What a call makes of the process of its instance. -/
def Call.process : Call → Option (Option AppConfig)
  | .setProcess _ startedFrom => some (some startedFrom)
  | .takeProcess _ | .awaitExit _ => some none
  | _ => none

def Call.stateSet : Call → Option InstanceState
  | .setInstanceState _ s => some s
  | .setReady _ => some .ready
  | .setStopped _ => some .stopped
  | _ => none

def Trail.next (t : Trail) (p : Call) (r : p.Reply) : Trail where
  config := match p, r with
    | .config, config => some config
    | _, _ => t.config
  attached := (p.process.map Option.isSome).getD t.attached
  state := p.stateSet.getD t.state
  ready := match p with
    | .send (.ready _) => true
    | _ => t.ready
  stopped := match p with
    | .setStopped _ => true
    | _ => t.stopped

/-- The calls that `spawn` and `kill` are made of. -/
def Call.Works (i : InstanceId) (t : Trail) : Call → Prop
  | .config => True
  | .send event => event = .started i ∨ event = .ready i
  | .setProcess j startedFrom => j = i ∧ t.config = some startedFrom
  | .setInstanceState j _ | .setPort j _ | .setContainer j _ | .takeProcess j | .isAlive j
  | .setReady j | .endpoint j | .awaitStarted j | .lockStop j | .ownsCompose j | .clearCompose j
  | .hasContainer j | .awaitExit j | .cleanupUpstream j | .setStopped j | .unlockStop j => j = i
  | _ => False

section
variable {a a' : App} {i : InstanceId} {s : InstanceState} {p : Call} {r : p.Reply}
theorem eq_of_some_pair {α β : Type} {x : α × β} {b : α} {c : β} (h : some x = some (b, c)) :
    x.1 = b ∧ x.2 = c := Prod.mk.inj (Option.some.inj h)

theorem filter_notMem_cons (l ids : List InstanceId) :
    (l.filter (· ≠ i)).filter (· ∉ ids) = l.filter (· ∉ i :: ids) := by
  rw [List.filter_filter]
  refine List.filter_congr fun j _ => ?_
  by_cases hj : j = i <;> simp [hj]

theorem filter_ne_of_notMem {l : List InstanceId} (h : i ∉ l) : l.filter (· ≠ i) = l := by
  rw [List.filter_eq_self]
  intro j hj
  exact decide_eq_true fun hji => h (hji ▸ hj)

theorem filter_notMem_self (l : List InstanceId) : l.filter (· ∉ l) = [] := by
  rw [List.filter_eq_nil_iff]
  intro j hj
  simp [hj]

theorem App.modify_self : a.modify i id = a := by
  simp only [App.modify, id, Function.update_eq_self]

theorem App.modify_kept {β : Type} (g : Instance → β) {b : β} {f : Instance → Instance}
    {j : InstanceId} (h : g (a.objects j) = b) (hf : j = i → ∀ x, g (f x) = g x) :
    g ((a.modify i f).objects j) = b := by
  by_cases hji : j = i
  · subst hji
    simp only [App.modify, Function.update_self, hf rfl, h]
  · simp only [App.modify, Function.update_of_ne hji, h]

theorem App.refreshEndpoint_of_notMem {endpoint : Option ℕ} {l : List HealthyInstance}
    (h : i ∉ l.map HealthyInstance.id) : App.refreshEndpoint i endpoint l = l := by
  induction l with
  | nil => rfl
  | cons x l ih =>
    rw [List.map_cons, List.mem_cons, not_or] at h
    rw [App.refreshEndpoint, if_neg (Ne.symm h.1), ih h.2]

theorem App.removeHealthyInstance_of_notMem (h : i ∉ a.routed) : a.removeHealthyInstance i = a := by
  have hfilter : a.healthyInstances.filter (·.id ≠ i) = a.healthyInstances := by
    rw [List.filter_eq_self]
    intro x hx
    have hne : x.id ≠ i := fun hxi => h (hxi ▸ List.mem_map_of_mem hx)
    simpa using hne
  rw [App.removeHealthyInstance, hfilter]

theorem App.setInstanceStateLocked_of_suppressed (hs : i ∈ a.routingSuppressed)
    (hr : i ∉ a.routed) : (a.setInstanceStateLocked i s).2 = a.setState i s := by
  have hs' : i ∈ (a.setState i s).routingSuppressed := hs
  have hr' : i ∉ (a.setState i s).routed := hr
  simp only [App.setInstanceStateLocked]
  split_ifs
  · rw [App.refreshHealthyInstance, App.refreshEndpoint_of_notMem hr']
  · rfl
  · exact App.removeHealthyInstance_of_notMem hr'
  · rw [App.addHealthyInstance, if_pos hs']
  · rfl

theorem App.setInstanceStateLocked_eq :
    ∃ healthy, (a.setInstanceStateLocked i s).2 =
        { a.setState i s with healthyInstances := healthy } ∧
      ∀ j ≠ i, j ∈ healthy.map HealthyInstance.id ↔ j ∈ a.routed := by
  have hrefresh := App.routed_refreshHealthyInstance (a := a.setState i s) (i := i)
  have hremove {j : InstanceId} := App.mem_routed_removeHealthyInstance (a := a.setState i s)
    (i := i) (j := j)
  simp only [App.setInstanceStateLocked, App.addHealthyInstance, App.pushHealthyInstance]
  split_ifs
  · exact ⟨_, rfl, fun j _ => hrefresh ▸ Iff.rfl⟩
  · exact ⟨_, rfl, fun _ _ => Iff.rfl⟩
  · exact ⟨_, rfl, fun j hj => hremove.trans (and_iff_left hj)⟩
  · exact ⟨_, rfl, fun _ _ => Iff.rfl⟩
  · exact ⟨_, rfl, fun _ _ => Iff.rfl⟩
  · exact ⟨_, rfl, fun j hj => by simp [App.routed, App.setState, App.modify, hj]⟩
  · exact ⟨_, rfl, fun _ _ => Iff.rfl⟩

/-- A call about one instance changes that instance, what was sent and, unless the
instance is withheld, whether it is in the routing list. -/
def Adjusts (i : InstanceId) (p : Call) (a a' : App) : Prop :=
  ∃ f events healthy,
    a' = { a.modify i f with events := events, healthyInstances := healthy } ∧
    (i ∈ a.routingSuppressed → i ∉ a.routed → healthy = a.healthyInstances) ∧
    (∀ j ≠ i, j ∈ healthy.map HealthyInstance.id ↔ j ∈ a.routed) ∧
    ∀ x, (f x).buildVersion = x.buildVersion ∧ (f x).state = p.stateSet.getD x.state ∧
      (f x).process.map Child.startedFrom = p.process.getD (x.process.map Child.startedFrom)

theorem adjusts {t : Trail} (hp : p.Works i t) (h : perform p a = some (r, a')) :
    Adjusts i p a a' := by
  have hmodify {f : Instance → Instance} (hf : ∀ x, (f x).buildVersion = x.buildVersion ∧
      (f x).state = p.stateSet.getD x.state ∧
      (f x).process.map Child.startedFrom = p.process.getD (x.process.map Child.startedFrom)) :
      Adjusts i p a (a.modify i f) :=
    ⟨f, a.events, a.healthyInstances, rfl, fun _ _ => rfl, fun _ _ => Iff.rfl, hf⟩
  have hsame (hstate : p.stateSet = none) (hprocess : p.process = none) : Adjusts i p a a := by
    have hself := hmodify (f := id) fun x => ⟨rfl, by rw [hstate]; rfl, by rw [hprocess]; rfl⟩
    rwa [App.modify_self] at hself
  cases p
  case config | isAlive | endpoint | ownsCompose | hasContainer =>
    cases h
    exact hsame rfl rfl
  case awaitStarted =>
    simp only [perform] at h
    split at h <;> cases h <;> exact hsame rfl rfl
  case send event =>
    cases h
    refine ⟨id, a.events ++ [event], a.healthyInstances, ?_, fun _ _ => rfl, fun _ _ => Iff.rfl,
      fun _ => ⟨rfl, rfl, rfl⟩⟩
    rw [App.modify_self]
  case setInstanceState j s =>
    obtain rfl : j = i := hp
    obtain ⟨_, rfl⟩ := eq_of_some_pair h
    obtain ⟨healthy, heq, hothers⟩ := a.setInstanceStateLocked_eq (i := j) (s := s)
    refine ⟨_, a.events, healthy, heq, fun hs hr => ?_, hothers, fun _ => ⟨rfl, rfl, rfl⟩⟩
    rw [App.setInstanceStateLocked_of_suppressed hs hr] at heq
    exact (congrArg App.healthyInstances heq).symm
  case setProcess =>
    obtain ⟨rfl, _⟩ := hp
    cases h
    exact hmodify fun _ => ⟨rfl, rfl, rfl⟩
  case lockStop j | awaitExit j =>
    obtain rfl : j = i := hp
    simp only [perform] at h
    split at h <;> cases h
    exact hmodify fun _ => ⟨rfl, rfl, rfl⟩
  case setPort j _ | setContainer j _ | takeProcess j | setReady j | clearCompose j |
      cleanupUpstream j | setStopped j | unlockStop j =>
    obtain rfl : j = i := hp
    cases h
    exact hmodify fun _ => ⟨rfl, rfl, rfl⟩
  all_goals cases hp
end

theorem perm_reordered (ids : List InstanceId) (n : ℕ) :
    ((ids.permutations[n]?).getD ids).Perm ids := by
  cases horder : ids.permutations[n]? with
  | none => exact .refl ids
  | some => exact List.mem_permutations.mp (List.mem_of_getElem? horder)

section
open Operation
variable {i : InstanceId} {t : Trail} {α : Type} {Q : α → Trail → Prop}
abbrev Trails (i : InstanceId) (Q : α → Trail → Prop) (x : Operation α) (t : Trail) : Prop :=
  x.Tracks Trail.next (Call.Works i) Q t

theorem trails_fails {f : Bool → Operation α} (hfails : Trails i Q (f true) t)
    (hgoes : Trails i Q (f false) t) : Trails i Q (fails >>= f) t := by
  intro n
  change Trails i Q (f (n ≠ 0)) t
  cases decide (n ≠ 0) with
  | true => exact hfails
  | false => exact hgoes

theorem trails_dropCompose : Trails i (fun _ t' => t' = t) (dropCompose i) t := by
  refine ⟨rfl, fun compose => ?_⟩
  cases compose with
  | none => rfl
  | some owned =>
    cases owned with
    | false => exact ⟨rfl, fun _ => rfl⟩
    | true => exact trails_fails rfl ⟨rfl, fun _ => rfl⟩

theorem trails_dropContainer : Trails i (fun _ t' => t' = t) (dropContainer i) t := by
  refine ⟨rfl, fun present => ?_⟩
  cases present with
  | false => rfl
  | true => exact trails_fails rfl ⟨rfl, fun _ => rfl⟩

/-- What a `kill` leaves: the process is gone and the state says so, or nothing has
changed. -/
def Killed (t : Trail) (killed : Bool) (t' : Trail) : Prop :=
  t' = if killed then { t with attached := false, state := .stopped, stopped := true } else t

theorem trails_reap : Trails i (Killed t) (reap i) t := by
  refine trails_fails rfl (trails_fails rfl ?_)
  exact ⟨rfl, fun _ => ⟨rfl, fun _ => ⟨rfl, fun _ => rfl⟩⟩⟩

theorem trails_kill : Trails i (Killed t) (kill i) t := by
  refine ⟨rfl, fun _ => ?_⟩
  have hlocked : Trails i (Killed t) (killLocked i) t := by
    refine trails_dropCompose.bind fun dropped t' ht' => ?_
    subst ht'
    cases dropped with
    | false => rfl
    | true =>
      refine trails_dropContainer.bind fun dropped t'' ht'' => ?_
      subst ht''
      cases dropped with
      | false => rfl
      | true => exact trails_reap
  exact hlocked.bind fun killed t' ht' => ⟨rfl, fun _ => ht'⟩

/-- What is known of a `spawn` from its result. -/
def Spawned : Except InstanceError Unit → Trail → Prop
  | .ok _, t => t.attached = true ∧ t.state = .healthy ∧ t.ready = true
  | .error _, t => t.ready = false

/-- The process was started, and is still there if it is ready. -/
def StartedUp (startup : Startup) (t : Trail) : Prop :=
  t.ready = false ∧ (startup = .ready → t.attached = true)

theorem trails_isAlive {f : Bool → Operation α} (h : ∀ alive, Trails i Q (f alive) t) :
    Trails i Q (Operation.isAlive i >>= f) t := by
  have halive : Trails i (fun _ t' => t' = t) (Operation.isAlive i) t :=
    trails_fails rfl ⟨rfl, fun _ => rfl⟩
  refine halive.bind fun alive t' ht' => ?_
  subst ht'
  exact h alive

theorem trails_startupExitDetail (ht : t.ready = false) :
    Trails i StartedUp (startupExitDetail i) t := by
  refine ⟨rfl, fun _ => trails_fails ?_ ?_⟩ <;> exact ⟨ht, nofun⟩

theorem trails_waitForReady (ht : StartedUp .ready t) : Trails i StartedUp (waitForReady i) t := by
  intro n
  rcases n with _ | _ | _ | _ | _ | port
  · exact ⟨ht.1, nofun⟩
  · exact ⟨ht.1, nofun⟩
  · exact ⟨ht.1, nofun⟩
  -- the timer and the closed pipe both ask whether the process is still there
  · refine trails_isAlive fun alive => ?_
    cases alive with
    | true => exact ⟨ht.1, nofun⟩
    | false => exact trails_startupExitDetail ht.1
  · refine trails_isAlive fun alive => ?_
    cases alive with
    | true => exact ⟨ht.1, nofun⟩
    | false => exact trails_startupExitDetail ht.1
  · exact ⟨rfl, fun _ => ⟨rfl, fun _ => ht⟩⟩

theorem trails_waitForContainerHealth (rounds : ℕ) (ht : StartedUp .ready t) :
    Trails i StartedUp (waitForContainerHealth i rounds) t := by
  induction rounds with
  | zero => exact ⟨ht.1, nofun⟩
  | succ _ ih =>
    refine trails_isAlive fun alive => ?_
    cases alive with
    | false => exact ⟨ht.1, nofun⟩
    | true =>
      refine ⟨rfl, fun endpoint => ?_⟩
      cases endpoint with
      | none => exact ⟨ht.1, nofun⟩
      | some => exact trails_fails ih ⟨rfl, fun _ => ht⟩

theorem trails_settle {startup : Startup} (taken : Bool) (ht : StartedUp startup t) :
    Trails i Spawned (settle i startup taken) t := by
  have hkill {t : Trail} (error : InstanceError) (ht : t.ready = false) :
      Trails i Spawned (kill i >>= fun _ => pure (.error error)) t := by
    refine trails_kill.bind fun killed t' ht' => ?_
    subst ht'
    cases killed <;> exact ht
  cases startup with
  | ready => exact ⟨rfl, fun _ => ⟨.inr rfl, fun _ => ⟨ht.2 rfl, rfl, rfl⟩⟩⟩
  | failed error => exact ⟨rfl, fun _ => hkill error ht.1⟩
  | timedOut =>
    refine ⟨rfl, fun _ => ?_⟩
    cases taken with
    | false => exact hkill _ ht.1
    | true => exact ⟨rfl, fun _ => hkill _ ht.1⟩

theorem trails_spawn (ht : t.ready = false) : Trails i Spawned (spawn i) t := by
  have hread (config : AppConfig) : Trails i Spawned
      (if config.compose then return .error .healthCheckFailed
      else if config.launch = .container then spawnContainer i config
      else do
        if ← fails then return .error .spawnError
        invoke (.setProcess i config)
        let _ ← invoke (.setInstanceState i .starting)
        invoke (.send (.started i))
        let startup ← waitForReady i
        settle i startup true) (t.next .config config) := by
    split
    · exact ht
    split
    · refine trails_fails ht ?_
      refine fun port => ⟨rfl, fun _ => ⟨⟨rfl, rfl⟩, fun _ => ⟨rfl, fun _ => ⟨rfl, fun _ =>
        ⟨.inl rfl, fun _ rounds => ?_⟩⟩⟩⟩⟩
      refine (trails_waitForContainerHealth rounds ?_).bind fun _ _ => trails_settle false
      exact ⟨ht, fun _ => rfl⟩
    · refine trails_fails ht ?_
      refine ⟨⟨rfl, rfl⟩, fun _ => ⟨rfl, fun _ => ⟨.inl rfl, fun _ => ?_⟩⟩⟩
      refine (trails_waitForReady ?_).bind fun _ _ => trails_settle true
      exact ⟨ht, fun _ => rfl⟩
  exact ⟨trivial, hread⟩
end

end Tako.Instances
