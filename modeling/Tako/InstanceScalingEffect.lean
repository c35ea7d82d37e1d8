import Tako.InstanceScaling

/-! What `scale_app` leaves of the registry, for every outcome of its spawns and
stops. -/
namespace Tako.Instances
open Tasks Operation
open List hiding after
section
variable {R : Registry} {i : InstanceId}
def Registry.running (R : Registry) : List InstanceId :=
  R.instances.filter fun i => (R.states i).runs

variable (ids : List InstanceId)
theorem returns_runningAmong :
    Returns (fun r R' => r = ids.filter (fun i => (R.states i).runs) ∧ R' = R)
      (runningAmong ids) R := by
  induction ids with
  | nil => exact returns_ret ⟨rfl, rfl⟩
  | cons _ _ ih =>
    refine returns_state (returns_bind ih fun others R' hothers => ?_)
    obtain ⟨rfl, rfl⟩ := hothers
    refine returns_ret ⟨?_, rfl⟩
    rw [filter_cons]

theorem returns_kill : Returns (fun _ R' => ∃ s, R' = R.set i s) (kill i) R := by
  refine (returns_trails (t := { attached := true, state := R.states i }) trails_kill rfl).mono ?_
  rintro _ _ ⟨t, _, rfl⟩
  exact ⟨t.state, rfl⟩

/-- Only the instance changes, and it is healthy if its `spawn` succeeded. -/
theorem returns_spawn :
    Returns (fun result R' => ∃ s, R' = R.set i s ∧ (result = .ok () → s = .healthy)) (spawn i)
      R := by
  refine (returns_trails (t := { attached := false, state := R.states i }) (trails_spawn rfl)
    rfl).mono ?_
  rintro result _ ⟨t, ht, rfl⟩
  refine ⟨t.state, rfl, ?_⟩
  rintro rfl
  exact ht.2.1

variable {R' : Registry}
theorem returns_removeNewInstances :
    Returns (fun _ R' => R'.instances = R.instances.filter (· ∉ ids) ∧ R'.config = R.config)
      (removeNewInstances ids) R := by
  induction ids generalizing R with
  | nil =>
    refine returns_ret ⟨?_, rfl⟩
    simp
  | cons i _ ih =>
    refine returns_bind returns_kill fun _ R' hR' => returns_removeInstance fun _ => ?_
    obtain ⟨s, rfl⟩ := hR'
    refine ih.mono fun _ R' hR' => ⟨?_, hR'.2⟩
    rw [hR'.1]
    exact filter_notMem_cons ..

structure Grew (R : Registry) (k : ℕ) (R' : Registry) : Prop where
  config : R'.config = R.config
  allocated : R'.allocated = R.allocated + k
  instances : R'.instances = R.instances ++ List.range' R.allocated k
  old : ∀ j < R.allocated, R'.states j = R.states j
  healthy : ∀ j ∈ List.range' R.allocated k, R'.states j = .healthy

theorem Grew.zero : Grew R 0 R :=
  ⟨rfl, rfl, (append_nil _).symm, fun _ _ => rfl, nofun⟩

theorem Grew.next {k : ℕ} (h : Grew R k R') :
    Grew R (k + 1) (R'.allocate.set R'.allocated .healthy) where
  __ := h
  allocated := by
    have hallocated : (R'.allocate.set R'.allocated .healthy).allocated = R'.allocated + 1 := rfl
    rw [hallocated, h.allocated, Nat.add_assoc]
  instances := by
    have hinstances : (R'.allocate.set R'.allocated .healthy).instances =
        R'.instances ++ [R'.allocated] := rfl
    rw [hinstances, h.instances, h.allocated, range'_concat, append_assoc, Nat.one_mul]
  old j hj := by
    have hne : j ≠ R'.allocated := by
      rw [h.allocated]
      omega
    simp only [Registry.set, Registry.allocate, Function.update_of_ne hne]
    exact h.old j hj
  healthy j hj := by
    by_cases hne : j = R'.allocated
    · subst hne
      simp only [Registry.set, Function.update_self]
    · simp only [Registry.set, Registry.allocate, Function.update_of_ne hne]
      rw [range'_concat, Nat.one_mul, mem_append, mem_singleton,
        ← h.allocated] at hj
      exact h.healthy j (hj.resolve_right hne)

/-- How a scale-up ends: with all new instances, or with the one that could not be
started still registered. -/
def Raised (R : Registry) (n : ℕ) (result : Except InstanceError Unit) (R' : Registry) : Prop :=
  R'.config = R.config ∧
    ((result = .ok () ∧ Grew R n R') ∨
      ∃ error, result = .error error ∧ ∃ i, R.allocated ≤ i ∧ i ∈ R'.instances)

/-- The instances that are started have the next numbers, in order. -/
theorem returns_startMore (n k : ℕ) (h : Grew R k R') :
    Returns (Raised R (k + n)) (startMore (range' R.allocated k) n) R' := by
  induction n generalizing k R' with
  | zero => exact returns_ret ⟨h.config, .inl ⟨rfl, h⟩⟩
  | succ n ih =>
    refine returns_allocateInstance (returns_bind returns_spawn fun result R'' hspawned => ?_)
    cases result with
    | ok =>
      obtain ⟨s, rfl, hhealthy⟩ := hspawned
      obtain rfl := hhealthy rfl
      have hnext := ih (k + 1) h.next
      rw [range'_concat, Nat.one_mul, ← h.allocated] at hnext
      have hsum : k + 1 + n = k + (n + 1) := by omega
      rwa [hsum] at hnext
    | error error =>
      obtain ⟨s, rfl, _⟩ := hspawned
      refine returns_bind (returns_removeNewInstances _) fun _ R'' hR'' => returns_ret ?_
      refine ⟨hR''.2.trans h.config, .inr ⟨error, rfl, R'.allocated, ?_, ?_⟩⟩
      · rw [h.allocated]
        exact Nat.le_add_right ..
      · -- only those that were started are removed
        rw [hR''.1, mem_filter]
        have hmem : R'.allocated ∈ (R'.allocate.set R'.allocated s).instances :=
          mem_concat_self
        refine ⟨hmem, decide_eq_true fun hold => ?_⟩
        rw [mem_range'_1, h.allocated] at hold
        omega

def Lowered (R : Registry) (ids : List InstanceId) (failed : Option InstanceId)
    (R' : Registry) : Prop :=
  R'.config = R.config ∧ (failed = none → R'.instances = R.instances.filter (· ∉ ids) ∧
    ∀ j ∉ ids, R'.states j = R.states j)

theorem returns_drainAndStopInstance :
    Returns (fun stopped R' => ∃ s, R' = if stopped then (R.set i s).remove i else R.set i s)
      (drainAndStopInstance i) R := by
  have hnow (a : App) (r : ℕ) (a' : App) (hperform : perform .now a = some (r, a')) :
      a'.registry = a.registry := by
    cases hperform
    rfl
  have hdrained (deadline : ℕ) (a : App) (r : Unit) (a' : App)
      (hperform : perform (.awaitDrained i deadline) a = some (r, a')) :
      a'.registry = a.registry := by
    simp only [perform] at hperform
    split at hperform <;> cases hperform
    rfl
  refine returns_setInstanceState fun _ => returns_same hnow fun now => ?_
  refine returns_same (hdrained _) fun _ => returns_bind returns_kill fun killed R' hR' => ?_
  obtain ⟨s, rfl⟩ := hR'
  rw [Registry.set_set]
  cases killed with
  | true => exact returns_removeInstance fun _ => returns_ret ⟨s, rfl⟩
  | false => exact returns_ret ⟨s, rfl⟩

theorem returns_stopSome : Returns (Lowered R ids) (stopSome ids) R := by
  induction ids generalizing R with
  | nil =>
    refine returns_ret ⟨rfl, fun _ => ⟨?_, fun _ _ => rfl⟩⟩
    simp
  | cons i _ ih =>
    refine returns_bind returns_drainAndStopInstance fun stopped R' hR' => ?_
    obtain ⟨s, rfl⟩ := hR'
    cases stopped with
    | false => exact returns_ret ⟨rfl, nofun⟩
    | true =>
      refine ih.mono fun failed R' hR' => ⟨hR'.1, fun hnone => ?_⟩
      obtain ⟨hinstances, hstates⟩ := hR'.2 hnone
      constructor
      · rw [hinstances]
        exact filter_notMem_cons ..
      · intro j hj
        rw [mem_cons, not_or] at hj
        rw [hstates j hj.2]
        simp only [if_true, Registry.remove, Registry.set, Function.update_of_ne hj.1]

theorem returns_reordered :
    Returns (fun ordered R' => ordered.Perm ids ∧ R' = R) (reordered ids) R :=
  returns_pick fun n => returns_ret ⟨perm_reordered ids n, rfl⟩

/-- The running instances, in the order in which they were listed. -/
theorem returns_running :
    Returns (fun running R' => running.Perm R.running ∧ R' = R)
      (Operation.getInstances >>= runningAmong) R := by
  have hlisted : Returns (fun ids R' => ids.Perm R.instances ∧ R' = R) Operation.getInstances R :=
    returns_getInstances (returns_reordered R.instances)
  refine returns_bind hlisted fun listed R' hlisted => ?_
  obtain ⟨hperm, rfl⟩ := hlisted
  refine (returns_runningAmong listed).mono fun running R'' hrunning => ?_
  obtain ⟨rfl, rfl⟩ := hrunning
  exact ⟨hperm.filter _, rfl⟩

theorem Grew.running {k : ℕ} (h : Grew R k R') (hnumbered : ∀ j ∈ R.instances, j < R.allocated) :
    R'.running.length = R.running.length + k := by
  have hold : R.instances.filter (fun j => (R'.states j).runs) =
      R.instances.filter fun j => (R.states j).runs := by
    refine filter_congr fun j hj => ?_
    rw [h.old j (hnumbered j hj)]
  have hnew : (range' R.allocated k).filter (fun j => (R'.states j).runs) =
      range' R.allocated k := by
    rw [filter_eq_self]
    intro j hj
    rw [h.healthy j hj]
    rfl
  rw [Registry.running, h.instances, filter_append, hold, hnew, length_append,
    length_range']
  rfl

theorem length_filter_take {ids ordered : List InstanceId} (hperm : ordered.Perm ids)
    (hnodup : ids.Nodup) (m : ℕ) : (ids.filter (· ∉ ordered.take m)).length = ids.length - m := by
  have hordered : ordered.Nodup := hperm.nodup_iff.mpr hnodup
  have hsplit : ordered.take m ++ ordered.drop m = ordered := take_append_drop m ordered
  have hdrop : (ordered.drop m).filter (· ∉ ordered.take m) = ordered.drop m := by
    rw [filter_eq_self]
    intro j hj
    rw [← hsplit, nodup_append] at hordered
    have hnot : j ∉ ordered.take m := fun hj' => hordered.2.2 j hj' j hj rfl
    exact decide_eq_true hnot
  calc (ids.filter (· ∉ ordered.take m)).length
      = (ordered.filter (· ∉ ordered.take m)).length := (hperm.filter _).length_eq.symm
    _ = ((ordered.take m ++ ordered.drop m).filter (· ∉ ordered.take m)).length := by rw [hsplit]
    _ = (ordered.drop m).length := by rw [filter_append, filter_notMem_self, hdrop, nil_append]
    _ = ids.length - m := by rw [length_drop, hperm.length_eq]

theorem Lowered.running {ids : List InstanceId} (h : Lowered R ids none R') :
    R'.running = R.running.filter (· ∉ ids) := by
  obtain ⟨hinstances, hstates⟩ := h.2 rfl
  rw [Registry.running, Registry.running, hinstances, filter_filter, filter_filter]
  refine filter_congr fun j _ => ?_
  by_cases hj : j ∈ ids
  · simp [hj]
  · simp [hj, hstates j hj]

def Resized (R : Registry) (effective : ℕ) :
    Except ScaleError Unit → Registry → Prop
  | .ok _, R' => R'.config = { R.config with minInstances := effective } ∧
      R'.running.length = effective
  | .error (.spawnFailed _), R' => R.running.length < effective ∧ R'.config = R.config ∧
      ∃ i ∈ R'.instances, i ∉ R.instances
  | .error (.stopFailed _), R' => effective < R.running.length ∧
      R'.config = { R.config with minInstances := effective }
  | .error _, _ => False

theorem returns_resize (effective : ℕ) (hnumbered : ∀ j ∈ R.instances, j < R.allocated)
    (hnodup : R.instances.Nodup) : Returns (Resized R effective) (resize R.config effective) R := by
  refine returns_updateConfig ?_
  -- the new configuration is in place; registered instances and states are as before
  generalize hnew : { R with config := { R.config with minInstances := effective } } = R₁
  have hconfig : R₁.config = { R.config with minInstances := effective } := by rw [← hnew]
  have hinstances : R₁.instances = R.instances := by rw [← hnew]
  have hrunning : R₁.running = R.running := by
    rw [← hnew]
    rfl
  have hnumbered₁ : ∀ j ∈ R₁.instances, j < R₁.allocated := by
    rw [← hnew]
    exact hnumbered
  refine returns_bind (x := Operation.getInstances >>= runningAmong) returns_running
    fun running R' hR' => ?_
  obtain ⟨hcounted, rfl⟩ := hR'
  have hlength : running.length = R.running.length := by rw [hcounted.length_eq, hrunning]
  rw [hlength]
  split
  · rename_i hup
    refine returns_bind (returns_startMore _ 0 Grew.zero) fun result R'' hR'' => ?_
    rw [Nat.zero_add] at hR''
    obtain ⟨hconfig', hgrew | ⟨error, rfl, i, hi, hmem⟩⟩ := hR''
    · obtain ⟨rfl, hgrew⟩ := hgrew
      refine returns_ret ⟨hconfig'.trans hconfig, ?_⟩
      rw [hgrew.running hnumbered₁, hrunning]
      omega
    · refine returns_updateConfig (returns_ret ⟨hup, rfl, i, hmem, fun hold => ?_⟩)
      rw [← hinstances] at hold
      exact Nat.not_lt_of_le hi (hnumbered₁ i hold)
  · split
    · rename_i hdown
      refine returns_bind (x := Operation.getInstances >>= runningAmong) returns_running
        fun candidates R' hR' => ?_
      obtain ⟨hcandidates, rfl⟩ := hR'
      refine returns_bind (returns_reordered _) fun ordered R' hR' => ?_
      obtain ⟨hperm, rfl⟩ := hR'
      refine returns_bind (returns_stopSome _) fun failed R'' hR'' => ?_
      cases failed with
      | some => exact returns_ret ⟨hdown, hR''.1.trans hconfig⟩
      | none =>
        refine returns_ret ⟨hR''.1.trans hconfig, ?_⟩
        rw [hR''.running]
        have hrunningNodup : R'.running.Nodup := by
          rw [hrunning]
          exact hnodup.filter _
        rw [length_filter_take (hperm.trans hcandidates) hrunningNodup, hrunning]
        omega
    · refine returns_ret ⟨hconfig, ?_⟩
      rw [hrunning]
      omega
end

/-- What the calls of a request have begun and not brought to an end: instances that were
allocated and have not become ready, and instances that were drained and have not been
stopped. `written` is whether the state was to be stored. -/
structure Pending where
  spawns : List InstanceId := []
  stops : List InstanceId := []
  written : Bool := false

def Pending.next (w : Pending) : (p : HostCall) → p.Reply → Pending
  | .app .allocateInstance, i => { w with spawns := i :: w.spawns }
  | .app (.send (.ready i)), _ => { w with spawns := w.spawns.filter (· ≠ i) }
  | .app (.awaitDrained i _), _ => { w with stops := i :: w.stops }
  | .app (.setStopped i), _ => { w with stops := w.stops.filter (· ≠ i) }
  | .persistAppState, _ => { w with written := true }
  | _, _ => w

section
variable {α : Type} {w : Pending} {i : InstanceId}
abbrev Pends (Q : α → Pending → Prop) (x : Operation α) (w : Pending) : Prop :=
  x.Tracks (fun w p r => w.next (.app p) r) (fun _ _ => True) Q w

theorem pends_spawn :
    Pends (fun result w => w = if result = .ok () then {} else { spawns := [i] }) (spawn i)
      { spawns := [i] } := by
  refine (trails_spawn (i := i) (t := { attached := false, state := .starting }) rfl).follow
    (F := fun t w => w = if t.ready then {} else { spawns := [i] }) ?_ ?_ rfl
  · rintro t _ p rfl hp
    refine ⟨trivial, fun r => ?_⟩
    cases p
    case send =>
      obtain rfl | rfl := hp
      · rfl
      · cases h : t.ready <;> simp [Pending.next, Trail.next]
    case setStopped => cases h : t.ready <;> simp [Pending.next, Trail.next, h]
    all_goals first | rfl | cases hp
  · rintro result t _ rfl ht
    cases result with
    | ok => simp [ht.2.2]
    | error => simp [show t.ready = false from ht]

theorem pends_kill :
    Pends (fun killed w' => w' = if killed then { w with stops := w.stops.filter (· ≠ i) } else w)
      (kill i) w := by
  refine (trails_kill (i := i) (t := { attached := true, state := .draining })).follow
    (F := fun t w' => t.ready = false →
      w' = if t.stopped then { w with stops := w.stops.filter (· ≠ i) } else w) ?_ ?_ fun _ => rfl
  · intro t w' p hrel hp
    refine ⟨trivial, fun r hready => ?_⟩
    cases p
    case send =>
      obtain rfl | rfl := hp
      · exact hrel hready
      · cases hready
    case setStopped j =>
      obtain rfl : j = i := hp
      rw [hrel hready]
      cases t.stopped <;> simp [Pending.next, Trail.next]
    all_goals first | exact hrel hready | cases hp
  · rintro killed t w' hrel rfl
    cases killed <;> exact hrel rfl

variable {ids : List InstanceId}
theorem pends_runningAmong : Pends (fun _ w' => w' = w) (runningAmong ids) w := by
  induction ids with
  | nil => rfl
  | cons _ _ ih => exact ⟨trivial, fun _ => ih.bind fun _ _ hw => hw⟩

theorem pends_removeNewInstances (hw : w.stops = []) :
    Pends (fun _ w' => w' = w) (removeNewInstances ids) w := by
  induction ids with
  | nil => rfl
  | cons _ _ ih =>
    refine pends_kill.bind fun killed w' hw' => ⟨trivial, fun _ => ?_⟩
    have hsame : w' = w := by
      rw [hw', hw]
      cases killed
      · rfl
      · rw [if_pos rfl, filter_nil, ← hw]
    rw [hsame]
    exact ih

theorem pends_startMore (started : List InstanceId) (n : ℕ) :
    Pends (fun result w => if result = .ok () then w = {} else ∃ i, w = { spawns := [i] })
      (startMore started n) {} := by
  induction n generalizing started with
  | zero => rfl
  | succ n ih =>
    refine ⟨trivial, fun i => pends_spawn.bind fun result w hw => ?_⟩
    subst hw
    cases result with
    | ok => exact ih (started ++ [i])
    | error =>
      refine (pends_removeNewInstances rfl).bind fun _ w hw => ?_
      exact ⟨i, hw⟩

theorem pends_stopSome :
    Pends (fun failed w => w = { stops := failed.toList }) (stopSome ids) {} := by
  induction ids with
  | nil => rfl
  | cons i _ ih =>
    have hstop : Pends (fun stopped w => w = if stopped then {} else { stops := [i] })
        (drainAndStopInstance i) {} := by
      refine ⟨trivial, fun _ => ⟨trivial, fun _ => ⟨trivial, fun _ => ?_⟩⟩⟩
      refine (pends_kill (i := i)).bind fun killed w hw => ?_
      cases killed with
      | false => exact hw
      | true =>
        have hw : w = {} := by simpa [Pending.next] using hw
        exact ⟨trivial, fun _ => hw⟩
    refine hstop.bind fun stopped w hw => ?_
    subst hw
    cases stopped with
    | false => rfl
    | true => exact ih

/-- What is left undone, by the result. -/
def Marks : Except ScaleError Unit → Pending → Prop
  | .error (.spawnFailed _), w => ∃ i, w = { spawns := [i] }
  | .error (.stopFailed i), w => w = { stops := [i] }
  | _, w => w = {}

theorem pends_resize (previous : AppConfig) (effective : ℕ) :
    Pends Marks (resize previous effective) {} := by
  refine ⟨trivial, fun _ => ⟨trivial, fun _ _ => pends_runningAmong.bind fun running w hw => ?_⟩⟩
  subst hw
  split
  · refine (pends_startMore [] _).bind fun result w hw => ?_
    cases result with
    | ok => exact hw
    | error => exact ⟨trivial, fun _ => hw⟩
  · split
    · refine ⟨trivial, fun _ _ => pends_runningAmong.bind fun candidates w hw => ?_⟩
      subst hw
      refine fun n => pends_stopSome.bind fun failed w hw => ?_
      cases failed <;> exact hw
    · rfl
end

inductive Background where
  | exit (i : InstanceId)
  | inFlight (i : InstanceId) (count : ℕ)
  | tick (now : ℕ)

def Background.outside : Background → Outside
  | .exit i => .exit i
  | .inFlight i count => .inFlight i count
  | .tick now => .tick now

def Background.apply (o : Background) (h : Host) : Option Host :=
  (o.outside.apply 0 h.app).map fun a => { h with app := a }

section
open HostOperation
variable {α β : Type} {h : Host}
def Host.rest (h : Host) : AppConfig × Bool := (h.stored, h.storeWorks)

/-- However the operation goes on from this server, `Q` holds of its result and of the
server then. -/
def HostReturns (Q : α → Host → Prop) (x : HostOperation α) (h : Host) : Prop :=
  ∀ made, Ensures HostCall.perform Background.apply (fun _ _ _ => True) (fun _ _ => True)
    (fun r h _ => Q r h) x h made

theorem embeds_onApp :
    Embeds perform HostCall.perform (Outside.apply 0) Background.apply Outside.Calm HostCall.app
      (fun _ r => r) Host.app Host.rest where
  calls p h r h' hperform := by
    simp only [HostCall.perform, Option.map_eq_some_iff] at hperform
    obtain ⟨_, hnext, heq⟩ := hperform
    cases heq
    exact ⟨hnext, rfl⟩
  others o h h' ho := by
    simp only [Background.apply, Option.map_eq_some_iff] at ho
    obtain ⟨a, ha, rfl⟩ := ho
    refine ⟨⟨o.outside, ?_, ha⟩, rfl⟩
    cases o <;> trivial

theorem hostReturns_onApp {Q : α → Registry → Prop} {x : Operation α}
    (hx : Returns Q x h.app.registry) :
    HostReturns (fun r h' => Q r h'.app.registry ∧ h'.rest = h.rest) (onApp x) h := by
  intro _
  exact embeds_onApp.ensures (Q := fun r a => Q r a.registry) (hx h.app [] rfl)

variable {Q : α → Host → Prop}
theorem hostReturns_bind {Q' : β → Host → Prop} {x : HostOperation α} {f : α → HostOperation β}
    (hx : HostReturns Q x h)
    (hf : ∀ r h, Q r h → HostReturns Q' (f r) h) : HostReturns Q' (x >>= f) h := by
  intro made
  exact ensures_bind (hx made) fun r h made hr => hf r h hr made

theorem stable_rest (P : Registry → AppConfig × Bool → Prop) :
    Stable (π := HostCall) (ρ := HostCall.Reply) Background.apply (fun _ _ _ => True)
      (fun h _ => P h.app.registry h.rest) := by
  intro o h _ _ hP _ ho
  simp only [Background.apply, Option.map_eq_some_iff] at ho
  obtain ⟨a, ha, rfl⟩ := ho
  have hregistry : a.registry = h.app.registry := by
    refine registry_calm ?_ ha
    cases o <;> trivial
  have hrest : Host.rest { h with app := a } = h.rest := rfl
  rw [hrest, hregistry]
  exact hP

theorem hostReturns_ret {P : α → Registry → AppConfig × Bool → Prop} {r : α}
    (hr : P r h.app.registry h.rest) :
    HostReturns (fun r h => P r h.app.registry h.rest) (pure r) h := by
  intro _
  exact ensures_ret (stable_rest (P r)) (fun _ _ => trivial) hr

theorem hostReturns_call {p : HostCall} {f : p.Reply → HostOperation α}
    (hf : ∀ h' r h'', h'.app.registry = h.app.registry → h'.rest = h.rest →
      HostCall.perform p h' = some (r, h'') → HostReturns Q (f r) h'') :
    HostReturns Q (invoke p >>= f) h := by
  intro _
  refine ensures_call (stable_rest fun R rest => R = h.app.registry ∧ rest = h.rest)
    (fun _ _ => trivial) ⟨rfl, rfl⟩ fun h' r h'' hsame hperform => ?_
  exact hf h' r h'' hsame.1 hsame.2 hperform _

variable (before : Host)
def Ended (q : ScaleRequest) (response : ScaleResponse) (R : Registry) (rest : AppConfig × Bool) :
    Prop :=
  match response with
  | .scaled _ _ _ => Resized before.app.registry q.effective (.ok ()) R ∧
      rest.1 = if before.storeWorks then R.config else before.stored
  | .error (.spawnFailed error) =>
    Resized before.app.registry q.effective (.error (.spawnFailed error)) R ∧
      rest.1 = before.stored
  | .error (.stopFailed i) =>
    Resized before.app.registry q.effective (.error (.stopFailed i)) R ∧ rest.1 = before.stored
  | .error _ => R = before.app.registry ∧ rest.1 = before.stored

theorem hostReturns_settleAppState {idle : Bool} :
    HostReturns (fun _ h' => h'.app.registry = h.app.registry ∧ h'.rest = h.rest)
      (settleAppState idle) h := by
  have hset (s : AppState) : HostReturns
      (fun _ h' => h'.app.registry = h.app.registry ∧ h'.rest = h.rest)
      (onApp (Operation.invoke (.setAppState s))) h := by
    have hcall : Returns (fun _ R => R = h.app.registry) (Operation.invoke (.setAppState s))
        h.app.registry := by
      refine returns_same (f := pure) (fun a r a' hperform => ?_) fun _ => returns_ret rfl
      cases hperform
      rfl
    exact hostReturns_onApp hcall
  cases idle with
  | false => exact hset .running
  | true =>
    refine hostReturns_bind (hset .idle) fun _ h' hh' => ?_
    refine hostReturns_call (f := pure) fun h₁ r h₂ hregistry hrest hperform => ?_
    cases hperform
    refine hostReturns_ret (P := fun _ R rest => R = h.app.registry ∧ rest = h.rest) ?_
    exact ⟨hregistry.trans hh'.1, hrest.trans hh'.2⟩

variable {q : ScaleRequest}
theorem hostReturns_finishScale {before : Host} {requested : ℕ} {standby : Bool}
    (hresized : Resized before.app.registry q.effective (.ok ()) h.app.registry)
    (hrest : h.rest = before.rest) :
    HostReturns (fun response h => Ended before q response h.app.registry h.rest)
      (finishScale q.effective requested standby) h := by
  have hcall : Returns (fun _ R => R = h.app.registry) Operation.getInstances h.app.registry :=
    returns_getInstances (returns_pick fun _ => returns_ret rfl)
  refine hostReturns_bind (hostReturns_onApp hcall) fun instances h₁ hh₁ => ?_
  obtain ⟨hregistry₁, hrest₁⟩ := hh₁
  refine hostReturns_bind hostReturns_settleAppState fun _ h₂ hh₂ => ?_
  refine hostReturns_call fun h₃ r h₄ hregistry₃ hrest₃ hperform => ?_
  -- what is written is the configuration of the app, if the store takes it
  have hregistry : h₃.app.registry = h.app.registry := hregistry₃.trans (hh₂.1.trans hregistry₁)
  have hrest₃ : h₃.rest = before.rest := hrest₃.trans (hh₂.2.trans (hrest₁.trans hrest))
  have hstored : h₃.stored = before.stored := congrArg Prod.fst hrest₃
  have hworks : h₃.storeWorks = before.storeWorks := congrArg Prod.snd hrest₃
  refine hostReturns_ret (P := Ended before q) ?_
  cases hperform
  cases hbefore : before.storeWorks with
  | true =>
    rw [hworks, hbefore, if_pos rfl]
    refine ⟨?_, ?_⟩
    · rw [hregistry]
      exact hresized
    · rw [hbefore, if_pos rfl]
      rfl
  | false =>
    rw [hworks, hbefore]
    refine ⟨?_, ?_⟩
    · simp only [Bool.false_eq_true, if_false]
      rw [hregistry]
      exact hresized
    · rw [hbefore]
      exact hstored

theorem hostReturns_scaleNative {before : Host} (hregistry : h.app.registry = before.app.registry)
    (hrest : h.rest = before.rest)
    (hnumbered : ∀ i ∈ before.app.instances, i < before.app.allocated)
    (hnodup : before.app.instances.Nodup) :
    HostReturns (fun response h => Ended before q response h.app.registry h.rest)
      (scaleNative q before.app.config) h := by
  have hstored : h.rest.1 = before.stored := congrArg Prod.fst hrest
  rw [scaleNative]
  split
  · exact hostReturns_ret (P := Ended before q) ⟨hregistry, hstored⟩
  dsimp only
  split
  · exact hostReturns_ret (P := Ended before q) ⟨hregistry, hstored⟩
  have hresize : Returns (Resized before.app.registry q.effective)
      (resize before.app.config q.effective) h.app.registry := by
    rw [hregistry]
    exact returns_resize q.effective hnumbered hnodup
  refine hostReturns_bind (hostReturns_onApp hresize) fun result h₂ hh₂ => ?_
  obtain ⟨hresized, hrest₂⟩ := hh₂
  have hrest₂ : h₂.rest = before.rest := hrest₂.trans hrest
  have hstored₂ : h₂.rest.1 = before.stored := congrArg Prod.fst hrest₂
  cases result with
  | ok => exact hostReturns_finishScale hresized hrest₂
  | error error =>
    refine hostReturns_ret (P := Ended before q) ?_
    cases error with
    | spawnFailed | stopFailed => exact ⟨hresized, hstored₂⟩
    | _ => exact hresized.elim

/-- What is left undone, by the response. -/
def Leaves : ScaleResponse → Pending → Prop
  | .error error, w => Marks (.error error) w
  | .scaled _ _ _, w => w = { written := true }

theorem tracks_settleAppState (idle : Bool) {w : Pending} :
    (settleAppState idle).Tracks Pending.next (fun _ _ => True) (fun _ w' => w' = w) w := by
  cases idle with
  | false => exact ⟨trivial, fun _ => rfl⟩
  | true => exact ⟨trivial, fun _ => ⟨trivial, fun _ => rfl⟩⟩

theorem tracks_scaleNative (previous : AppConfig) :
    (scaleNative q previous).Tracks Pending.next (fun _ _ => True) Leaves {} := by
  rw [scaleNative]
  split
  · rfl
  dsimp only
  split
  · rfl
  refine ((pends_resize previous q.effective).lift fun _ _ _ => rfl).bind fun result w hw => ?_
  cases result with
  | error => exact hw
  | ok =>
    obtain rfl : w = {} := hw
    refine ⟨trivial, fun _ _ => (tracks_settleAppState _).bind fun _ w hw => ?_⟩
    subst hw
    exact ⟨trivial, fun _ => rfl⟩

/-- The app and the store are as they were; after a scale-up also the registered
instances. -/
structure Unaffected (before : Host) (effective : ℕ) (after : Host) : Prop where
  config : after.app.config = before.app.config
  persisted : after.stored = after.app.config
  registered : before.app.registry.running.length < effective →
    ∀ i, i ∈ after.app.instances ↔ i ∈ before.app.instances

structure Achieved (effective : ℕ) (after : Host) : Prop where
  running : (after.app.instances.filter fun i => (after.app.stateOf i).runs).length = effective
  persisted : after.stored = after.app.config

def Sound (q : ScaleRequest) : ScaleResponse → Host → Prop
  | .error _, after => Unaffected before q.effective after
  | .scaled _ _ _, after => Achieved q.effective after

/-- Every instance that the request allocated became ready. Every one that it drained was
stopped and the store took what it was to store, unless the count stays the configured
one. -/
def Faultless (q : ScaleRequest) (made : List (Made HostCall HostCall.Reply Host)) : Prop :=
  (reading Pending.next {} made).spawns = [] ∧
    ((reading Pending.next {} made).stops ≠ [] ∨
      ((reading Pending.next {} made).written = true ∧ before.storeWorks = false) →
      q.effective = before.app.config.minInstances)

theorem AppConfig.with_minInstances_eq {c : AppConfig} {n : ℕ} :
    { c with minInstances := n } = c ↔ n = c.minInstances := by
  constructor
  · intro h
    exact congrArg AppConfig.minInstances h
  · rintro rfl
    rfl

theorem Ended.sound_iff {before after : Host} {response : ScaleResponse}
    {made : List (Made HostCall HostCall.Reply Host)}
    (h : Ended before q response after.app.registry after.rest)
    (hleaves : Leaves response (reading Pending.next {} made))
    (hstored : before.stored = before.app.config) :
    Sound before q response after ↔ Faultless before q made := by
  cases response with
  | scaled =>
    obtain ⟨⟨hconfig, hrunning⟩, hwritten⟩ := h
    have hconfig : after.app.config = { before.app.config with minInstances := q.effective } :=
      hconfig
    have hwritten : after.stored = if before.storeWorks then after.app.config else before.stored :=
      hwritten
    have hpersisted : after.stored = after.app.config ↔
        (before.storeWorks = false → q.effective = before.app.config.minInstances) := by
      cases hworks : before.storeWorks with
      | true => simp [hwritten, hworks]
      | false =>
        rw [hwritten, hworks, if_neg Bool.false_ne_true, hstored, hconfig, eq_comm,
          AppConfig.with_minInstances_eq]
        exact ⟨fun hmin _ => hmin, fun hmin => hmin rfl⟩
    have hfaultless : Faultless before q made ↔
        (before.storeWorks = false → q.effective = before.app.config.minInstances) := by
      rw [Faultless, show reading Pending.next {} made = { written := true } from hleaves]
      simp
    rw [hfaultless, ← hpersisted]
    exact ⟨Achieved.persisted, fun hpersisted => ⟨hrunning, hpersisted⟩⟩
  | error error =>
    have hsame {w : Pending} (hw : w = {}) (hleft : reading Pending.next {} made = w)
        (hregistry : after.app.registry = before.app.registry)
        (hunwritten : after.stored = before.stored) :
        Unaffected before q.effective after ↔ Faultless before q made := by
      have hconfig : after.app.config = before.app.config := congrArg Registry.config hregistry
      have hinstances : after.app.instances = before.app.instances :=
        congrArg Registry.instances hregistry
      refine iff_of_true ⟨hconfig, ?_, fun _ i => ?_⟩ ?_
      · rw [hunwritten, hstored, hconfig]
      · rw [hinstances]
      · rw [Faultless, hleft, hw]
        simp
    cases error with
    | spawnFailed =>
      obtain ⟨⟨hup, _, i, hi, hnew⟩, _⟩ := h
      obtain ⟨_, hleft⟩ := hleaves
      refine iff_of_false (fun hunaffected => ?_) fun hfaultless => ?_
      · exact hnew ((hunaffected.registered hup i).mp hi)
      · rw [Faultless, hleft] at hfaultless
        simp at hfaultless
    | stopFailed =>
      obtain ⟨⟨hdown, hconfig⟩, hunwritten⟩ := h
      have hconfig : after.app.config = { before.app.config with minInstances := q.effective } :=
        hconfig
      have hunwritten : after.stored = before.stored := hunwritten
      have hfaultless : Faultless before q made ↔
          q.effective = before.app.config.minInstances := by
        rw [Faultless, show reading Pending.next {} made = _ from hleaves]
        simp
      rw [hfaultless, ← AppConfig.with_minInstances_eq, ← hconfig]
      refine ⟨Unaffected.config, fun hunchanged => ⟨hunchanged, ?_, fun hup => ?_⟩⟩
      · rw [hunwritten, hstored, hunchanged]
      · exact absurd hup (Nat.lt_asymm hdown)
    | _ => exact hsame rfl hleaves h.1 h.2

/-- `scale_app` with any outcomes of its own, while requests, the clock and exits of
processes go on. -/
def scaling (scaleCompose : AppConfig → ScaleRequest → HostOperation ScaleResponse)
    (q : ScaleRequest) (before : Host) (moves : List (Move Background)) :
    Course HostCall HostCall.Reply Host ScaleResponse :=
  (⟨scaleApp scaleCompose q, before, []⟩ : Course _ _ _ _).after HostCall.perform
    Background.apply moves

theorem ensures_scaleApp
    {scaleCompose : AppConfig → ScaleRequest → HostOperation ScaleResponse} {before : Host}
    (hnative : before.app.config.compose = false)
    (hnumbered : ∀ i ∈ before.app.instances, i < before.app.allocated)
    (hnodup : before.app.instances.Nodup) :
    Ensures HostCall.perform Background.apply (fun _ _ _ => True) (fun _ _ => True)
      (fun response h made => Ended before q response h.app.registry h.rest ∧
        Leaves response (reading Pending.next {} made)) (scaleApp scaleCompose q) before [] := by
  rw [scaleApp]
  split
  · refine Ensures.reading (S := fun _ _ => True) (hostReturns_ret (P := Ended before q) ?_ []) rfl
    exact ⟨rfl, rfl⟩
  have hstable := stable_rest fun R rest => R = before.app.registry ∧ rest = before.rest
  refine ensures_call (p := .app .config) hstable (fun _ _ => ?_) ⟨rfl, rfl⟩
    fun h c h' hsame hperform => ?_
  · trivial
  cases hperform
  have hconfig : h.app.config = before.app.config := congrArg Registry.config hsame.1
  have hread : Ensures HostCall.perform Background.apply (fun _ _ _ => True) (fun _ _ => True)
      (fun response h made => Ended before q response h.app.registry h.rest ∧
        Leaves response (reading Pending.next {} made))
      (if h.app.config.compose then scaleCompose h.app.config q else scaleNative q h.app.config)
      h ([] ++ [⟨.app .config, h.app.config, h⟩]) := by
    rw [hconfig, hnative, if_neg Bool.false_ne_true]
    exact Ensures.reading (hostReturns_scaleNative hsame.1 hsame.2 hnumbered hnodup _)
      (tracks_scaleNative _)
  exact hread

theorem failed_scale_has_no_effect_iff
    (scaleCompose : AppConfig → ScaleRequest → HostOperation ScaleResponse) (q : ScaleRequest)
    (before : Host) (hnative : before.app.config.compose = false)
    (hstored : before.stored = before.app.config)
    (hnumbered : ∀ i ∈ before.app.instances, i < before.app.allocated)
    (hnodup : before.app.instances.Nodup) (moves : List (Move Background))
    (response : ScaleResponse)
    (hresponse : (scaling scaleCompose q before moves).rest = .ret response) :
    Sound before q response (scaling scaleCompose q before moves).state ↔
      Faultless before q (scaling scaleCompose q before moves).made := by
  obtain ⟨hended, hleaves⟩ := ensures_after_ret (c := ⟨scaleApp scaleCompose q, before, []⟩)
    (ensures_scaleApp hnative hnumbered hnodup) (meets_true _ moves) hresponse
  exact hended.sound_iff hleaves hstored

def single : App := ((App.new { version := "v1" }).allocateInstance.2.setInstanceStateLocked 0
  .healthy).2

def singleHost : Host := { app := single, stored := single.config }

def scaleTo (n : ℕ) (inputs : List ℕ) : Course HostCall HostCall.Reply Host ScaleResponse :=
  scaling (fun _ _ => pure (.error .compose)) { requested := some n, hostLimit := 4 } singleHost
    (inputs.map .own)

def scaledUp : Course HostCall HostCall.Reply Host ScaleResponse :=
  scaleTo 2 (replicate 11 0 ++ 8085 :: replicate 8 0)

theorem failed_scale_has_no_effect_iff_second :
    scaledUp.rest = .ret (.scaled 2 2 false) ∧
      (Sound singleHost { requested := some 2, hostLimit := 4 } (.scaled 2 2 false)
          scaledUp.state ↔
        Faultless singleHost { requested := some 2, hostLimit := 4 } scaledUp.made) :=
  ⟨rfl, failed_scale_has_no_effect_iff _ _ singleHost rfl rfl (by decide +kernel)
    (by decide +kernel) _ _ rfl⟩

def notStarted : Course HostCall HostCall.Reply Host ScaleResponse :=
  scaleTo 2 (replicate 7 0 ++ [1, 0])

def notStopped : Course HostCall HostCall.Reply Host ScaleResponse :=
  scaleTo 0 (replicate 15 0 ++ [1, 0])

/-- The process of the second instance cannot be started: the instance stays registered
and counts as starting. The only instance cannot be stopped: the count that was asked
for stays in the configuration. -/
theorem failed_scale_has_an_effect :
    (notStarted.rest = .ret (.error (.spawnFailed .spawnError)) ∧
        notStarted.state.app.instances = [0, 1] ∧ notStarted.state.app.stateOf 1 = .starting ∧
        singleHost.app.instances = [0]) ∧
      notStopped.rest = .ret (.error (.stopFailed 0)) ∧
        notStopped.state.app.config.minInstances = 0 ∧ notStopped.state.stored.minInstances = 1 :=
  ⟨⟨rfl, by decide +kernel, by decide +kernel, by decide +kernel⟩, rfl, by decide +kernel,
    by decide +kernel⟩
end
end Tako.Instances
