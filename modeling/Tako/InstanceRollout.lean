import Tako.InstanceCalls

/-! A rolling update while the health checks of the new instances go on. A failed one leaves the
routing list and the registry as they were. -/
namespace Tako.Instances
open Tasks
/-- What happens to an app besides its update: a health check of a new instance
comes to its result, a process exits, requests come and go, time passes. -/
inductive Outside where
  | check (i : InstanceId) (s : InstanceState)
  | exit (i : InstanceId)
  | inFlight (i : InstanceId) (count : ℕ)
  | tick (now : ℕ)

/-- The new instances are those from `first` on. A check leaves an instance that is
starting alone, and the old instances stay healthy. -/
def Outside.apply (first : ℕ) : Outside → App → Option App
  | .check i s, a =>
    if first ≤ i ∧ a.stateOf i ≠ .starting ∧ (s = .healthy ∨ s = .unhealthy ∨ s = .stopped) then
      some (a.setInstanceHealthState i s).2
    else none
  | .exit i, a =>
    if first ≤ i then
      some (a.modify i fun instance_ =>
        { instance_ with process := instance_.process.map ({ · with exited := true }) })
    else none
  | .inFlight i count, a => some (a.modify i ({ · with inFlight := count }))
  | .tick now, a => some { a with now := now }

abbrev Log := List (Made Call Call.Reply App)

def cutover : Made Call Call.Reply App → Option App
  | ⟨.enableRolloutRouting _, .ok _, a⟩ => some a
  | _ => none

variable (made : Log)
def cutovers : List App := made.filterMap cutover

inductive Observation where
  | clock (now : ℕ)
  | look (i : InstanceId) (s : InstanceState)

def observation : (p : Call) → p.Reply → Option Observation
  | .now, now => some (.clock now)
  | .state i, s => some (.look i s)
  | _, _ => none

def observed : List Observation := made.filterMap fun m => observation m.call m.reply

def watched (seen : List Observation) (p : Call) (r : p.Reply) : List Observation :=
  seen ++ (observation p r).toList

/-- The instance was looked at between two readings of the clock that are at least the
window apart. -/
def Spans (window : ℕ) (seen : List Observation) (i : InstanceId) : Prop :=
  ∃ earlier start during stop later,
    seen = earlier ++ .clock start :: during ++ .clock stop :: later ∧
      start + window ≤ stop ∧ .look i .healthy ∈ during

/-- The looks at the instance span its stability window, and all found it healthy. -/
def Survived (r : Operation.RollingUpdateConfig) (seen : List Observation)
    (i : InstanceId) : Prop :=
  (∀ s, .look i s ∈ seen → s = .healthy) ∧
    (r.healthStabilityWindow ≠ 0 → Spans r.healthStabilityWindow seen i)

/-- A health check that comes to its result finds its instance registered and, once
the new instances take requests, leaves one of them that does. -/
def Considerate (first : ℕ) (o : Outside) (a : App) (made : Log) : Prop :=
  match o with
  | .check i s => i ∈ a.instances ∧
      (cutovers made ≠ [] → s = .healthy ∨ ∃ j ∈ a.routed, first ≤ j ∧ j ≠ i)
  | _ => True

instance Considerate.decidable (first : ℕ) :
    ∀ o a made, Decidable (Considerate first o a made)
  | .check i s, a, made => inferInstanceAs (Decidable (i ∈ a.instances ∧
      (cutovers made ≠ [] → s = .healthy ∨ ∃ j ∈ a.routed, first ≤ j ∧ j ≠ i)))
  | .exit _, _, _ => .isTrue trivial
  | .inFlight _ _, _, _ => .isTrue trivial
  | .tick _, _, _ => .isTrue trivial

def StartedFrom (config : AppConfig) (instance_ : Instance) : Prop :=
  instance_.buildVersion = config.version ∧
    instance_.process.map Child.startedFrom = some config

structure Rollout where
  before : App
  r : Operation.RollingUpdateConfig
  config : AppConfig
  target : ℕ

namespace Rollout
open Operation
variable (u : Rollout)
def fresh : List InstanceId := List.range' u.before.allocated u.target

def start : Course Call Call.Reply App RollingUpdateResult :=
  ⟨update u.r u.config u.target, u.before, []⟩

def after (moves : List (Move Outside)) : Course Call Call.Reply App RollingUpdateResult :=
  u.start.after perform (Outside.apply u.before.allocated) moves

/-- Before the cutover the routing list is the old one. The cutover puts all new
instances into it, and one of them is in it from then on. None is in it that has not
survived, with all the others, its stability window. -/
structure Serving (a : App) (made : Log) : Prop where
  uncut : cutovers made = [] → a.healthyInstances = u.before.healthyInstances
  cut : ∀ b ∈ cutovers made, b.routed = u.before.routed ++ u.fresh
  served : cutovers made ≠ [] → ∃ i ∈ u.fresh, i ∈ a.routed
  survived : (∃ i ∈ a.routed, u.before.allocated ≤ i) →
    ∀ i ∈ u.fresh, Survived u.r (observed made) i

/-- A failed update leaves what was there, a successful one the new instances. -/
structure Settled (result : RollingUpdateResult) (a : App) : Prop where
  failed : result.success = false →
    a.instances = u.before.instances ∧ a.healthyInstances = u.before.healthyInstances
  registered : result.success = true → a.instances = u.fresh
  started : result.success = true → ∀ i ∈ u.fresh, StartedFrom u.config (a.objects i)
  stopped : result.success = true → ∀ i ∈ u.before.instances,
    (a.stateOf i = .stopped ∧ (a.objects i).process = none) ∨ i ∈ a.stopFailures

/-- The update before its cutover: `live` are the new instances that are
registered, `started` those among them that have their process. -/
structure Growing (total : ℕ) (live started : List InstanceId)
    (seen : List Observation) (a : App) (made : Log) : Prop where
  instances : a.instances = u.before.instances ++ live
  healthyInstances : a.healthyInstances = u.before.healthyInstances
  allocated : a.allocated = u.before.allocated + total
  withheld : ∀ i ∈ live, u.before.allocated ≤ i ∧ i < a.allocated ∧ i ∈ a.routingSuppressed
  config : a.config = u.config
  built : ∀ i ∈ live, (a.objects i).buildVersion = u.config.version
  attached : ∀ i ∈ started, (a.objects i).process.map Child.startedFrom = some u.config
  uncut : cutovers made = []
  observed : observed made = seen
end Rollout

/-- The instances of an app and of its routing list were allocated by it. -/
structure App.Numbered (a : App) : Prop where
  instances : ∀ i ∈ a.instances, i < a.allocated
  routed : ∀ i ∈ a.routed, i < a.allocated

theorem cutovers_append (m : Made Call Call.Reply App) :
    cutovers (made ++ [m]) = cutovers made ++ (cutover m).toList := by
  simp only [cutovers, List.filterMap_append]
  cases h : cutover m <;> simp [h]

theorem observed_append (m : Made Call Call.Reply App) :
    observed (made ++ [m]) = observed made ++ (observation m.call m.reply).toList := by
  simp only [observed, List.filterMap_append]
  cases h : observation m.call m.reply <;> simp [h]

variable {seen : List Observation} {i : InstanceId}
theorem Spans.append {window : ℕ} (h : Spans window seen i) (rest : List Observation) :
    Spans window (seen ++ rest) i := by
  obtain ⟨earlier, start, during, stop, later, rfl, hspan, hlook⟩ := h
  exact ⟨earlier, start, during, stop, later ++ rest, by simp, hspan, hlook⟩

variable {p : Call} {r : p.Reply}
theorem unobserved {t : Trail} {a : App} (h : p.Works i t) :
    cutover ⟨p, r, a⟩ = none ∧ observation p r = none := by
  cases p <;> first | exact ⟨rfl, rfl⟩ | cases h

namespace Rollout
open Operation
variable {u : Rollout} {total : ℕ} {live started : List InstanceId} {a : App} {made : Log}

abbrev Steady (u : Rollout) (P : App → Log → Prop) : Prop :=
  Stable (Outside.apply u.before.allocated) (Considerate u.before.allocated) P

theorem steady_of {P : App → Log → Prop}
    (hcheck : ∀ a made i s, P a made → u.before.allocated ≤ i → a.stateOf i ≠ .starting →
      Considerate u.before.allocated (.check i s) a made → P (a.setInstanceHealthState i s).2 made)
    (hmodify : ∀ a made i f, P a made → (∀ x : Instance, (f x).buildVersion = x.buildVersion ∧
        (f x).state = x.state ∧
        (f x).process.map Child.startedFrom = x.process.map Child.startedFrom) →
      (u.before.allocated ≤ i ∨ ∀ x, (f x).process = x.process) → P (a.modify i f) made)
    (htick : ∀ a made now, P a made → P { a with now := now } made) : u.Steady P := by
  intro o a a' made h hC ho
  cases o with
  | check i s =>
    simp only [Outside.apply] at ho
    split at ho
    · rename_i hguard
      cases ho
      exact hcheck a made i s h hguard.1 hguard.2.1 hC
    · cases ho
  | exit i =>
    simp only [Outside.apply] at ho
    split at ho
    · rename_i hle
      cases ho
      refine hmodify a made i _ h (fun x => ⟨rfl, rfl, ?_⟩) (.inl hle)
      simp only [Option.map_map]
      rfl
    · cases ho
  | inFlight i =>
    cases ho
    exact hmodify a made i _ h (fun _ => ⟨rfl, rfl, rfl⟩) (.inr fun _ => rfl)
  | tick now =>
    cases ho
    exact htick a made now h

namespace Growing
variable (h : u.Growing total live started seen a made)
include h
theorem routed : a.routed = u.before.routed := by
  rw [App.routed, h.healthyInstances, App.routed]

theorem notMem_routed [hbefore : Fact u.before.Numbered] (hi : u.before.allocated ≤ i) :
    i ∉ a.routed := by
  rw [h.routed]
  exact fun hmem => Nat.not_lt_of_le hi (hbefore.out.routed i hmem)

theorem serving [Fact u.before.Numbered] : u.Serving a made where
  uncut _ := h.healthyInstances
  cut b hb := by
    rw [h.uncut] at hb
    exact absurd hb List.not_mem_nil
  served hcut := absurd h.uncut hcut
  survived := by
    rintro ⟨i, hi, hle⟩
    exact absurd hi (h.notMem_routed hle)

theorem modify {f : Instance → Instance}
    (hversion : ∀ instance_, (f instance_).buildVersion = instance_.buildVersion)
    (hprocess : i ∈ started → ∀ instance_,
      (f instance_).process.map Child.startedFrom = instance_.process.map Child.startedFrom) :
    u.Growing total live started seen (a.modify i f) made where
  __ := h
  built j hj := App.modify_kept _ (h.built j hj) fun _ => hversion
  attached j hj :=
    App.modify_kept (·.process.map _) (h.attached j hj) fun hji => hprocess (hji ▸ hj)

theorem of_now (now : ℕ) : u.Growing total live started seen { a with now := now } made :=
  { h with }

theorem of_made {b : App} (hcut : cutover ⟨p, r, b⟩ = none) :
    u.Growing total live started (watched seen p r) a (made ++ [⟨p, r, b⟩]) :=
  { h with
    uncut := by rw [cutovers_append, hcut, h.uncut]; rfl
    observed := by rw [observed_append, h.observed]; rfl }

theorem of_unobserved {b : App} (hcut : cutover ⟨p, r, b⟩ = none) (hnone : observation p r = none) :
    u.Growing total live started seen a (made ++ [⟨p, r, b⟩]) := by
  have hmade := h.of_made hcut
  rwa [watched, hnone, Option.toList_none, List.append_nil] at hmade

theorem mono {started' : List InstanceId} (hsub : ∀ i ∈ started', i ∈ started) :
    u.Growing total live started' seen a made :=
  { h with attached := fun i hi => h.attached i (hsub i hi) }

theorem setInstanceHealthState (hs : i ∈ a.routingSuppressed) (hr : i ∉ a.routed)
    (s : InstanceState) :
    u.Growing total live started seen (a.setInstanceHealthState i s).2 made := by
  simp only [App.setInstanceHealthState]
  split_ifs
  · exact h
  · rw [App.setInstanceStateLocked_of_suppressed hs hr]
    exact h.modify (fun _ => rfl) fun _ _ => rfl

omit h in
theorem steady [hbefore : Fact u.before.Numbered] :
    u.Steady (u.Growing total live started seen) := by
  refine steady_of (fun a made i s h hle _ hC => ?_) (fun a made i f h hkept _ => ?_)
    fun a made now h => h.of_now now
  · have hmem : i ∈ u.before.instances ++ live := h.instances ▸ hC.1
    obtain hold | hnew := List.mem_append.mp hmem
    · exact absurd (hbefore.out.instances i hold) (Nat.not_lt_of_le hle)
    · exact h.setInstanceHealthState (h.withheld i hnew).2.2 (h.notMem_routed hle) s
  · exact h.modify (fun x => (hkept x).1) fun _ x => (hkept x).2.2

/-- A call about a new instance keeps what is known; `started'` may have the instance
if its process is then one of the new configuration. -/
theorem adjusts [Fact u.before.Numbered] {t : Trail} {a' : App} {started' : List InstanceId}
    (hp : p.Works i t) (hi : i ∈ live) (hperform : perform p a = some (r, a'))
    (hstarted : ∀ j ∈ started', (j ≠ i ∧ j ∈ started) ∨ (j = i ∧
      p.process.getD ((a.objects i).process.map Child.startedFrom) = some u.config)) :
    u.Growing total live started' seen a' (made ++ [⟨p, r, a'⟩]) := by
  obtain ⟨f, events, healthy, rfl, hrouting, _, hf⟩ := Instances.adjusts hp hperform
  obtain ⟨hle, _, hsuppressed⟩ := h.withheld i hi
  obtain rfl := hrouting hsuppressed (h.notMem_routed hle)
  obtain ⟨hcut, hnone⟩ := unobserved (r := r) (a := { a.modify i f with events := events }) hp
  refine Growing.of_unobserved ?_ hcut hnone
  refine { h with built := fun j hj => ?_, attached := fun j hj => ?_ }
  · exact App.modify_kept _ (h.built j hj) fun _ x => (hf x).1
  · obtain ⟨hji, hj⟩ | ⟨rfl, hprocess⟩ := hstarted j hj
    · simp only [App.modify, Function.update_of_ne hji]
      exact h.attached j hj
    · simp only [App.modify, Function.update_self, hf]
      exact hprocess
end Growing
end Rollout

end Tako.Instances
