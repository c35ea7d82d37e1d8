import Mathlib.Algebra.Group.Nat.Defs
import Mathlib.Data.List.Nodup
import Mathlib.Data.List.Rotate

/-! An app and its instances. An `Arc` of an instance is its number in the order of allocation, so
that one that was removed from the registry can still be held by a task. -/
namespace Tako.Instances
abbrev InstanceId := ℕ

inductive InstanceState where
  | starting
  | ready
  | healthy
  | unhealthy
  | draining
  | stopped
  deriving DecidableEq, Repr

inductive AppState where
  | running
  | idle
  | deploying
  | stopped
  | error
  deriving DecidableEq, Repr

inductive AppLaunch where
  | native
  | compose
  | container
  deriving DecidableEq, Repr

structure AppConfig where
  version : String := ""
  launch : AppLaunch := .native
  compose : Bool := false
  minInstances : ℕ := 1
  maxInstances : ℕ := 4
  deriving DecidableEq, Repr

structure Child where
  startedFrom : AppConfig
  exited : Bool := false
  deriving DecidableEq, Repr

structure Instance where
  buildVersion : String
  state : InstanceState := .starting
  upstream : Option ℕ := none
  process : Option Child := none
  container : Bool := false
  -- whether the Compose container is owned
  compose : Option Bool := none
  stopLock : Bool := false
  inFlight : ℕ := 0
  deriving DecidableEq, Repr

def Instance.endpoint (instance_ : Instance) : Option ℕ := instance_.upstream

def Instance.isAlive (instance_ : Instance) : Bool :=
  match instance_.process with
  | some child => !child.exited
  | none => false

structure HealthyInstance where
  id : InstanceId
  endpoint : Option ℕ
  deriving DecidableEq, Repr

inductive AppEvent where
  | started (id : InstanceId)
  | ready (id : InstanceId)
  | healthy (id : InstanceId)
  | unhealthy (id : InstanceId)
  | dead (id : InstanceId)
  | recovered (id : InstanceId)
  deriving DecidableEq, Repr

structure App where
  config : AppConfig
  state : AppState := .stopped
  allocated : ℕ := 0
  objects : InstanceId → Instance := fun _ => { buildVersion := "" }
  instances : List InstanceId := []
  healthyInstances : List HealthyInstance := []
  instanceTransitions : Bool := false
  routingSuppressed : List InstanceId := []
  -- consecutive failures, kept by the health checker
  failureCounts : InstanceId → ℕ := fun _ => 0
  events : List AppEvent := []
  -- the instances whose failure to stop was logged
  stopFailures : List InstanceId := []
  now : ℕ := 0

namespace App
variable (a : App) (i : InstanceId)
def modify (f : Instance → Instance) : App :=
  { a with objects := Function.update a.objects i (f (a.objects i)) }

variable (s : InstanceState)
/-- `Instance::set_state`: the raw state, without a look at the routing list. -/
def setState : App :=
  a.modify i fun instance_ => { instance_ with state := s }

def stateOf : InstanceState := (a.objects i).state

def routed : List InstanceId := a.healthyInstances.map HealthyInstance.id

def removeHealthyInstance : App :=
  { a with healthyInstances := a.healthyInstances.filter (·.id ≠ i) }

/-- The part of `add_healthy_instance` under the lock of the routing list. -/
def pushHealthyInstance : App :=
  if i ∈ a.routed then a
  else { a with
    healthyInstances := a.healthyInstances ++ [⟨i, (a.objects i).endpoint⟩] }

def addHealthyInstance : App :=
  if i ∈ a.routingSuppressed then a else a.pushHealthyInstance i

def refreshEndpoint (endpoint : Option ℕ) : List HealthyInstance → List HealthyInstance
  | [] => []
  | h :: rest =>
    if h.id = i then { h with endpoint := endpoint } :: rest
    else h :: refreshEndpoint endpoint rest

def refreshHealthyInstance : App :=
  { a with
    healthyInstances := refreshEndpoint i (a.objects i).endpoint a.healthyInstances }

def setInstanceStateLocked : InstanceState × App :=
  let previous := a.stateOf i
  let a := a.setState i s
  (previous,
    if previous = s then
      if s = .healthy then a.refreshHealthyInstance i else a
    else if previous = .healthy then a.removeHealthyInstance i
    else if s = .healthy then a.addHealthyInstance i
    else a)

/-- `set_instance_health_state`: a transition that came too late is refused. -/
def setInstanceHealthState : Bool × App :=
  if a.stateOf i = .draining ∨ a.stateOf i = .stopped then (false, a)
  else (true, (a.setInstanceStateLocked i s).2)

def suppress : App :=
  { a with routingSuppressed := i :: a.routingSuppressed.filter (· ≠ i) }

def unsuppress : App :=
  { a with routingSuppressed := a.routingSuppressed.filter (· ≠ i) }

def suppressInstanceRouting : App := (a.suppress i).removeHealthyInstance i

def enableInstanceRouting : Bool × App :=
  let a := a.unsuppress i
  if a.stateOf i = .healthy then (true, a.addHealthyInstance i) else (false, a)

/-- `enable_rollout_routing`: every instance is made routable, or none. -/
def enableRolloutRouting (ids : List InstanceId) :
    Except (InstanceId × InstanceState) Unit × App :=
  match ids.find? (fun i => a.stateOf i ≠ .healthy) with
  | some i => (.error (i, a.stateOf i), a)
  | none => (.ok (), ids.foldl (fun a i => (a.enableInstanceRouting i).2) a)

def healthyBackendForRequest (requestIndex : ℕ) : Option HealthyInstance :=
  a.healthyInstances[requestIndex % a.healthyInstances.length]?

/-- `generate_instance_id` gives a number that was not given before. -/
def allocateInstance : InstanceId × App :=
  (a.allocated,
    { a with
      allocated := a.allocated + 1
      objects := Function.update a.objects a.allocated { buildVersion := a.config.version }
      instances := a.instances ++ [a.allocated] })

def unregister : App := { a with instances := a.instances.filter (· ≠ i) }

def removeInstance : Bool × App :=
  if i ∈ a.instances then (true, ((a.unregister i).unsuppress i).removeHealthyInstance i)
  else (false, a)

def new (config : AppConfig) : App := { config := config }

variable {a i} {j : InstanceId} {s : InstanceState}
@[simp] theorem stateOf_setState_self : (a.setState i s).stateOf i = s := by
  simp only [stateOf, setState, modify, Function.update_self]

theorem stateOf_setState_of_ne (h : j ≠ i) : (a.setState i s).stateOf j = a.stateOf j := by
  simp only [stateOf, setState, modify, Function.update_of_ne h]

@[simp] theorem routed_removeHealthyInstance :
    (a.removeHealthyInstance i).routed = a.routed.filter (· ≠ i) := by
  simp only [routed, removeHealthyInstance, List.filter_map]
  rfl

theorem mem_routed_removeHealthyInstance :
    j ∈ (a.removeHealthyInstance i).routed ↔ j ∈ a.routed ∧ j ≠ i := by
  simp

theorem routed_pushHealthyInstance : (a.pushHealthyInstance i).routed =
    if i ∈ a.routed then a.routed else a.routed ++ [i] := by
  unfold pushHealthyInstance
  split
  · rfl
  · simp [routed]

theorem mem_routed_pushHealthyInstance :
    j ∈ (a.pushHealthyInstance i).routed ↔ j ∈ a.routed ∨ j = i := by
  rw [routed_pushHealthyInstance]
  split <;> simp_all

theorem map_id_refreshEndpoint (endpoint : Option ℕ) (l : List HealthyInstance) :
    (refreshEndpoint i endpoint l).map HealthyInstance.id = l.map HealthyInstance.id := by
  induction l with
  | nil => rfl
  | cons _ _ ih =>
    simp only [refreshEndpoint]
    split
    · rfl
    · simp only [List.map_cons, ih]

@[simp] theorem routed_refreshHealthyInstance : (a.refreshHealthyInstance i).routed = a.routed :=
  map_id_refreshEndpoint _ _

theorem mem_suppress : j ∈ (a.suppress i).routingSuppressed ↔ j = i ∨ j ∈ a.routingSuppressed := by
  by_cases h : j = i <;> simp [suppress, h]

theorem mem_unsuppress :
    j ∈ (a.unsuppress i).routingSuppressed ↔ j ∈ a.routingSuppressed ∧ j ≠ i := by
  simp [unsuppress]

theorem mem_unregister : j ∈ (a.unregister i).instances ↔ j ∈ a.instances ∧ j ≠ i := by
  simp [unregister]
end App

structure AppLoadBalancer where
  rrCounter : UInt64 := 0

namespace AppLoadBalancer
open List

def getBackend (lb : AppLoadBalancer) (a : App) : Option HealthyInstance × AppLoadBalancer :=
  (a.healthyBackendForRequest lb.rrCounter.toNat, ⟨lb.rrCounter + 1⟩)

/-- The backends of that many requests, while the app stays as it is. -/
def backends (a : App) : ℕ → AppLoadBalancer → List (Option HealthyInstance)
  | 0, _ => []
  | n + 1, lb => (lb.getBackend a).1 :: backends a n (lb.getBackend a).2

variable (a : App)
theorem backends_eq (n : ℕ) (lb : AppLoadBalancer) (h : lb.rrCounter.toNat + n ≤ 2 ^ 64) :
    backends a n lb =
      (range n).map fun i => a.healthyBackendForRequest (lb.rrCounter.toNat + i) := by
  induction n generalizing lb with
  | zero => rfl
  | succ n ih =>
    have hnext : (lb.rrCounter + 1).toNat = (lb.rrCounter.toNat + 1) % 2 ^ 64 :=
      UInt64.toNat_add _ _
    rw [backends, ih _ (by simp only [getBackend, hnext]; omega), range_succ_eq_map, map_cons,
      map_map]
    refine congrArg _ (map_congr_left fun i hi => ?_)
    have hi := mem_range.mp hi
    -- the counter may wrap around after the last request only
    have hindex : (lb.rrCounter.toNat + 1) % 2 ^ 64 + i = lb.rrCounter.toNat + (i + 1) := by omega
    simp only [getBackend, hnext, hindex, Function.comp_apply, Nat.succ_eq_add_one]

theorem round_eq (c : ℕ) :
    ((range a.healthyInstances.length).map fun i => a.healthyBackendForRequest (c + i)) =
      (a.healthyInstances.rotate c).map some := by
  apply ext_getElem
  · simp only [length_map, length_range, length_rotate]
  · intro i hi _
    have hi : i < a.healthyInstances.length := by simpa using hi
    have hrotate := getElem?_rotate (n := c) hi
    rw [getElem?_eq_getElem (by simpa using hi)] at hrotate
    simp only [getElem_map, getElem_range, App.healthyBackendForRequest, hrotate, Nat.add_comm c]

/-- From any turn on, `rounds` times as many requests as there are routed instances reach each
of them `rounds` times, as long as the counter does not wrap around in between. -/
theorem backends_in_turn (lb : AppLoadBalancer) (rounds : ℕ)
    (h : lb.rrCounter.toNat + rounds * a.healthyInstances.length ≤ 2 ^ 64) :
    (backends a (rounds * a.healthyInstances.length) lb).Perm
      (replicate rounds (a.healthyInstances.map some)).flatten := by
  rw [backends_eq a _ lb h]
  generalize lb.rrCounter.toNat = c
  clear h
  induction rounds generalizing c with
  | zero => rw [Nat.zero_mul]; rfl
  | succ rounds ih =>
    rw [Nat.succ_mul, Nat.add_comm, range_add, map_append, map_map, replicate_succ, flatten_cons,
      round_eq]
    refine ((rotate_perm _ c).map some).append ?_
    simpa only [Function.comp_def, Nat.add_assoc] using ih (c + a.healthyInstances.length)

theorem backends_in_turn_two :
    (backends { App.new {} with healthyInstances := [⟨0, none⟩, ⟨1, none⟩] } 4 {}).Perm
      [some ⟨0, none⟩, some ⟨1, none⟩, some ⟨0, none⟩, some ⟨1, none⟩] :=
  backends_in_turn _ {} 2 (by decide)
end AppLoadBalancer
end Tako.Instances
