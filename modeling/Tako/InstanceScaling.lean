import Tako.ColdStart
import Tako.InstanceRegistry

/-! `scale_app` of a native app: the configuration is replaced first, then instances
are started or stopped one by one. -/
namespace Tako.Instances
open Tasks
def InstanceState.runs : InstanceState → Bool
  | .starting | .ready | .healthy => true
  | _ => false

inductive ScaleError where
  -- "Specify an instance count or reset, exclusively"
  | notExclusive
  -- "--service and --reset require a Compose app"
  | composeOnly
  -- "Requested {requested} instances, but this server allows at most {limit}. …"
  | aboveLimit (requested limit : ℕ)
  -- "Scale failed: …"
  | spawnFailed (error : Operation.InstanceError)
  | stopFailed (i : InstanceId)
  -- an error of `scale_compose`
  | compose
  deriving DecidableEq, Repr

inductive ScaleResponse where
  | error (error : ScaleError)
  | scaled (instances requested : ℕ) (standbyLimited : Bool)
  deriving DecidableEq, Repr

namespace Operation
def runningAmong : List InstanceId → Operation (List InstanceId)
  | [] => return []
  | i :: rest => do
    let s ← invoke (.state i)
    let others ← runningAmong rest
    return if s.runs then i :: others else others

/-- The loop of a scale-up. When a spawn fails the instances started before are killed
and removed. -/
def startMore (started : List InstanceId) : ℕ → Operation (Except InstanceError Unit)
  | 0 => return .ok ()
  | n + 1 => do
    let i ← invoke .allocateInstance
    match ← spawn i with
    | .ok () => startMore (started ++ [i]) n
    | .error error =>
      removeNewInstances started
      return .error error

def drainAndStopInstance (i : InstanceId) : Operation Bool := do
  let _ ← invoke (.setInstanceState i .draining)
  let deadline := (← invoke .now) + ({} : RollingUpdateConfig).drainTimeout
  invoke (.awaitDrained i deadline)
  if ← kill i then
    let _ ← invoke (.removeInstance i)
    return true
  else return false

/-- The loop of a scale-down, up to the first instance that could not be stopped. -/
def stopSome : List InstanceId → Operation (Option InstanceId)
  | [] => return none
  | i :: rest => do
    if ← drainAndStopInstance i then stopSome rest else return some i

/-- `sort_by_key` by idle time, which can be any order. -/
def byIdleTime (ids : List InstanceId) : Operation (List InstanceId) := reordered ids

/-- The part of `scale_app` that changes the app. -/
def resize (previous : AppConfig) (effective : ℕ) : Operation (Except ScaleError Unit) := do
  invoke (.updateConfig { previous with minInstances := effective })
  let running ← runningAmong (← getInstances)
  if running.length < effective then
    match ← startMore [] (effective - running.length) with
    | .ok () => return .ok ()
    | .error error =>
      invoke (.updateConfig previous)
      return .error (.spawnFailed error)
  else if effective < running.length then
    let candidates ← runningAmong (← getInstances)
    let ordered ← byIdleTime candidates
    match ← stopSome (ordered.take (running.length - effective)) with
    | none => return .ok ()
    | some i => return .error (.stopFailed i)
  else return .ok ()
end Operation

/-- A server with one app, what its state store has of it and its cold starts. A write
that the store refuses is only logged. -/
structure Host where
  app : App
  stored : AppConfig
  storeWorks : Bool := true
  coldStart : ColdStart.Manager := {}

inductive HostCall where
  | app (p : Call)
  | persistAppState
  | resetColdStart

@[reducible] def HostCall.Reply : HostCall → Type
  | .app p => p.Reply
  | _ => Unit

def HostCall.perform : (p : HostCall) → Host → Option (p.Reply × Host)
  | .app p, h => (Instances.perform p h.app).map fun next => (next.1, { h with app := next.2 })
  | .persistAppState, h => some ((), if h.storeWorks then { h with stored := h.app.config } else h)
  | .resetColdStart, h => some ((), { h with coldStart := h.coldStart.reset })

abbrev HostOperation (α : Type) := Script HostCall HostCall.Reply α

namespace HostOperation
def invoke (p : HostCall) : HostOperation p.Reply := Script.invoke p

def onApp {α : Type} (x : Operation α) : HostOperation α := x.lift .app fun _ r => r

def settleAppState (idle : Bool) : HostOperation Unit := do
  if idle then
    onApp (Operation.invoke (.setAppState .idle))
    invoke .resetColdStart
  else
    onApp (Operation.invoke (.setAppState .running))

def finishScale (effective requested : ℕ) (standby : Bool) : HostOperation ScaleResponse := do
  let instances ← onApp Operation.getInstances
  settleAppState (instances = [] ∧ effective = 0)
  invoke .persistAppState
  return .scaled effective requested (standby && effective ≠ requested)

structure ScaleRequest where
  requested : Option ℕ
  service : Option String := none
  reset : Bool := false
  standby : Bool := false
  hostLimit : ℕ

def ScaleRequest.effective (q : ScaleRequest) : ℕ :=
  if q.standby then min (q.requested.getD 0) 1 else q.requested.getD 0

/-- `scale_app` of an app that is not a Compose app, from the check of its arguments on. -/
def scaleNative (q : ScaleRequest) (previous : AppConfig) : HostOperation ScaleResponse := do
  if q.service.isSome ∨ q.reset then return .error .composeOnly
  else
    let limit := min previous.maxInstances q.hostLimit
    if limit < q.effective then return .error (.aboveLimit q.effective limit)
    else
      match ← onApp (Operation.resize previous q.effective) with
      | .error error => return .error error
      | .ok () => finishScale q.effective (q.requested.getD 0) q.standby

/-- `scale_app`; the scaling of a Compose app is another function. -/
def scaleApp (scaleCompose : AppConfig → ScaleRequest → HostOperation ScaleResponse)
    (q : ScaleRequest) : HostOperation ScaleResponse := do
  if q.reset = q.requested.isSome then return .error .notExclusive
  else
    let previous ← onApp (Operation.invoke .config)
    if previous.compose then scaleCompose previous q else scaleNative q previous
end HostOperation
end Tako.Instances
