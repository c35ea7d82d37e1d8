import Tako.WorkflowWorker
import Tako.WorkflowSteps

/-! `ctx.run`, the durable step of the SDK. A result goes into the local cache, then to the queue,
and only then to the handler. -/
namespace Tako.Workflow
variable {J : JsonCodec}
/-- A JavaScript number. Attempts are only compared with whole numbers, so a finite
one is given by its floor. -/
inductive JsNumber where
  | nan
  | negInf
  | posInf
  | finite (floor : ℤ)

def JsNumber.addOne : JsNumber → JsNumber
  | .finite floor => .finite (floor + 1)
  | n => n

/-- `attempt <= n`. -/
def JsNumber.admits (attempt : ℕ) : JsNumber → Bool
  | .nan => false
  | .negInf => false
  | .posInf => true
  | .finite floor => (attempt : ℤ) ≤ floor

structure StepRunOptions where
  retries : Option JsNumber
  /-- `retry: false`. -/
  noRetry : Bool

def StepRunOptions.attempts (opts : StepRunOptions) : JsNumber :=
  (opts.retries.getD (.finite 0)).addOne

/-- A call of the step API that has not come back: `fn` is running, or its result is
on the way to the queue. -/
inductive StepCall (J : JsonCodec) where
  | executing (name : String) (opts : StepRunOptions) (attempt : ℕ)
  | saving (name : String) (opts : StepRunOptions) (attempt : ℕ) (result : J.Value)
  | savingSleep (name : String) (value : J.Value)

/-- The step API of one claimed run. `acknowledged` is not in the source: it keeps
what the queue has confirmed to this execution, by the claim or by a save. -/
structure StepExecution (J : JsonCodec) where
  run : ClientRun J
  stepState : String → Option J.Value
  acknowledged : String → Option J.Value
  calls : List (StepCall J)

def createStepAPI (run : ClientRun J) : StepExecution J :=
  ⟨run, run.stepState, run.stepState, []⟩

inductive StepAnswer (J : JsonCodec) where
  | silent
  /-- `ctx.run` gives the handler a value, from the cache or from `fn`. -/
  | returned (id name : String) (value : J.Value) (cached : Bool)
  /-- The call throws, as a `FailSignal` or as the error itself. -/
  | threw (id name : String) (fails : Bool)

inductive Fate where
  | acknowledged
  | ackLost
  | notStored

inductive ClientEvent (J : JsonCodec) where
  | run (name : String) (opts : StepRunOptions)
  | fnReturned (j : ℕ) (result : J.Value)
  | fnThrew (j : ℕ) (signal : Bool)
  | sleepWrites (name : String) (value : J.Value)
  | save (j : ℕ) (plan : Planner) (now : ClockMs) (fate : Fate)

namespace StepExecution
variable (x : StepExecution J)
/-- `stepState[name] = value`. An assignment to `__proto__` adds no property. -/
def setState (name : String) (value : J.Value) : StepExecution J :=
  if name = "__proto__" then x
  else { x with stepState := Function.update x.stepState name (some value) }

variable (j : ℕ)
def endCall : StepExecution J :=
  { x with calls := x.calls.eraseIdx j }

/-- The `catch` block for a regular error, and the head of the loop. -/
def attemptFailed (name : String) (opts : StepRunOptions) (attempt : ℕ) :
    StepAnswer J × StepExecution J :=
  if opts.noRetry then (.threw x.run.id name true, x.endCall j)
  else if opts.attempts.admits (attempt + 1) then
    (.silent, { x with calls := x.calls.set j (.executing name opts (attempt + 1)) })
  else (.threw x.run.id name false, x.endCall j)

def acknowledge (name : String) (value : J.Value) : StepExecution J :=
  { x with acknowledged := Function.update x.acknowledged name (some value) }

def saves : Option (String × J.Value) :=
  match x.calls[j]? with
  | some (.saving name _ _ result) => some (name, result)
  | some (.savingSleep name value) => some (name, value)
  | _ => none

def saveFailed : StepAnswer J × StepExecution J :=
  match x.calls[j]? with
  | some (.saving name opts attempt _) => x.attemptFailed j name opts attempt
  | some (.savingSleep name _) => (.threw x.run.id name false, x.endCall j)
  | _ => (.silent, x)

def saveSucceeded : StepAnswer J × StepExecution J :=
  match x.calls[j]? with
  | some (.saving name _ _ result) =>
    (.returned x.run.id name result false, (x.acknowledge name result).endCall j)
  | some (.savingSleep name value) => (.silent, (x.acknowledge name value).endCall j)
  | _ => (.silent, x)

def saveCall (now : ClockMs) (name : String) (value : J.Value) : Call J :=
  .saveStep now x.run.id x.run.workerId name value

def exec (e : ClientEvent J) (x : StepExecution J) (db : RunsDb) :
    StepAnswer J × RunsDb × StepExecution J :=
  match e with
  | .run name opts =>
    match x.stepState name with
    | some value => (.returned x.run.id name value true, db, x)
    | none =>
      if opts.attempts.admits 1 then
        (.silent, db, { x with calls := x.calls ++ [.executing name opts 1] })
      else (.threw x.run.id name false, db, x)
  | .fnReturned j result =>
    match x.calls[j]? with
    | some (.executing name opts attempt) =>
      let y := x.setState name result
      (.silent, db, { y with calls := y.calls.set j (.saving name opts attempt result) })
    | _ => (.silent, db, x)
  | .fnThrew j signal =>
    match x.calls[j]? with
    | some (.executing name opts attempt) =>
      if signal then (.threw x.run.id name false, db, x.endCall j)
      else
        let (answer, y) := x.attemptFailed j name opts attempt
        (answer, db, y)
    | _ => (.silent, db, x)
  | .sleepWrites name value =>
    let y := x.setState name value
    (.silent, db, { y with calls := y.calls ++ [.savingSleep name value] })
  | .save j plan now fate =>
    match x.saves j with
    | none => (.silent, db, x)
    | some (name, value) =>
      let (reply, db') := db.call plan (x.saveCall now name value)
      match fate, reply with
      | .notStored, _ => let (answer, y) := x.saveFailed j; (answer, db, y)
      | .ackLost, _ => let (answer, y) := x.saveFailed j; (answer, db', y)
      | .acknowledged, .ok _ => let (answer, y) := x.saveSucceeded j; (answer, db', y)
      | .acknowledged, .error _ => let (answer, y) := x.saveFailed j; (answer, db', y)
end StepExecution

structure StepSystem (J : JsonCodec) where
  store : RunsDb
  executions : List (StepExecution J)

/-- A run is claimed, the code of one of the executions goes on, or any other call
reaches the store. -/
inductive StepEvent (J : JsonCodec) where
  | claim (plan : Planner) (now : ClockMs) (owner : String) (names : List String) (leaseMs : ℕ)
  | client (i : ℕ) (e : ClientEvent J)
  | store (e : StoreEvent J)

namespace StepSystem
def exec (e : StepEvent J) (sys : StepSystem J) : StepAnswer J × StepSystem J :=
  match e with
  | .claim plan now owner names leaseMs =>
    let (reply, store) := sys.store.call (J := J) plan (.claim now owner names leaseMs)
    let executions := match reply with
      | .ok (.claimed (some p)) => sys.executions ++ [createStepAPI (rawToRun p)]
      | _ => sys.executions
    (.silent, ⟨store, executions⟩)
  | .client i e =>
    match sys.executions[i]? with
    | none => (.silent, sys)
    | some x =>
      let (answer, store, y) := x.exec e sys.store
      (answer, ⟨store, sys.executions.set i y⟩)
  | .store e => (.silent, { sys with store := (sys.store.exec e).2 })

def after (sys : StepSystem J) (events : List (StepEvent J)) : StepSystem J :=
  Execution.after exec sys events
end StepSystem
end Tako.Workflow
