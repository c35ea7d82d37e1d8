import Tako.WorkflowInFlight

/-! The worker of the JavaScript SDK: it claims a run, executes its handler and turns the outcome
into one call that ends the claim. -/
namespace Tako.Workflow
variable {J : JsonCodec}
/-- `getTime()` of a `Date`. An invalid date has none, and JSON writes `null`. -/
abbrev JsDate := Option ℤ

/-- `date ? date.getTime() : null` as it arrives at the server. -/
def timeOnWire (date : Option JsDate) : Option ℤ := date.join

/-- `Run`, as the client hands it to the worker. -/
structure ClientRun (J : JsonCodec) where
  id : String
  name : String
  payload : J.Value
  status : RunStatus
  attempts : ℤ
  retries : ℤ
  runAt : ℤ
  leaseUntil : Option ℤ
  workerId : String
  lastError : Option String
  stepState : String → Option J.Value
  createdAt : ℤ

def rawToRun (raw : RunPayload J) : ClientRun J where
  id := raw.id
  name := raw.name
  payload := raw.payload
  status := raw.status
  attempts := raw.attempts
  retries := (raw.maxAttempts : ℤ) - 1
  runAt := raw.runAtMs
  leaseUntil := none
  workerId := raw.workerId
  lastError := none
  stepState := raw.stepState
  createdAt := 0

inductive Outcome where
  | returned
  | bail (reason : Option String)
  | fail (message : String)
  | defer (wakeAt : Option JsDate)
  | wait (stepName eventName : String) (timeoutAt : Option JsDate)
  | threw (message : String)
deriving DecidableEq

structure Worker where
  workerId : String
  registry : List String
  leaseMs : ℕ

variable (run : ClientRun J) (now : ClockMs) (retryAt : JsDate)
/-- The run-level retry path. `retryAt` is `Date.now()` plus the backoff. -/
def retryCall (message : String) : Call J :=
  let maxAttempts := run.retries + 1
  let finalize : Bool := run.attempts ≥ maxAttempts
  let nextRunAt := if finalize then none else some retryAt
  .fail now run.id run.workerId message (timeOnWire nextRunAt) finalize

def outcomeCall : Outcome → Call J
  | .returned => .complete now run.id run.workerId
  | .bail reason => .cancel now run.id run.workerId reason
  | .fail message => .fail now run.id run.workerId message none true
  | .defer wakeAt => .defer run.id run.workerId (timeOnWire wakeAt)
  | .wait stepName eventName timeoutAt =>
    .waitForEvent run.id run.workerId stepName eventName (timeOnWire timeoutAt)
  | .threw message => retryCall run now retryAt message

/-- The call with which `Worker.execute` ends the claim. Without an owner it
throws before it does anything. -/
def Worker.execute (w : Worker) (run : ClientRun J) (now : ClockMs) (retryAt : JsDate)
    (o : Outcome) : Option (Call J) :=
  if run.workerId = "" then none
  else if run.name ∉ w.registry then
    some (.fail now run.id run.workerId ("no handler registered for '" ++ run.name ++ "'")
      none true)
  else some (outcomeCall run now retryAt o)

/-- `complete` is awaited inside the `try`: when it is turned down, the worker
takes the retry path with the error of the RPC. -/
def Worker.afterReply (o : Outcome) (reply : Result J) : Option (Call J) :=
  match o, reply with
  | .returned, .error _ => some (retryCall run now retryAt "Internal Server Error")
  | _, _ => none

structure Executing (J : JsonCodec) where
  worker : Worker
  run : ClientRun J

def Executing.finish (x : Executing J) (plan : Planner) (now : ClockMs) (retryAt : JsDate)
    (o : Outcome) (db : RunsDb) : RunsDb :=
  match x.worker.execute x.run now retryAt o with
  | none => db
  | some c =>
    let (reply, db') := db.call plan c
    if x.run.name ∉ x.worker.registry then db'
    else
      match Worker.afterReply x.run now retryAt o reply with
      | none => db'
      | some c' => (db'.call plan c').2

structure WorkerSystem (J : JsonCodec) where
  store : RunsDb
  executing : List (Executing J)

/-- A worker claims a run, one of the executions ends, or any other call reaches
the store. -/
inductive WorkerEvent (J : JsonCodec) where
  | claim (w : Worker) (plan : Planner) (now : ClockMs) (nanoid : Nanoid)
  | finish (i : ℕ) (plan : Planner) (now : ClockMs) (retryAt : JsDate) (o : Outcome)
  | store (e : StoreEvent J)

namespace WorkerSystem
def claimCall (w : Worker) (now : ClockMs) (nanoid : Nanoid) : Call J :=
  .claim now (newClaimOwner w.workerId nanoid) w.registry w.leaseMs

def exec (e : WorkerEvent J) (sys : WorkerSystem J) : Option (Result J) × WorkerSystem J :=
  match e with
  | .claim w plan now nanoid =>
    let (reply, store) := sys.store.call plan (claimCall w now nanoid)
    let executing := match reply with
      | .ok (.claimed (some p)) => sys.executing ++ [⟨w, rawToRun p⟩]
      | _ => sys.executing
    (some reply, ⟨store, executing⟩)
  | .finish i plan now retryAt o =>
    match sys.executing[i]? with
    | none => (none, sys)
    | some x => (none, ⟨x.finish plan now retryAt o sys.store, sys.executing.eraseIdx i⟩)
  | .store e =>
    let (reply, store) := sys.store.exec e
    (reply, { sys with store := store })

def after (sys : WorkerSystem J) (events : List (WorkerEvent J)) : WorkerSystem J :=
  Execution.after exec sys events
end WorkerSystem
end Tako.Workflow
