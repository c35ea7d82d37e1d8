import Tako.RelationalOrder

/-! Rows, arguments and results of the workflow store, shared by its SQLite and
its Postgres backend. -/
namespace Tako.Workflow
open Relational
def i64Max : ℤ := 9223372036854775807

def i64Min : ℤ := -9223372036854775808

def saturatingAdd (a b : ℤ) : ℤ := max i64Min (min i64Max (a + b))

/-- What `now_ms` returned at one call. Readings need not increase from call to
call, but stay below `i64::MAX`. -/
structure ClockMs where
  ms : ℤ
  lt_max : ms < i64Max

def ClockMs.epoch : ClockMs := ⟨0, by decide⟩

/-- `serde_json` on the values that pass through the queue. Printing escapes
control characters. A printed value need not parse back to itself: floats may
lose a bit and deep nesting is refused. -/
structure JsonCodec where
  Value : Type
  decEq : DecidableEq Value
  null : Value
  emptyObject : Value
  toStr : Value → String
  fromStr : String → Option Value
  fromStr_null : fromStr "null" = some null
  nul_not_mem_toStr : ∀ v, '\x00' ∉ (toStr v).toList

instance (J : JsonCodec) : DecidableEq J.Value := J.decEq

inductive JsonLiteral where
  | null
  | false
  | true
  | emptyObject
deriving DecidableEq, Repr

/-- The codec of the literals, on which the model can be run. -/
def JsonCodec.literals : JsonCodec where
  Value := JsonLiteral
  decEq := inferInstance
  null := .null
  emptyObject := .emptyObject
  toStr
    | .null => "null"
    | .false => "false"
    | .true => "true"
    | .emptyObject => "\x7b\x7d"
  fromStr text :=
    if text = "null" then some .null
    else if text = "false" then some .false
    else if text = "true" then some .true
    else if text = "\x7b\x7d" then some .emptyObject
    else none
  fromStr_null := rfl
  nul_not_mem_toStr v := by cases v <;> decide

inductive RunStatus where
  | pending
  | running
  | succeeded
  | cancelled
  | dead
deriving DecidableEq, Repr

def RunStatus.Terminal (s : RunStatus) : Prop :=
  s = .succeeded ∨ s = .cancelled ∨ s = .dead

instance (s : RunStatus) : Decidable s.Terminal :=
  inferInstanceAs (Decidable (s = .succeeded ∨ s = .cancelled ∨ s = .dead))

structure Run where
  id : String
  name : String
  payload : String
  status : RunStatus
  attempts : ℤ
  maxAttempts : ℤ
  runAt : ℤ
  leaseUntil : Option ℤ
  workerId : Option String
  lastError : Option String
  createdAt : ℤ
  finishedAt : Option ℤ
deriving DecidableEq, Repr

/-- `worker_id = owner AND status='running'`, the guard of every lifecycle write. -/
def Run.OwnedBy (owner : String) (r : Run) : Prop := r.workerId = some owner ∧ r.status = .running

instance (owner : String) : DecidablePred (Run.OwnedBy owner) := fun r =>
  inferInstanceAs (Decidable (r.workerId = some owner ∧ r.status = .running))

variable (now : ClockMs)
def Run.Claimable (names : List String) (r : Run) : Prop :=
  r.status = .pending ∧ r.runAt ≤ now.ms ∧ r.name ∈ names

instance (now : ClockMs) (names : List String) : DecidablePred (Run.Claimable now names) := fun r =>
  inferInstanceAs (Decidable (r.status = .pending ∧ r.runAt ≤ now.ms ∧ r.name ∈ names))

/-- `status='running' AND lease_until IS NOT NULL AND lease_until < now`. -/
def Run.LeaseExpired (r : Run) : Prop :=
  r.status = .running ∧ ∃ t ∈ r.leaseUntil, t < now.ms

instance (now : ClockMs) : DecidablePred (Run.LeaseExpired now) := fun r =>
  inferInstanceAs (Decidable (r.status = .running ∧ ∃ t ∈ r.leaseUntil, t < now.ms))

/-- `status IN ('succeeded', 'cancelled', 'dead') AND finished_at <= cutoff`. -/
def Run.Prunable (cutoffMs : ℤ) (r : Run) : Prop :=
  r.status.Terminal ∧ ∃ t ∈ r.finishedAt, t ≤ cutoffMs

instance (cutoffMs : ℤ) : DecidablePred (Run.Prunable cutoffMs) := fun r =>
  inferInstanceAs (Decidable (r.status.Terminal ∧ ∃ t ∈ r.finishedAt, t ≤ cutoffMs))

structure StepRow where
  runId : String
  name : String
  result : String
  completedAt : ℤ
deriving DecidableEq, Repr

def StepRow.key (r : StepRow) : String × String := (r.runId, r.name)

structure EventWaiter where
  runId : String
  stepName : String
  eventName : String
  expiresAt : Option ℤ
deriving DecidableEq, Repr

def EventWaiter.key (w : EventWaiter) : String × String := (w.runId, w.stepName)

/-- `expires_at IS NOT NULL AND expires_at <= now`. -/
def EventWaiter.Expired (w : EventWaiter) : Prop := ∃ t ∈ w.expiresAt, t ≤ now.ms

instance (now : ClockMs) : DecidablePred (EventWaiter.Expired now) := fun w =>
  inferInstanceAs (Decidable (∃ t ∈ w.expiresAt, t ≤ now.ms))

structure ScheduleRow where
  name : String
  cron : String
  lastRunAt : Option ℤ
deriving DecidableEq, Repr

structure ScheduleSpec where
  name : String
  cron : String
deriving DecidableEq, Repr

/-- The orders in which a backend meets the rows that its queries select. -/
structure Planner where
  runs : ScanOrder Run
  steps : ScanOrder StepRow
  eventWaiters : ScanOrder EventWaiter
  schedules : ScanOrder ScheduleRow

def Planner.stored : Planner := ⟨.stored, .stored, .stored, .stored⟩

structure EnqueueOpts where
  runAtMs : Option ℤ
  maxAttempts : Option UInt32
  id : Option String
deriving DecidableEq, Repr

structure EnqueueRunResponse where
  id : String
  deduplicated : Bool
deriving DecidableEq, Repr

/-- `stepState` is the JSON object of stored step results, by member name. -/
structure RunPayload (J : JsonCodec) where
  id : String
  workerId : String
  name : String
  payload : J.Value
  status : RunStatus
  attempts : ℕ
  maxAttempts : ℕ
  runAtMs : ℤ
  stepState : String → Option J.Value

inductive RunsDbError where
  | sqlite (message : String)
  | postgres (message : String)
  | json (message : String)
  | storage (message : String)
  | unsupportedBackend (message : String)
  | idConflict (id : String)
  | invalidId
  | staleWorker
deriving DecidableEq, Repr

def RunsDbError.message : RunsDbError → String
  | .sqlite m => "sqlite error: " ++ m
  | .postgres m => "postgres error: " ++ m
  | .json m => "json error: " ++ m
  | .storage m => m
  | .unsupportedBackend m => m
  | .idConflict id =>
    "workflow run ID '" ++ id ++ "' already belongs to a different workflow or payload"
  | .invalidId => "workflow run ID must contain 1–255 bytes and no NUL characters"
  | .staleWorker => "stale worker: run is no longer owned by this worker"

def maxLeaseMs : ℕ := 7 * 24 * 60 * 60 * 1000

def clampLeaseMs (leaseMs : ℕ) : ℤ := (min leaseMs maxLeaseMs : ℕ)

def defaultMaxAttempts : UInt32 := 3

def asU32 (n : ℤ) : ℕ := (n % 4294967296).toNat

variable (J : JsonCodec)
/-- `serde_json::from_str(..).unwrap_or(Null)`. -/
def JsonCodec.fromStrOrNull (text : String) : J.Value := (J.fromStr text).getD J.null

def JsonCodec.readBack (v : J.Value) : J.Value := J.fromStrOrNull (J.toStr v)

theorem JsonCodec.fromStrOrNull_null : J.fromStrOrNull "null" = J.null := by
  rw [fromStrOrNull, J.fromStr_null, Option.getD_some]

def checkExistingRun (id name : String) (payload : J.Value)
    (existingName existingPayload : String) : Except RunsDbError Unit :=
  if existingName ≠ name then .error (.idConflict id)
  else match J.fromStr existingPayload with
    | none => .error (.json "expected value")
    | some value => if value ≠ payload then .error (.idConflict id) else .ok ()

/-- One call of the store's interface. `now` is the clock reading that the call
takes, `nanoid` the identifier that it generates. -/
inductive Call (J : JsonCodec) where
  | enqueue (now : ClockMs) (nanoid name : String) (payload : J.Value) (opts : EnqueueOpts)
  | claim (now : ClockMs) (workerId : String) (names : List String) (leaseMs : ℕ)
  | heartbeat (now : ClockMs) (id workerId : String) (leaseMs : ℕ)
  | saveStep (now : ClockMs) (runId workerId stepName : String) (result : J.Value)
  | complete (now : ClockMs) (id workerId : String)
  | cancel (now : ClockMs) (id workerId : String) (reason : Option String)
  | fail (now : ClockMs) (id workerId error : String) (nextRunAtMs : Option ℤ) (finalize : Bool)
  | pruneFinishedBefore (cutoffMs : ℤ) (limit : ℕ)
  | defer (id workerId : String) (wakeAtMs : Option ℤ)
  | reclaimExpired (now : ClockMs)
  | reclaimExpiredWithWorkers (now : ClockMs)
  | inFlightByWorker
  | waitForEvent (runId workerId stepName eventName : String) (timeoutAtMs : Option ℤ)
  | signal (now : ClockMs) (eventName : String) (payload : J.Value)
  | pendingCount
  | hasRunnableWork (now : ClockMs)
  | replaceSchedules (now : ClockMs) (schedules : List ScheduleSpec)
  | listSchedules
  | setScheduleLastRunAt (name : String) (ts : ℤ)

inductive Reply (J : JsonCodec) where
  | enqueued (response : EnqueueRunResponse)
  | claimed (run : Option (RunPayload J))
  | done
  | count (n : ℕ)
  | workers (owners : List String)
  | inFlight (counts : List (String × ℕ))
  | runnable (b : Bool)
  | schedules (rows : List ScheduleRow)

abbrev Result (J : JsonCodec) := Except RunsDbError (Reply J)

end Tako.Workflow
