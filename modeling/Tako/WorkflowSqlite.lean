import Tako.RelationalTable
import Tako.WorkflowRows

/-! `SqliteRunsDb`: the four tables of one app's workflow database and the
statements that each operation runs on them. -/
namespace Tako.Workflow
open Relational
structure SqliteRunsDb where
  runs : Table Run.id
  steps : Table StepRow.key
  eventWaiters : Table EventWaiter.key
  schedules : Table ScheduleRow.name

namespace SqliteRunsDb
def empty : SqliteRunsDb := ⟨.empty, .empty, .empty, .empty⟩

variable {J : JsonCodec} (db : SqliteRunsDb)
/-- A guarded `UPDATE`; no row means the caller no longer owns the run. -/
def updateOwned (id workerId : String) (f : Run → Run) (hf : ∀ r, (f r).id = r.id) :
    Result J × SqliteRunsDb :=
  if db.runs.count (fun r => r.id = id ∧ r.OwnedBy workerId) = 0 then (.error .staleWorker, db)
  else (.ok .done,
    { db with runs := db.runs.updateWhere (fun r => r.id = id ∧ r.OwnedBy workerId) f hf })

-- The set clauses of the guarded updates, which Postgres has word for word.

variable (now : ClockMs)
def extendLease (leaseMs : ℕ) (r : Run) : Run :=
  { r with leaseUntil := some (saturatingAdd now.ms (clampLeaseMs leaseMs)) }

theorem extendLease_id (leaseMs : ℕ) (r : Run) : (extendLease now leaseMs r).id = r.id := rfl

def succeedRun (r : Run) : Run :=
  { r with status := .succeeded, workerId := none, leaseUntil := none, finishedAt := some now.ms }

theorem succeedRun_id (r : Run) : (succeedRun now r).id = r.id := rfl

def cancelRun (reason : Option String) (r : Run) : Run :=
  { r with status := .cancelled, lastError := reason, workerId := none, leaseUntil := none,
           finishedAt := some now.ms }

theorem cancelRun_id (reason : Option String) (r : Run) : (cancelRun now reason r).id = r.id := rfl

variable (error : String)
def killRun (r : Run) : Run :=
  { r with status := .dead, lastError := some error, workerId := none, leaseUntil := none,
           finishedAt := some now.ms }

theorem killRun_id (r : Run) : (killRun now error r).id = r.id :=
  rfl

def retryRun (next : ℤ) (r : Run) : Run :=
  { r with status := .pending, lastError := some error, workerId := none, leaseUntil := none,
           runAt := next }

theorem retryRun_id (next : ℤ) (r : Run) : (retryRun error next r).id = r.id := rfl

def parkRun (wakeAtMs : Option ℤ) (r : Run) : Run :=
  { r with status := .pending, workerId := none, leaseUntil := none,
           runAt := wakeAtMs.getD i64Max, attempts := r.attempts - 1 }

theorem parkRun_id (wakeAtMs : Option ℤ) (r : Run) : (parkRun wakeAtMs r).id = r.id := rfl

def enqueue (nanoid name : String) (payload : J.Value) (opts : EnqueueOpts) :
    Result J × SqliteRunsDb :=
  let id := opts.id.getD nanoid
  match db.runs.get? id with
  | none =>
    let row : Run :=
      { id := id, name := name, payload := J.toStr payload, status := .pending, attempts := 0,
        maxAttempts := (opts.maxAttempts.getD defaultMaxAttempts).toNat,
        runAt := opts.runAtMs.getD now.ms, leaseUntil := none, workerId := none,
        lastError := none, createdAt := now.ms, finishedAt := none }
    (.ok (.enqueued ⟨id, false⟩), { db with runs := db.runs.insertIgnore row })
  | some existing =>
    match checkExistingRun J id name payload existing.name existing.payload with
    | .error e => (.error e, db)
    | .ok _ => (.ok (.enqueued ⟨id, true⟩), db)

def claimRun (workerId : String) (leaseUntil : ℤ) (r : Run) : Run :=
  { r with status := .running, workerId := some workerId, leaseUntil := some leaseUntil,
           attempts := r.attempts + 1 }

theorem claimRun_id (workerId : String) (leaseUntil : ℤ) (r : Run) :
    (claimRun workerId leaseUntil r).id = r.id := rfl

/-- Expired waits become `null` results; their run is the one just claimed, so
the foreign key of `steps` holds. -/
def materializeExpired (steps : Table StepRow.key) (waiters : List EventWaiter) :
    Table StepRow.key :=
  waiters.foldl (fun steps w =>
    steps.insertIgnore ⟨w.runId, w.stepName, "null", now.ms⟩) steps

/-- `state_map.insert(name, value)` for each stored step. -/
def hydrate (J : JsonCodec) (rows : List StepRow) : String → Option J.Value :=
  rows.foldl (fun m r => Function.update m r.name (some (J.fromStrOrNull r.result))) (fun _ => none)

def runPayload (J : JsonCodec) (workerId : String) (claimed : Run) (rows : List StepRow) :
    RunPayload J :=
  { id := claimed.id, workerId := workerId, name := claimed.name,
    payload := J.fromStrOrNull claimed.payload, status := claimed.status,
    attempts := asU32 claimed.attempts, maxAttempts := asU32 claimed.maxAttempts,
    runAtMs := claimed.runAt, stepState := hydrate J rows }

variable (plan : Planner) (now : ClockMs)
def claim (workerId : String) (names : List String) (leaseMs : ℕ) : Result J × SqliteRunsDb :=
  if names = [] then (.ok (.claimed none), db)
  else
    let leaseUntil := saturatingAdd now.ms (clampLeaseMs leaseMs)
    let candidates := db.runs.rows.filter (fun r => r.Claimable now names)
    match (plan.runs.orderByLimit Run.runAt 1 candidates).head? with
    | none => (.ok (.claimed none), db)
    | some candidate =>
      let runs := db.runs.updateWhere (fun r => r.id = candidate.id) (claimRun workerId leaseUntil)
        (claimRun_id workerId leaseUntil)
      let expired := db.eventWaiters.rows.filter
        (fun w => w.runId = candidate.id ∧ w.Expired now)
      let steps := materializeExpired now db.steps expired
      let eventWaiters := db.eventWaiters.deleteWhere
        (fun w => w.runId = candidate.id ∧ w.Expired now)
      let stepRows := plan.steps.visit (steps.rows.filter (fun r => r.runId = candidate.id))
      (.ok (.claimed (some
        (runPayload J workerId (claimRun workerId leaseUntil candidate) stepRows))),
        { db with runs := runs, steps := steps, eventWaiters := eventWaiters })

def heartbeat (id workerId : String) (leaseMs : ℕ) : Result J × SqliteRunsDb :=
  updateOwned db id workerId
    (extendLease now leaseMs) (extendLease_id now leaseMs)

/-- The `INSERT OR IGNORE .. SELECT .. FROM runs` of `save_step`, with the number
of rows that it inserted. -/
def saveStepInsert (runId workerId stepName result : String) : ℕ × SqliteRunsDb :=
  if db.runs.count (fun r => r.id = runId ∧ r.OwnedBy workerId) ≠ 0 ∧
      db.steps.get? (runId, stepName) = none then
    (1, { db with steps := db.steps.insertIgnore ⟨runId, stepName, result, now.ms⟩ })
  else (0, db)

/-- The second query of `save_step`, which tells a repeated step from a stale
worker. -/
def saveStepProbe (runId workerId : String) : Result J :=
  match db.runs.get? runId with
  | none => .error .staleWorker
  | some r =>
    if r.status ≠ .running then .error .staleWorker
    else if r.workerId = some workerId then .ok .done
    else .error .staleWorker

def saveStep (runId workerId stepName : String) (result : J.Value) : Result J × SqliteRunsDb :=
  let (rows, db') := saveStepInsert db now runId workerId stepName (J.toStr result)
  if rows = 0 then (saveStepProbe db' runId workerId, db') else (.ok .done, db')

def complete (id workerId : String) : Result J × SqliteRunsDb :=
  updateOwned db id workerId
    (succeedRun now) (succeedRun_id now)

def cancel (id workerId : String) (reason : Option String) : Result J × SqliteRunsDb :=
  updateOwned db id workerId
    (cancelRun now reason) (cancelRun_id now reason)

def fail (id workerId error : String) (nextRunAtMs : Option ℤ) (finalize : Bool) :
    Result J × SqliteRunsDb :=
  if finalize then
    updateOwned db id workerId
      (killRun now error) (killRun_id now error)
  else
    match nextRunAtMs with
    | none => (.error (.storage "fail(finalize=false) requires next_run_at_ms"), db)
    | some next =>
      updateOwned db id workerId
        (retryRun error next) (retryRun_id error next)

/-- Deleting a run cascades to its steps and waiters. -/
def pruneFinishedBefore (cutoffMs : ℤ) (limit : ℕ) : Result J × SqliteRunsDb :=
  let finished := db.runs.rows.filter (fun r => r.Prunable cutoffMs)
  let ids := (plan.runs.orderByLimit (fun r => r.finishedAt.getD 0) limit finished).map Run.id
  (.ok (.count (db.runs.count (fun r => r.id ∈ ids))),
    { db with
      runs := db.runs.deleteWhere (fun r => r.id ∈ ids)
      steps := db.steps.deleteWhere (fun r => r.runId ∈ ids)
      eventWaiters := db.eventWaiters.deleteWhere (fun w => w.runId ∈ ids) })

def defer (id workerId : String) (wakeAtMs : Option ℤ) : Result J × SqliteRunsDb :=
  updateOwned db id workerId
    (parkRun wakeAtMs) (parkRun_id wakeAtMs)

def releaseLease (r : Run) : Run :=
  { r with status := .pending, workerId := none, leaseUntil := none }

theorem releaseLease_id (r : Run) : (releaseLease r).id = r.id := rfl

def reclaimExpired : Result J × SqliteRunsDb :=
  (.ok (.count (db.runs.count (Run.LeaseExpired now))),
    { db with runs := db.runs.updateWhere (Run.LeaseExpired now) releaseLease releaseLease_id })

def reclaimExpiredWithWorkers : Result J × SqliteRunsDb :=
  let expired := plan.runs.visit
    (db.runs.rows.filter (fun r => r.LeaseExpired now ∧ r.workerId ≠ none))
  (.ok (.workers (expired.filterMap Run.workerId)),
    { db with runs := db.runs.updateWhere (Run.LeaseExpired now) releaseLease releaseLease_id })

/-- `SELECT worker_id, COUNT(*) .. GROUP BY worker_id`. -/
def groupCount (owners : List String) : List (String × ℕ) :=
  owners.dedup.map (fun w => (w, asU32 (owners.count w)))

def inFlightByWorker : Result J × SqliteRunsDb :=
  let inFlight := plan.runs.visit
    (db.runs.rows.filter (fun r => r.status = .running ∧ r.workerId ≠ none))
  (.ok (.inFlight (groupCount (inFlight.filterMap Run.workerId))), db)

def waitForEvent (runId workerId stepName eventName : String) (timeoutAtMs : Option ℤ) :
    Result J × SqliteRunsDb :=
  match updateOwned (J := J) db runId workerId
    (parkRun timeoutAtMs) (parkRun_id timeoutAtMs) with
  | (.error e, _) => (.error e, db)
  | (.ok _, db') =>
    (.ok .done, { db' with
      eventWaiters := db'.eventWaiters.replaceRow ⟨runId, stepName, eventName, timeoutAtMs⟩ })

/-- One turn of the loop in `signal`. The step row is inserted under a foreign
key, which fails the transaction when the run is missing. -/
def signalWaiter (payloadJson : String) (acc : SqliteRunsDb × ℕ) (w : EventWaiter) :
    Except RunsDbError (SqliteRunsDb × ℕ) :=
  let (db, woken) := acc
  if db.steps.get? (w.runId, w.stepName) = none ∧ db.runs.get? w.runId = none then
    .error (.sqlite "FOREIGN KEY constraint failed")
  else
    .ok ({ db with
      steps := db.steps.insertIgnore ⟨w.runId, w.stepName, payloadJson, now.ms⟩
      runs := db.runs.updateWhere (fun r => r.id = w.runId ∧ r.status = .pending)
        (fun r => { r with status := .pending, runAt := now.ms }) (fun _ => rfl)
      eventWaiters := db.eventWaiters.deleteWhere
        (fun v => v.runId = w.runId ∧ v.stepName = w.stepName) }, woken + 1)

def signal (eventName : String) (payload : J.Value) : Result J × SqliteRunsDb :=
  let waiters := plan.eventWaiters.visit
    (db.eventWaiters.rows.filter (fun w => w.eventName = eventName))
  match waiters.foldlM (signalWaiter now (J.toStr payload)) (db, 0) with
  | .error e => (.error e, db)
  | .ok (db', woken) => (.ok (.count woken), db')

def pendingCount : Result J × SqliteRunsDb :=
  (.ok (.count (db.runs.count (fun r => r.status = .pending))), db)

def hasRunnableWork : Result J × SqliteRunsDb :=
  (.ok (.runnable (db.runs.rows.any (fun r => r.status = .pending ∧ r.runAt ≤ now.ms))), db)

/-- Registering a known name keeps its `last_run_at`. -/
def registerSchedule (schedules : Table ScheduleRow.name) (s : ScheduleSpec) :
    Table ScheduleRow.name :=
  schedules.upsert ⟨s.name, s.cron, some now.ms⟩ (fun r => { r with cron := s.cron })
    (fun _ => rfl)

/-- With no schedule left, the condition of the delete holds for every row. -/
def replaceSchedules (specs : List ScheduleSpec) : Result J × SqliteRunsDb :=
  let kept := db.schedules.deleteWhere (fun r => r.name ∉ specs.map ScheduleSpec.name)
  (.ok .done, { db with schedules := specs.foldl (registerSchedule now) kept })

def listSchedules : Result J × SqliteRunsDb :=
  (.ok (.schedules (plan.schedules.visit db.schedules.rows)), db)

def setScheduleLastRunAt (name : String) (ts : ℤ) : Result J × SqliteRunsDb :=
  (.ok .done, { db with
    schedules := db.schedules.updateWhere (fun r => r.name = name)
      (fun r => { r with lastRunAt := some ts }) (fun _ => rfl) })

/-- Run one call. Every operation is one statement or one transaction, and an
error leaves the tables as they were. -/
def exec (c : Call J) (db : SqliteRunsDb) : Result J × SqliteRunsDb :=
  match c with
  | .enqueue now nanoid name payload opts => db.enqueue now nanoid name payload opts
  | .claim now workerId names leaseMs => db.claim plan now workerId names leaseMs
  | .heartbeat now id workerId leaseMs => db.heartbeat now id workerId leaseMs
  | .saveStep now runId workerId stepName result => db.saveStep now runId workerId stepName result
  | .complete now id workerId => db.complete now id workerId
  | .cancel now id workerId reason => db.cancel now id workerId reason
  | .fail now id workerId error next finalize => db.fail now id workerId error next finalize
  | .pruneFinishedBefore cutoffMs limit => db.pruneFinishedBefore plan cutoffMs limit
  | .defer id workerId wakeAtMs => db.defer id workerId wakeAtMs
  | .reclaimExpired now => db.reclaimExpired now
  | .reclaimExpiredWithWorkers now => db.reclaimExpiredWithWorkers plan now
  | .inFlightByWorker => db.inFlightByWorker plan
  | .waitForEvent runId workerId stepName eventName timeoutAtMs =>
    db.waitForEvent runId workerId stepName eventName timeoutAtMs
  | .signal now eventName payload => db.signal plan now eventName payload
  | .pendingCount => db.pendingCount
  | .hasRunnableWork now => db.hasRunnableWork now
  | .replaceSchedules now specs => db.replaceSchedules now specs
  | .listSchedules => db.listSchedules plan
  | .setScheduleLastRunAt name ts => db.setScheduleLastRunAt name ts
end SqliteRunsDb
end Tako.Workflow
