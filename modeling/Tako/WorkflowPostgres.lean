import Tako.RelationalPartition
import Tako.WorkflowSqlite

/-! `PostgresRunsDb`: the tables that every app shares, and the statements that
an operation of one app runs on them. The tag of a row is its `app_id`. -/
namespace Tako.Workflow
open Relational
structure PostgresTables where
  runs : Table (Tagged.tagKey (τ := String) Run.id)
  steps : Table (Tagged.tagKey (τ := String) StepRow.key)
  eventWaiters : Table (Tagged.tagKey (τ := String) EventWaiter.key)
  schedules : Table (Tagged.tagKey (τ := String) ScheduleRow.name)

/-- Postgres keeps no NUL character in a `TEXT` value. -/
def NulFree (params : List String) : Prop := ∀ s ∈ params, '\x00' ∉ s.toList

instance (params : List String) : Decidable (NulFree params) :=
  inferInstanceAs (Decidable (∀ s ∈ params, '\x00' ∉ s.toList))

def nulByteError : RunsDbError :=
  .postgres "db error: ERROR: invalid byte sequence for encoding \"UTF8\": 0x00"

namespace PostgresTables
def empty : PostgresTables := ⟨.empty, .empty, .empty, .empty⟩

variable {J : JsonCodec} (pg : PostgresTables)
/-- Send text parameters with a statement. When the server turns them down the
transaction rolls back to `pg`. -/
def bind (params : List String) (rest : Result J × PostgresTables) : Result J × PostgresTables :=
  if NulFree params then rest else (.error nulByteError, pg)

variable (appId : String)
/-- `texts` are the text parameters of the set clause. -/
def updateRunning (id workerId : String) (texts : List String) (f : Run → Run)
    (hf : ∀ r, (f r).id = r.id) : Result J × PostgresTables :=
  pg.bind ([appId, id, workerId] ++ texts)
    (if pg.runs.count (fun r => r.tag = appId ∧ r.row.id = id ∧ r.row.OwnedBy workerId) = 0 then
      (.error .staleWorker, pg)
    else
      (.ok .done, { pg with
        runs := pg.runs.updateWhere
          (fun r => r.tag = appId ∧ r.row.id = id ∧ r.row.OwnedBy workerId)
          (Tagged.mapRow f) (Tagged.tagKey_mapRow hf) }))

variable (now : ClockMs)
def enqueue (nanoid name : String) (payload : J.Value) (opts : EnqueueOpts) :
    Result J × PostgresTables :=
  let id := opts.id.getD nanoid
  let row : Run :=
    { id := id, name := name, payload := J.toStr payload, status := .pending, attempts := 0,
      maxAttempts := (opts.maxAttempts.getD defaultMaxAttempts).toNat,
      runAt := opts.runAtMs.getD now.ms, leaseUntil := none, workerId := none,
      lastError := none, createdAt := now.ms, finishedAt := none }
  pg.bind [appId, id, name, J.toStr payload]
    (match pg.runs.get? (appId, id) with
    | none => (.ok (.enqueued ⟨id, false⟩), { pg with runs := pg.runs.insertIgnore ⟨appId, row⟩ })
    | some existing =>
      match checkExistingRun J id name payload existing.row.name existing.row.payload with
      | .error e => (.error e, pg)
      | .ok _ => (.ok (.enqueued ⟨id, true⟩), pg))

/-- `INSERT .. SELECT .. FROM event_waiters .. ON CONFLICT DO NOTHING`. -/
def materializeExpired (steps : Table (Tagged.tagKey (τ := String) StepRow.key))
    (waiters : List EventWaiter) : Table (Tagged.tagKey (τ := String) StepRow.key) :=
  waiters.foldl (fun steps w =>
    steps.insertIgnore ⟨appId, w.runId, w.stepName, "null", now.ms⟩) steps

variable (plan : Planner)
def claim (appId : String) (now : ClockMs) (workerId : String) (names : List String) (leaseMs : ℕ) :
    Result J × PostgresTables :=
  if names = [] then (.ok (.claimed none), pg)
  else
    let leaseUntil := saturatingAdd now.ms (clampLeaseMs leaseMs)
    let candidates := pg.runs.selectPart appId (fun r => r.Claimable now names)
    pg.bind (appId :: workerId :: names)
      (match (plan.runs.orderByLimit Run.runAt 1 candidates).head? with
      | none => (.ok (.claimed none), pg)
      | some candidate =>
        let claimed := SqliteRunsDb.claimRun workerId leaseUntil candidate
        let runs := pg.runs.updateWhere (fun r => r.tag = appId ∧ r.row.id = candidate.id)
          (Tagged.mapRow (SqliteRunsDb.claimRun workerId leaseUntil))
          (Tagged.tagKey_mapRow (SqliteRunsDb.claimRun_id workerId leaseUntil))
        let expired := pg.eventWaiters.selectPart appId
          (fun w => w.runId = candidate.id ∧ w.Expired now)
        let steps := materializeExpired appId now pg.steps expired
        let eventWaiters := pg.eventWaiters.deleteWhere
          (fun w => w.tag = appId ∧ w.row.runId = candidate.id ∧ w.row.Expired now)
        let stepRows := plan.steps.visit
          (steps.selectPart appId (fun r => r.runId = candidate.id))
        (.ok (.claimed (some (SqliteRunsDb.runPayload J workerId claimed stepRows))),
          { pg with runs := runs, steps := steps, eventWaiters := eventWaiters }))

def heartbeat (id workerId : String) (leaseMs : ℕ) : Result J × PostgresTables :=
  pg.updateRunning appId id workerId []
    (SqliteRunsDb.extendLease now leaseMs) (SqliteRunsDb.extendLease_id now leaseMs)

/-- The row is locked and its owner checked first, then the step is inserted. -/
def saveStep (runId workerId stepName : String) (result : J.Value) : Result J × PostgresTables :=
  pg.bind [appId, runId, workerId]
    (if pg.runs.count (fun r => r.tag = appId ∧ r.row.id = runId ∧ r.row.OwnedBy workerId) = 0 then
      (.error .staleWorker, pg)
    else
      pg.bind [stepName, J.toStr result]
        (.ok .done, { pg with
          steps := pg.steps.insertIgnore ⟨appId, runId, stepName, J.toStr result, now.ms⟩ }))

def complete (id workerId : String) : Result J × PostgresTables :=
  pg.updateRunning appId id workerId []
    (SqliteRunsDb.succeedRun now) (SqliteRunsDb.succeedRun_id now)

def cancel (id workerId : String) (reason : Option String) : Result J × PostgresTables :=
  pg.updateRunning appId id workerId reason.toList
    (SqliteRunsDb.cancelRun now reason) (SqliteRunsDb.cancelRun_id now reason)

def fail (id workerId error : String) (nextRunAtMs : Option ℤ) (finalize : Bool) :
    Result J × PostgresTables :=
  if finalize then
    pg.updateRunning appId id workerId [error]
      (SqliteRunsDb.killRun now error) (SqliteRunsDb.killRun_id now error)
  else
    match nextRunAtMs with
    | none => (.error (.unsupportedBackend "fail(finalize=false) requires next_run_at_ms"), pg)
    | some next =>
      pg.updateRunning appId id workerId [error]
        (SqliteRunsDb.retryRun error next) (SqliteRunsDb.retryRun_id error next)

/-- No foreign key cascades here: each table has its own `DELETE`. -/
def pruneFinishedBefore (appId : String) (cutoffMs : ℤ) (limit : ℕ) : Result J × PostgresTables :=
  pg.bind [appId]
    (let finished := pg.runs.selectPart appId (fun r => r.Prunable cutoffMs)
    let ids := (plan.runs.orderByLimit (fun r => r.finishedAt.getD 0) limit finished).map Run.id
    if ids = [] then (.ok (.count 0), pg)
    else (.ok (.count ids.length),
      { pg with
        steps := pg.steps.deleteWhere (fun r => r.tag = appId ∧ r.row.runId ∈ ids)
        eventWaiters := pg.eventWaiters.deleteWhere (fun w => w.tag = appId ∧ w.row.runId ∈ ids)
        runs := pg.runs.deleteWhere (fun r => r.tag = appId ∧ r.row.id ∈ ids) }))

def defer (id workerId : String) (wakeAtMs : Option ℤ) : Result J × PostgresTables :=
  pg.updateRunning appId id workerId []
    (SqliteRunsDb.parkRun wakeAtMs) (SqliteRunsDb.parkRun_id wakeAtMs)

def reclaimExpired : Result J × PostgresTables :=
  pg.bind [appId]
    (.ok (.count (pg.runs.count (fun r => r.tag = appId ∧ r.row.LeaseExpired now))),
      { pg with
        runs := pg.runs.updateWhere (fun r => r.tag = appId ∧ r.row.LeaseExpired now)
          (Tagged.mapRow SqliteRunsDb.releaseLease)
          (Tagged.tagKey_mapRow SqliteRunsDb.releaseLease_id) })

/-- `lease_until < $2` is not true of a null lease. Null owners are dropped from
the rows that the statement returns. -/
def reclaimExpiredWithWorkers (appId : String) (now : ClockMs) : Result J × PostgresTables :=
  pg.bind [appId]
    (let expired := plan.runs.visit (pg.runs.selectPart appId (Run.LeaseExpired now))
    (.ok (.workers (expired.filterMap Run.workerId)),
      { pg with
        runs := pg.runs.updateWhere
          (fun r => r.tag = appId ∧ r.row.id ∈ expired.map Run.id)
          (Tagged.mapRow SqliteRunsDb.releaseLease)
          (Tagged.tagKey_mapRow SqliteRunsDb.releaseLease_id) }))

def inFlightByWorker (appId : String) : Result J × PostgresTables :=
  pg.bind [appId]
    (let inFlight := plan.runs.visit
      (pg.runs.selectPart appId (fun r => r.status = .running ∧ r.workerId ≠ none))
    (.ok (.inFlight (SqliteRunsDb.groupCount (inFlight.filterMap Run.workerId))), pg))

def waitForEvent (runId workerId stepName eventName : String) (timeoutAtMs : Option ℤ) :
    Result J × PostgresTables :=
  match pg.updateRunning (J := J) appId runId workerId []
    (SqliteRunsDb.parkRun timeoutAtMs) (SqliteRunsDb.parkRun_id timeoutAtMs) with
  | (.error e, _) => (.error e, pg)
  | (.ok _, pg') =>
    pg.bind [stepName, eventName]
      (.ok .done, { pg' with
        eventWaiters := pg'.eventWaiters.upsert ⟨appId, runId, stepName, eventName, timeoutAtMs⟩
          (Tagged.mapRow fun w => { w with eventName := eventName, expiresAt := timeoutAtMs })
          (Tagged.tagKey_mapRow fun _ => rfl) })

/-- One turn of the loop in `signal`: the waiter is consumed before its step is
stored, and a waiter that is gone wakes nobody. -/
def signalWaiter (eventName payloadJson : String) (acc : PostgresTables × ℕ) (w : EventWaiter) :
    PostgresTables × ℕ :=
  let (pg, woken) := acc
  if pg.eventWaiters.count (fun v => v.tag = appId ∧ v.row.runId = w.runId ∧
      v.row.stepName = w.stepName ∧ v.row.eventName = eventName) = 0 then (pg, woken)
  else
    ({ pg with
      eventWaiters := pg.eventWaiters.deleteWhere (fun v => v.tag = appId ∧
        v.row.runId = w.runId ∧ v.row.stepName = w.stepName ∧ v.row.eventName = eventName)
      steps := pg.steps.insertIgnore ⟨appId, w.runId, w.stepName, payloadJson, now.ms⟩
      runs := pg.runs.updateWhere
        (fun r => r.tag = appId ∧ r.row.id = w.runId ∧ r.row.status = .pending)
        (Tagged.mapRow fun r => { r with status := .pending, runAt := now.ms })
        (Tagged.tagKey_mapRow fun _ => rfl) }, woken + 1)

/-- `ORDER BY run_id, step_name` sorts in the collation of the database, which
the scan order stands for. -/
def signal (appId : String) (now : ClockMs) (eventName : String) (payload : J.Value) :
    Result J × PostgresTables :=
  let payloadJson := J.toStr payload
  pg.bind [appId, eventName, payloadJson]
    (let waiters := plan.eventWaiters.visit
      (pg.eventWaiters.selectPart appId (fun w => w.eventName = eventName))
    let (pg', woken) := waiters.foldl (signalWaiter appId now eventName payloadJson) (pg, 0)
    (.ok (.count woken), pg'))

def pendingCount : Result J × PostgresTables :=
  pg.bind [appId]
    (.ok (.count (pg.runs.count (fun r => r.tag = appId ∧ r.row.status = .pending))), pg)

def hasRunnableWork : Result J × PostgresTables :=
  pg.bind [appId]
    (.ok (.runnable (pg.runs.rows.any
      (fun r => r.tag = appId ∧ r.row.status = .pending ∧ r.row.runAt ≤ now.ms))), pg)

def registerSchedule (schedules : Table (Tagged.tagKey (τ := String) ScheduleRow.name))
    (s : ScheduleSpec) : Table (Tagged.tagKey (τ := String) ScheduleRow.name) :=
  schedules.upsert ⟨appId, s.name, s.cron, some now.ms⟩
    (Tagged.mapRow fun r => { r with cron := s.cron }) (Tagged.tagKey_mapRow fun _ => rfl)

/-- Any text that the server turns down undoes the whole replacement. -/
def replaceSchedules (specs : List ScheduleSpec) : Result J × PostgresTables :=
  let names := specs.map ScheduleSpec.name
  pg.bind (appId :: names ++ specs.map ScheduleSpec.cron)
    (let kept :=
      if names = [] then pg.schedules.deleteWhere (fun r => r.tag = appId)
      else pg.schedules.deleteWhere (fun r => r.tag = appId ∧ r.row.name ∉ names)
    (.ok .done, { pg with schedules := specs.foldl (registerSchedule appId now) kept }))

def listSchedules (appId : String) : Result J × PostgresTables :=
  pg.bind [appId]
    (.ok (.schedules (plan.schedules.visit (pg.schedules.selectPart appId fun _ => True))), pg)

def setScheduleLastRunAt (name : String) (ts : ℤ) : Result J × PostgresTables :=
  pg.bind [appId, name]
    (.ok .done, { pg with
      schedules := pg.schedules.updateWhere (fun r => r.tag = appId ∧ r.row.name = name)
        (Tagged.mapRow fun r => { r with lastRunAt := some ts })
        (Tagged.tagKey_mapRow fun _ => rfl) })

def exec (appId : String) (c : Call J) (pg : PostgresTables) : Result J × PostgresTables :=
  match c with
  | .enqueue now nanoid name payload opts => pg.enqueue appId now nanoid name payload opts
  | .claim now workerId names leaseMs => pg.claim plan appId now workerId names leaseMs
  | .heartbeat now id workerId leaseMs => pg.heartbeat appId now id workerId leaseMs
  | .saveStep now runId workerId stepName result =>
    pg.saveStep appId now runId workerId stepName result
  | .complete now id workerId => pg.complete appId now id workerId
  | .cancel now id workerId reason => pg.cancel appId now id workerId reason
  | .fail now id workerId error next finalize => pg.fail appId now id workerId error next finalize
  | .pruneFinishedBefore cutoffMs limit => pg.pruneFinishedBefore plan appId cutoffMs limit
  | .defer id workerId wakeAtMs => pg.defer appId id workerId wakeAtMs
  | .reclaimExpired now => pg.reclaimExpired appId now
  | .reclaimExpiredWithWorkers now => pg.reclaimExpiredWithWorkers plan appId now
  | .inFlightByWorker => pg.inFlightByWorker plan appId
  | .waitForEvent runId workerId stepName eventName timeoutAtMs =>
    pg.waitForEvent appId runId workerId stepName eventName timeoutAtMs
  | .signal now eventName payload => pg.signal plan appId now eventName payload
  | .pendingCount => pg.pendingCount appId
  | .hasRunnableWork now => pg.hasRunnableWork appId now
  | .replaceSchedules now specs => pg.replaceSchedules appId now specs
  | .listSchedules => pg.listSchedules plan appId
  | .setScheduleLastRunAt name ts => pg.setScheduleLastRunAt appId name ts
end PostgresTables
end Tako.Workflow
