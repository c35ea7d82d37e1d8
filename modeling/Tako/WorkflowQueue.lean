import Mathlib.Data.Set.Card
import Tako.WorkflowRows

/-! What the workflow store is for, independent of a database: for each call the replies and next
states that it may have. -/
namespace Tako.Workflow
open scoped Classical
@[ext] structure Queue where
  run : String → Option Run
  step : String × String → Option StepRow
  waiter : String × String → Option EventWaiter
  schedule : String → Option ScheduleRow

def Queue.empty : Queue := ⟨fun _ => none, fun _ => none, fun _ => none, fun _ => none⟩

def Run.claimedBy (owner : String) (leaseUntil : ℤ) (r : Run) : Run :=
  { r with status := .running, workerId := some owner, leaseUntil := some leaseUntil,
           attempts := r.attempts + 1 }

def Run.released (r : Run) : Run :=
  { r with status := .pending, workerId := none, leaseUntil := none }

/-- End a claim without counting it as an attempt. -/
def Run.parked (runAt : ℤ) (r : Run) : Run :=
  { r.released with runAt := runAt, attempts := r.attempts - 1 }

def Run.finished (status : RunStatus) (now : ClockMs) (r : Run) : Run :=
  { r with status := status, workerId := none, leaseUntil := none, finishedAt := some now.ms }

variable {J : JsonCodec}
/-- The run and the owner named by a call that only the owner may make. -/
def Call.caller : Call J → Option (String × String)
  | .heartbeat _ id owner _ => some (id, owner)
  | .saveStep _ id owner _ _ => some (id, owner)
  | .complete _ id owner => some (id, owner)
  | .cancel _ id owner _ => some (id, owner)
  | .fail _ id owner _ _ _ => some (id, owner)
  | .defer id owner _ => some (id, owner)
  | .waitForEvent id owner _ _ _ => some (id, owner)
  | _ => none

def Call.write : Call J → Option (Run → Run)
  | .heartbeat now _ _ leaseMs =>
    some fun r => { r with leaseUntil := some (saturatingAdd now.ms (clampLeaseMs leaseMs)) }
  | .complete now _ _ => some (Run.finished .succeeded now)
  | .cancel now _ _ reason => some fun r => { r.finished .cancelled now with lastError := reason }
  | .fail now _ _ error _ true =>
    some fun r => { r.finished .dead now with lastError := some error }
  | .fail _ _ _ error (some next) false =>
    some fun r => { r.released with lastError := some error, runAt := next }
  | .defer _ _ wakeAtMs => some (Run.parked (wakeAtMs.getD i64Max))
  | _ => none

namespace Queue
variable (q : Queue)
def Owns (id owner : String) : Prop := ∃ r, q.run id = some r ∧ r.OwnedBy owner

def setRun (r : Run) : Queue := { q with run := Function.update q.run r.id (some r) }

def setWaiter (w : EventWaiter) : Queue :=
  { q with waiter := Function.update q.waiter w.key (some w) }

/-- First write wins. -/
def saveStep (s : StepRow) : Queue :=
  { q with step := fun k => (q.step k).or (if s.key = k then some s else none) }

variable (now : ClockMs)
/-- Waits of the claimed run that have timed out resolve to `null`. -/
noncomputable def claim (r : Run) : Queue where
  run := Function.update q.run r.id (some r)
  step k := (q.step k).or
    (if k.1 = r.id ∧ ∃ w, q.waiter k = some w ∧ w.Expired now then some ⟨k.1, k.2, "null", now.ms⟩
      else none)
  waiter k := (q.waiter k).filter (fun w => ¬(k.1 = r.id ∧ w.Expired now))
  schedule := q.schedule

def Waits (eventName : String) (k : String × String) : Prop :=
  ∃ w, q.waiter k = some w ∧ w.eventName = eventName

noncomputable def signal (eventName payloadJson : String) : Queue where
  run id := (q.run id).map (fun r =>
    if r.status = .pending ∧ ∃ n, q.Waits eventName (id, n) then { r with runAt := now.ms } else r)
  step k := (q.step k).or
    (if q.Waits eventName k then some ⟨k.1, k.2, payloadJson, now.ms⟩ else none)
  waiter k := (q.waiter k).filter (fun w => ¬w.eventName = eventName)
  schedule := q.schedule

def reclaim : Queue :=
  { q with run := fun id => (q.run id).map (fun r => if r.LeaseExpired now then r.released else r) }

noncomputable def remove (gone : Set String) : Queue where
  run id := if id ∈ gone then none else q.run id
  step k := if k.1 ∈ gone then none else q.step k
  waiter k := if k.1 ∈ gone then none else q.waiter k
  schedule := q.schedule

/-- Keep the listed schedules, with the time at which a known one last ran. -/
def register (m : String → Option ScheduleRow) (s : ScheduleSpec) : String → Option ScheduleRow :=
  Function.update m s.name
    (some ⟨s.name, s.cron, ((m s.name).map (·.lastRunAt)).getD (some now.ms)⟩)

def replaceSchedules (specs : List ScheduleSpec) : Queue :=
  { q with
    schedule := specs.foldl (register now)
      (fun n => if n ∈ specs.map ScheduleSpec.name then q.schedule n else none) }

def setLastRunAt (name : String) (ts : ℤ) : Queue :=
  { q with
    schedule := Function.update q.schedule name
      ((q.schedule name).map (fun r => { r with lastRunAt := some ts })) }

def runsWith (p : Run → Prop) : Set String := {id | ∃ r, q.run id = some r ∧ p r}

def stepState (J : JsonCodec) (q : Queue) (id : String) (name : String) : Option J.Value :=
  (q.step (id, name)).map (fun s => J.fromStrOrNull s.result)

def payloadOf (J : JsonCodec) (q : Queue) (owner : String) (r : Run) : RunPayload J :=
  { id := r.id, workerId := owner, name := r.name, payload := J.fromStrOrNull r.payload,
    status := r.status, attempts := asU32 r.attempts, maxAttempts := asU32 r.maxAttempts,
    runAtMs := r.runAt, stepState := q.stepState J r.id }

def newRun (nanoid name payloadJson : String) (opts : EnqueueOpts) : Run :=
  { id := opts.id.getD nanoid, name := name, payload := payloadJson, status := .pending,
    attempts := 0, maxAttempts := (opts.maxAttempts.getD defaultMaxAttempts).toNat,
    runAt := opts.runAtMs.getD now.ms, leaseUntil := none, workerId := none,
    lastError := none, createdAt := now.ms, finishedAt := none }

/-- A run that a claim may pick: no claimable run is due before it. -/
structure Next (q : Queue) (now : ClockMs) (names : List String) (r : Run) : Prop where
  stored : q.run r.id = some r
  claimable : r.Claimable now names
  least : ∀ id b, q.run id = some b → b.Claimable now names → r.runAt ≤ b.runAt

/-- The runs that a prune may remove: as many of the oldest as the limit allows. -/
structure Oldest (q : Queue) (cutoffMs : ℤ) (limit : ℕ) (gone : Set String) : Prop where
  prunable : gone ⊆ q.runsWith (Run.Prunable cutoffMs)
  finite : gone.Finite
  ncard_eq : gone.ncard = min limit (q.runsWith (Run.Prunable cutoffMs)).ncard
  least : ∀ i ∈ gone, ∀ j ∉ gone, ∀ a b, q.run i = some a → q.run j = some b →
    b.Prunable cutoffMs → a.finishedAt.getD 0 ≤ b.finishedAt.getD 0
end Queue

/-- `Step rejects q c r q'`: in state `q` the call `c` may reply `r` and leave
`q'`. A backend may reject a call because of its arguments, as `rejects` says. -/
inductive Step (rejects : Call J → RunsDbError → Prop) (q : Queue) :
    Call J → Result J → Queue → Prop where
  | rejected {c e} (h : rejects c e) : Step rejects q c (.error e) q
  | enqueueNew {now nanoid name payload opts} (h : q.run (opts.id.getD nanoid) = none) :
    Step rejects q (.enqueue now nanoid name payload opts)
      (.ok (.enqueued ⟨opts.id.getD nanoid, false⟩))
      (q.setRun (Queue.newRun now nanoid name (J.toStr payload) opts))
  | enqueueKnown {now nanoid name payload opts r} (h : q.run (opts.id.getD nanoid) = some r) :
    Step rejects q (.enqueue now nanoid name payload opts)
      ((checkExistingRun J (opts.id.getD nanoid) name payload r.name r.payload).map
        fun _ => .enqueued ⟨opts.id.getD nanoid, true⟩) q
  | claimNothing {now owner names leaseMs}
    (h : ∀ id r, q.run id = some r → ¬r.Claimable now names) :
    Step rejects q (.claim now owner names leaseMs) (.ok (.claimed none)) q
  | claimNext {now owner names leaseMs r r'} (h : q.Next now names r)
    (hr : r' = r.claimedBy owner (saturatingAdd now.ms (clampLeaseMs leaseMs))) :
    Step rejects q (.claim now owner names leaseMs)
      (.ok (.claimed (some ((q.claim now r').payloadOf J owner r')))) (q.claim now r')
  | stale {c id owner} (hc : c.caller = some (id, owner)) (h : ¬q.Owns id owner) :
    Step rejects q c (.error .staleWorker) q
  | written {c id owner f r} (hc : c.caller = some (id, owner)) (hw : c.write = some f)
    (hr : q.run id = some r) (ho : r.OwnedBy owner) :
    Step rejects q c (.ok .done) (q.setRun (f r))
  | saved {now id owner name result} (h : q.Owns id owner) :
    Step rejects q (.saveStep now id owner name result) (.ok .done)
      (q.saveStep ⟨id, name, J.toStr result, now.ms⟩)
  | waiting {id owner stepName eventName timeoutAtMs r} (hr : q.run id = some r)
    (ho : r.OwnedBy owner) :
    Step rejects q (.waitForEvent id owner stepName eventName timeoutAtMs) (.ok .done)
      ((q.setRun (r.parked (timeoutAtMs.getD i64Max))).setWaiter
        ⟨id, stepName, eventName, timeoutAtMs⟩)
  | pruned {cutoffMs limit gone} (h : q.Oldest cutoffMs limit gone) :
    Step rejects q (.pruneFinishedBefore cutoffMs limit) (.ok (.count gone.ncard)) (q.remove gone)
  | reclaimed {now} :
    Step rejects q (.reclaimExpired now)
      (.ok (.count (q.runsWith (Run.LeaseExpired now)).ncard)) (q.reclaim now)
  | reclaimedFrom {now owners}
    (h : ∀ o, owners.count o =
      (q.runsWith fun r => r.LeaseExpired now ∧ r.workerId = some o).ncard) :
    Step rejects q (.reclaimExpiredWithWorkers now) (.ok (.workers owners)) (q.reclaim now)
  | inFlight {counts} (hn : (counts.map Prod.fst).Nodup)
    (h : ∀ o n, (o, n) ∈ counts ↔ (q.runsWith (Run.OwnedBy o)).ncard ≠ 0 ∧
      n = asU32 (q.runsWith (Run.OwnedBy o)).ncard) :
    Step rejects q .inFlightByWorker (.ok (.inFlight counts)) q
  | signalled {now eventName payload} :
    Step rejects q (.signal now eventName payload)
      (.ok (.count {k | q.Waits eventName k}.ncard)) (q.signal now eventName (J.toStr payload))
  | pendingCount :
    Step rejects q .pendingCount (.ok (.count (q.runsWith fun r => r.status = .pending).ncard)) q
  | hasRunnableWork {now} {b : Bool}
    (h : b = true ↔ ∃ id r, q.run id = some r ∧ r.status = .pending ∧ r.runAt ≤ now.ms) :
    Step rejects q (.hasRunnableWork now) (.ok (.runnable b)) q
  | replaceSchedules {now specs} :
    Step rejects q (.replaceSchedules now specs) (.ok .done) (q.replaceSchedules now specs)
  | listSchedules {rows} (hn : (rows.map ScheduleRow.name).Nodup)
    (h : ∀ r, r ∈ rows ↔ q.schedule r.name = some r) :
    Step rejects q .listSchedules (.ok (.schedules rows)) q
  | setScheduleLastRunAt {name ts} :
    Step rejects q (.setScheduleLastRunAt name ts) (.ok .done) (q.setLastRunAt name ts)

theorem Step.mono {rejects rejects' : Call J → RunsDbError → Prop} {q q' : Queue} {c : Call J}
    {r : Result J} (hs : Step rejects q c r q') (h : ∀ e, rejects c e → rejects' c e) :
    Step rejects' q c r q' := by
  cases hs with
  | rejected hr => exact .rejected (h _ hr)
  | enqueueNew hn => exact .enqueueNew hn
  | enqueueKnown hk => exact .enqueueKnown hk
  | claimNothing hn => exact .claimNothing hn
  | claimNext hn hr => exact .claimNext hn hr
  | stale hc hn => exact .stale hc hn
  | written hc hw hr ho => exact .written hc hw hr ho
  | saved ho => exact .saved ho
  | waiting hr ho => exact .waiting hr ho
  | pruned hg => exact .pruned hg
  | reclaimed => exact .reclaimed
  | reclaimedFrom ho => exact .reclaimedFrom ho
  | inFlight hn hm => exact .inFlight hn hm
  | signalled => exact .signalled
  | pendingCount => exact .pendingCount
  | hasRunnableWork hb => exact .hasRunnableWork hb
  | replaceSchedules => exact .replaceSchedules
  | listSchedules hn hm => exact .listSchedules hn hm
  | setScheduleLastRunAt => exact .setScheduleLastRunAt

end Tako.Workflow
