import Mathlib
import Tako.WorkflowInFlight

/-! The cron ticker. Every server reads the schedules, enqueues the latest due boundary of each
and writes `last_run_at` back, with other calls in between. -/
namespace Tako.Workflow
variable {J : JsonCodec}
/-- A `DateTime<Utc>` is modelled as its nanoseconds since the epoch. -/
def timestampMillis (t : ℤ) : ℤ := t / 1000000

def oneSecond : ℤ := 1000000000

/-- The `chrono` and `cron` crates as the ticker uses them. `Schedule::after`
finds each boundary from the one before it. -/
structure Calendar where
  Schedule : Type
  fromStr : String → Except String Schedule
  fromTimestampMillis : ℤ → Option ℤ
  minUtc : ℤ
  IsBoundary : Schedule → ℤ → Prop
  nextAfter : Schedule → ℤ → Option ℤ
  nextAfter_iff : ∀ schedule t b,
    nextAfter schedule t = some b ↔ IsLeast {b | IsBoundary schedule b ∧ t < b} b

/-- A calendar with one schedule, which is due at every full second. -/
def Calendar.everySecond : Calendar where
  Schedule := Unit
  fromStr cron := if cron = "* * * * * *" then .ok () else .error "Invalid expression"
  fromTimestampMillis ms := some (ms * 1000000)
  minUtc := -8000000000000 * oneSecond
  IsBoundary _ b := oneSecond ∣ b
  nextAfter _ t := some ((t / oneSecond + 1) * oneSecond)
  nextAfter_iff := by
    intro _ t b
    rw [Option.some.injEq]
    have hnext : IsLeast {b | oneSecond ∣ b ∧ t < b} ((t / oneSecond + 1) * oneSecond) := by
      constructor
      · refine ⟨⟨_, Int.mul_comm _ _⟩, ?_⟩
        show t < (t / 1000000000 + 1) * 1000000000
        omega
      · intro c hc
        obtain ⟨⟨k, rfl⟩, hlt⟩ := hc
        have hlt' : t < 1000000000 * k := hlt
        show (t / 1000000000 + 1) * 1000000000 ≤ 1000000000 * k
        omega
    constructor
    · intro hb
      rw [← hb]
      exact hnext
    · intro hb
      exact hnext.unique hb

def cronId (name : String) (bucketMs : ℤ) : String := "cron:" ++ name ++ ":" ++ toString bucketMs

theorem not_colon_mem_repr (n : ℕ) : ':' ∉ n.repr.toList := by
  intro h
  rw [Nat.repr_eq_ofList_toDigits, String.toList_ofList] at h
  exact absurd (Nat.isDigit_of_mem_toDigits (by omega) le_rfl h) (by decide)

theorem not_colon_mem_toString (z : ℤ) : ':' ∉ (toString z).toList := by
  rw [Int.toString_eq_repr, Int.repr_eq_if]
  split
  · exact not_colon_mem_repr _
  · rw [String.toList_append, List.mem_append, not_or]
    exact ⟨by decide, not_colon_mem_repr _⟩

theorem cronId_injective {name name' : String} {bucketMs bucketMs' : ℤ}
    (h : cronId name bucketMs = cronId name' bucketMs') : name = name' ∧ bucketMs = bucketMs' := by
  have hsplit (n : String) (z : ℤ) : rsplitOnce ':' (cronId n z).toList =
      some ("cron:".toList ++ n.toList, (toString z).toList) := by
    have hlist : (cronId n z).toList =
        ("cron:".toList ++ n.toList) ++ ':' :: (toString z).toList := by
      simp [cronId, String.toList_append]
    rw [hlist]
    exact rsplitOnce_append _ (not_colon_mem_toString z)
  have hparts := hsplit name bucketMs
  rw [h, hsplit name' bucketMs', Option.some.injEq, Prod.mk.injEq] at hparts
  constructor
  · exact String.toList_inj.mp (List.append_cancel_left hparts.1).symm
  · have hrepr := String.toList_inj.mp hparts.2
    rw [Int.toString_eq_repr, Int.toString_eq_repr] at hrepr
    exact (Int.repr_injective hrepr).symm

variable (cal : Calendar)
/-- The message of the first schedule whose expression does not parse. -/
def invalidCron : List ScheduleSpec → Option String
  | [] => none
  | s :: rest =>
    match cal.fromStr s.cron with
    | .error e => some ("invalid cron '" ++ s.cron ++ "' for '" ++ s.name ++ "': " ++ e)
    | .ok _ => invalidCron rest

def registerSchedules (plan : Planner) (now : ClockMs) (schedules : List ScheduleSpec)
    (db : RunsDb) : Result J × RunsDb :=
  match invalidCron cal schedules with
  | some message => (.error (.storage message), db)
  | none => db.call plan (.replaceSchedules now schedules)

/-- The loop over `schedule.after(&after)`, for at most `fuel` boundaries. -/
def latestWithin (schedule : cal.Schedule) (now : ℤ) :
    ℕ → ℤ → Option ℤ → Option ℤ
  | 0, _, latest => latest
  | fuel + 1, after, latest =>
    match cal.nextAfter schedule after with
    | none => latest
    | some t => if t > now then latest else latestWithin schedule now fuel t (some t)

/-- Boundaries increase, so the loop passes `now` before it runs out of fuel. -/
def latestBoundary (schedule : cal.Schedule) (now after : ℤ) : Option ℤ :=
  latestWithin cal schedule now (now - after).toNat after none

/-- Where the search for boundaries starts. Subtracting a second from the
earliest times panics. -/
def rowAfter (now : ℤ) (row : ScheduleRow) : Option ℤ :=
  match row.lastRunAt with
  | some ts => some ((cal.fromTimestampMillis ts).getD now)
  | none => if cal.minUtc ≤ now - oneSecond then some (now - oneSecond) else none

inductive Due where
  | panicked
  | finished
  | fire (row : ScheduleRow) (boundary : ℤ) (rest : List ScheduleRow)

def nextDue (now : ℤ) : List ScheduleRow → Due
  | [] => .finished
  | row :: rest =>
    match cal.fromStr row.cron with
    | .error _ => nextDue now rest
    | .ok schedule =>
      match rowAfter cal now row with
      | none => .panicked
      | some after =>
        match latestBoundary cal schedule now after with
        | none => nextDue now rest
        | some boundary => .fire row boundary rest

/-- How far a call of `tick_once` has come: before the enqueue of a due row,
before the write of its `last_run_at`, or at the end. -/
inductive Tick where
  | enqueueing (now : ℤ) (row : ScheduleRow) (boundary : ℤ) (rest : List ScheduleRow)
      (enqueued : ℕ)
  | recording (now : ℤ) (name : String) (bucketMs : ℤ) (rest : List ScheduleRow) (enqueued : ℕ)
  | returned (enqueued : Except RunsDbError ℕ)
  | panicked

namespace Tick
def loop (now : ℤ) (rest : List ScheduleRow) (enqueued : ℕ) : Tick :=
  match nextDue cal now rest with
  | .panicked => .panicked
  | .finished => .returned (.ok enqueued)
  | .fire row boundary rest' => .enqueueing now row boundary rest' enqueued

/-- `now`, from the argument of `tick_once` or from the clock. -/
def now (nowMs utcNow : ℤ) : ℤ := (cal.fromTimestampMillis nowMs).getD utcNow

def start (nowMs utcNow : ℤ) (listed : Result J) : Tick :=
  match listed with
  | .ok (.schedules rows) => loop cal (now cal nowMs utcNow) rows 0
  | .ok _ => .returned (.ok 0)
  | .error e => .returned (.error e)

def cronOpts (name : String) (boundary : ℤ) : EnqueueOpts :=
  ⟨some (timestampMillis boundary), none, some (cronId name (timestampMillis boundary))⟩

def request (clock : ClockMs) (nanoid : String) : Tick → Option (Call J)
  | .enqueueing _ row boundary _ _ =>
    some (.enqueue clock nanoid row.name J.emptyObject (cronOpts row.name boundary))
  | .recording _ name bucketMs _ _ => some (.setScheduleLastRunAt name bucketMs)
  | .returned _ => none
  | .panicked => none

def resume (tick : Tick) (reply : Result J) : Tick :=
  match reply with
  | .error e => .returned (.error e)
  | .ok _ =>
    match tick with
    | .enqueueing now row boundary rest enqueued =>
      .recording now row.name (timestampMillis boundary) rest enqueued
    | .recording now _ _ rest enqueued => loop cal now rest (enqueued + 1)
    | .returned r => .returned r
    | .panicked => .panicked
end Tick

/-- Servers that share a store, each with its last tick. -/
structure CronSystem (ι : Type) where
  store : RunsDb
  tick : ι → Tick

/-- A server begins a tick or makes the next store call of its tick, schedules
are registered, or any other call reaches the store. A server that crashed in a
tick begins another one. -/
inductive CronEvent (ι : Type) (J : JsonCodec) where
  | beginTick (s : ι) (plan : Planner) (nowMs utcNow : ℤ)
  | tickStep (s : ι) (plan : Planner) (clock : ClockMs) (nanoid : String)
  | registerSchedules (plan : Planner) (clock : ClockMs) (schedules : List ScheduleSpec)
  | store (e : StoreEvent J)

namespace CronSystem
variable {ι : Type} [DecidableEq ι]
def setTick (sys : CronSystem ι) (s : ι) (tick : Tick) : CronSystem ι :=
  { sys with tick := Function.update sys.tick s tick }

def exec (e : CronEvent ι J) (sys : CronSystem ι) : Option (Result J) × CronSystem ι :=
  match e with
  | .beginTick s plan nowMs utcNow =>
    let listed : Result J := (sys.store.call plan .listSchedules).1
    (some listed, sys.setTick s (.start cal nowMs utcNow listed))
  | .tickStep s plan clock nanoid =>
    match (sys.tick s).request (J := J) clock nanoid with
    | none => (none, sys)
    | some c =>
      let (reply, store) := sys.store.call plan c
      (some reply, { sys.setTick s ((sys.tick s).resume cal reply) with store := store })
  | .registerSchedules plan clock schedules =>
    let (reply, store) := Workflow.registerSchedules cal plan clock schedules sys.store
    (some reply, { sys with store := store })
  | .store e =>
    let (reply, store) := sys.store.exec e
    (reply, { sys with store := store })

def after (sys : CronSystem ι) (events : List (CronEvent ι J)) : CronSystem ι :=
  Execution.after (exec cal) sys events
end CronSystem
end Tako.Workflow
