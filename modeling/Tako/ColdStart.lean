import Tako.TaskPools

/-! Cold starts of one app. The leader of an attempt spawns the instance; the outcome is reported
by the name of the app. -/
namespace Tako.ColdStart
open Tasks
inductive ColdStartState where
  | idle
  | starting
  | ready
  | failed
  deriving DecidableEq

inductive WaitForReadyOutcome where
  | ready
  | failed
  | timeout
  | queueFull
  deriving DecidableEq

/-- A broadcast channel on which one value is sent. Dropping its sender closes it. -/
inductive Channel where
  | empty
  | sent (ready : Bool)
  | closed
  deriving DecidableEq

/-- The channel and the semaphore are those of the attempt in which they were made. -/
structure AppColdStart where
  state : ColdStartState := .idle
  readyTx : Option ℕ := none
  queueSlots : Option ℕ := none

structure Manager where
  app : Option AppColdStart := none
  attempts : ℕ := 0
  channels : ℕ → Channel := fun _ => .empty
  permits : ℕ → ℕ := fun _ => 0

namespace Manager
variable (m : Manager)
def state : ColdStartState := (m.app.getD {}).state

def current : Option ℕ :=
  m.app.bind fun coldStart => if coldStart.state = .starting then coldStart.readyTx else none

def begin (maxQueued : ℕ) (m : Manager) : Bool × Manager :=
  match m.state with
  | .idle | .failed =>
    (true, { app := some ⟨.starting, some m.attempts, some m.attempts⟩
             attempts := m.attempts + 1
             channels := Function.update m.channels m.attempts .empty
             permits := Function.update m.permits m.attempts maxQueued })
  | .starting | .ready => (false, m)

/-- The first part of `wait_for_ready_outcome`: a receiver and a permit. -/
def queue : Except WaitForReadyOutcome (ℕ × ℕ) × Manager :=
  match m.app with
  | some ⟨.ready, _, _⟩ => (.error .ready, m)
  | some ⟨.starting, readyTx, some slots⟩ =>
    if m.permits slots = 0 then (.error .queueFull, m)
    else
      match readyTx with
      | none => (.error .failed, m)
      | some rx =>
        (.ok (rx, slots),
          { m with permits := Function.update m.permits slots (m.permits slots - 1) })
  | some ⟨.starting, _, none⟩ => (.error .queueFull, m)
  | _ => (.error .failed, m)

def release (slots : ℕ) : Manager :=
  { m with permits := Function.update m.permits slots (m.permits slots + 1) }

def recv (rx : ℕ) : Option WaitForReadyOutcome :=
  match m.channels rx with
  | .empty => none
  | .sent true => some .ready
  | .sent false | .closed => some .failed

def finish (ready : Bool) : Manager :=
  match m.app with
  | none => m
  | some coldStart =>
    { m with
      app := some { coldStart with state := if ready then .ready else .failed, readyTx := none }
      channels := match coldStart.readyTx with
        | some tx => Function.update m.channels tx (.sent ready)
        | none => m.channels }

def markReady : Manager := m.finish true

def markFailed : Manager := m.finish false

def reset : Manager :=
  { m with
    app := none
    channels := match m.app.bind AppColdStart.readyTx with
      | some tx => Function.update m.channels tx .closed
      | none => m.channels }
end Manager

/-- A report, with the attempt whose instance or leader it is about. -/
inductive Mark where
  | ready (about : Option ℕ)
  | failed (about : Option ℕ)
  | reset
  deriving DecidableEq

def Mark.apply : Mark → Manager → Manager
  | .ready _ => Manager.markReady
  | .failed _ => Manager.markFailed
  | .reset => Manager.reset

structure Server where
  manager : Manager := {}
  spawned : List ℕ := []
  log : List (Mark × Option ℕ) := []

/-- A report goes to the manager without what it is about. The log has it with the
attempt that it ends. -/
def Server.mark (s : Server) (mark : Mark) : Server :=
  { s with manager := mark.apply s.manager
           log := s.log ++ [(mark, s.manager.current)] }

inductive Phase where
  | leading
  | spawning
  | failing
  | announcing
  | led
  deriving DecidableEq

/-- A request begins and waits; a leader is picked up by a worker of the runtime,
spawns the instance and fails or announces it; events and commands report. -/
inductive Task where
  | arriving
  | begun
  | waiting (rx slots : ℕ)
  | answered (outcome : WaitForReadyOutcome) (on : Option ℕ)
  | worker
  | leader (attempt : ℕ) (phase : Phase)
  | marking (mark : Mark)
  | done
  deriving DecidableEq

namespace Task
/-- One access to the manager, or one step of a leader. The input says whether the
waiter waits long enough, whether the leader is let through the spawn gate, whether the
spawn succeeds, and whether an event is handled, as it is unless the server drains. -/
def step (maxQueued : ℕ) : Task → Bool → Server → Option (Task × Server)
  | .arriving, _, s =>
    match s.manager.begin maxQueued with
    | (true, m) => some (.begun,
      { s with manager := m, spawned := s.spawned ++ [s.manager.attempts] })
    | (false, m) => some (.begun, { s with manager := m })
  | .begun, _, s =>
    match s.manager.queue with
    | (.error outcome, m) => some (.answered outcome none, { s with manager := m })
    | (.ok (rx, slots), m) => some (.waiting rx slots, { s with manager := m })
  | .waiting rx slots, true, s =>
    (s.manager.recv rx).map fun outcome =>
      (.answered outcome (some rx), { s with manager := s.manager.release slots })
  | .waiting rx slots, false, s =>
    some (.answered .timeout (some rx), { s with manager := s.manager.release slots })
  | .answered _ _, _, _ => none
  | .worker, _, s =>
    match s.spawned with
    | [] => none
    | n :: spawned => some (.leader n .leading, { s with spawned := spawned })
  | .leader n .leading, passes, s => some (.leader n (if passes then .spawning else .failing), s)
  | .leader n .spawning, succeeds, s =>
    some (.leader n (if succeeds then .announcing else .failing), s)
  | .leader n .failing, _, s => some (.leader n .led, s.mark (.failed (some n)))
  | .leader n .announcing, true, s => some (.leader n .led, s.mark (.ready (some n)))
  | .leader n .announcing, false, s => some (.leader n .led, s)
  | .leader _ .led, _, _ => none
  | .marking mark, true, s => some (.done, s.mark mark)
  | .marking _, false, s => some (.done, s)
  | .done, _, _ => none

def mark? : Task → Bool → Option Mark
  | .leader n .failing, _ => some (.failed (some n))
  | .leader n .announcing, true => some (.ready (some n))
  | .marking mark, true => some mark
  | _, _ => none

def leads (n : ℕ) : Task → Bool
  | .leader m _ => m = n
  | _ => false

def spawning : Task → Bool
  | .leader _ .spawning => true
  | _ => false

def active : Task → Bool
  | .leader _ .leading | .leader _ .spawning => true
  | _ => false

def queuedOn (n : ℕ) : Task → Bool
  | .waiting _ slots => slots = n
  | _ => false
end Task

inductive Party where
  | request
  | worker
  | event (mark : Mark)

def Party.task : Party → Task
  | .request => .arriving
  | .worker => .worker
  | .event mark => .marking mark

end Tako.ColdStart
