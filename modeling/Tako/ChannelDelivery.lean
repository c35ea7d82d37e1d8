import Tako.Watch
import Tako.ChannelBackend

/-! One subscriber of a durable channel next to everything that goes on around it. A step is one
access to the store, to a watch or to the connection. -/
namespace Tako.Channel
variable {E : Crates}
/-- `notify_committed`: a head is told only if it is larger than the last one. -/
def notifyCommitted (changes : Watch (Option ℤ)) (latest : ℤ) : Watch (Option ℤ) :=
  changes.sendIfModified fun seen =>
    if seen.all (fun previous => previous < latest) then some (some latest) else none

/-- `serve_store_events_with_writer` or `serve_with_writer`. -/
inductive StreamKind where
  | sse
  | webSocket
deriving DecidableEq, Repr

structure Connection where
  kind : StreamKind
  channel : String
  requestedAfter : Option ReplayCursor

/-- A stream of events starts at the head; only a websocket names a cursor. -/
def Connection.requested (conn : Connection) : Option ReplayCursor :=
  match conn.kind with
  | .sse => none
  | .webSocket => conn.requestedAfter

inductive CloseReason where
  | reset
  | staleCursor
  | failed
  | ended
deriving DecidableEq, Repr

/-- Where the subscriber stands: it subscribes to resets and to changes and
captures its cursor, then it runs its loop. -/
inductive Phase (E : Crates) where
  | connecting
  | subscribing
  | capturing
  | top (readReplay : Bool)
  | marking
  | reading
  | page (messages : List (ChannelMessage E))
  | deliver (full : Bool) (messages : List (ChannelMessage E))
  | asleep
  | closed (reason : CloseReason)
deriving DecidableEq

namespace Phase
def holdsResets : Phase E → Bool
  | .connecting | .closed _ => false
  | _ => true

def holdsChanges : Phase E → Bool
  | .connecting | .subscribing | .closed _ => false
  | _ => true
end Phase

/-- What the subscriber captured: the position, and how many messages had been
committed by then. -/
structure Capture where
  position : ℤ
  commits : ℕ

/-- `changes` and `resets` are the entries of the channel in the maps of
`DeliveryState`. `committed` is the log of the store. A position is `unannounced`
from its commit until a notification covers it. -/
structure Delivery (E : Crates) where
  backend : ChannelStoreBackend
  committed : List (DurableMessage E)
  unannounced : List ℤ
  changes : Option (Watch (Option ℤ))
  resets : Option (Watch UInt64)
  phase : Phase E
  after : Option ReplayCursor
  seenChanges : ℕ
  seenResets : ℕ
  captured : Option Capture
  delivered : List (ChannelMessage E)

/-- What can happen. `run` is the next step of the subscriber outside of its
`select!`; the branches of the `select!` have steps of their own. -/
inductive DeliveryStep (E : Crates) where
  | store (call : StoreCall E)
  | notify (latest : ℤ)
  | wake
  | signalGap
  | otherSubscriber
  | forgetChanges
  | forgetResets
  | run (now : UnixMs)
  | changed
  | reset
  | tick
  | read
  | hangUp

namespace Delivery
def opened (backend : ChannelStoreBackend) : Delivery E where
  backend := backend
  committed := []
  unannounced := []
  changes := none
  resets := none
  phase := .connecting
  after := none
  seenChanges := 0
  seenResets := 0
  captured := none
  delivered := []

variable (d : Delivery E)
/-- `changes.changed()` is ready. It also is when the sender is gone. -/
def changesReady : Bool := d.changes.all (fun w => w.version ≠ d.seenChanges)

/-- `resets.has_changed().unwrap_or(true)`. -/
def resetsReady : Bool := d.resets.all (fun w => w.version ≠ d.seenResets)

variable (conn : Connection)
/-- Some process commits. Its publisher has yet to notify the channel. -/
def storeCall (call : StoreCall E) (d : Delivery E) : Delivery E :=
  let (new, backend) := d.backend.exec E call
  { d with
    backend := backend
    committed := d.committed ++ new
    unannounced := d.unannounced ++
      (new.filter (fun e => e.channel = conn.channel)).map DurableMessage.position }

/-- A publisher, the poll of `latest_ids` or a broker tells a head of the
channel, which covers every message up to it. -/
def notify (latest : ℤ) (d : Delivery E) : Delivery E :=
  if ∃ e ∈ d.committed, e.channel = conn.channel ∧ e.position = latest then
    { d with
      changes := d.changes.map (fun w => notifyCommitted w latest)
      unannounced := d.unannounced.filter (fun p => latest < p) }
  else d

/-- `wake(channel, None)`, the hint of a peer that committed. -/
def wake : Delivery E :=
  { d with changes := d.changes.map (fun w => w.sendModify id), unannounced := [] }

def signalGap : Delivery E :=
  { d with resets := d.resets.map (fun w => w.sendModify (fun generation => generation + 1)) }

/-- `changes` and `resets` of `ChannelStore` create an entry that is missing. -/
def changesEntry : Watch (Option ℤ) := d.changes.getD (.new none)

def resetsEntry : Watch UInt64 := d.resets.getD (.new 0)

def close (reason : CloseReason) (d : Delivery E) : Delivery E := { d with phase := .closed reason }

def closeError (e : ChannelError) (d : Delivery E) : Delivery E :=
  match conn.kind, e with
  | .webSocket, .staleCursor => d.close .staleCursor
  | _, _ => d.close .failed

def deliverMessage (m : ChannelMessage E) (full : Bool) (rest : List (ChannelMessage E))
    (d : Delivery E) : Delivery E :=
  let d := { d with delivered := d.delivered ++ [m], phase := .deliver full rest }
  match conn.kind, ReplayCursor.fromStr m.id with
  | _, .ok cursor => { d with after := some cursor }
  | .sse, .error _ => { d with after := none }
  | .webSocket, .error _ => d.close .failed

def run (now : UnixMs) (d : Delivery E) : Delivery E :=
  match d.phase with
  | .connecting =>
    { d with
      resets := some d.resetsEntry
      seenResets := d.resetsEntry.version
      phase := .subscribing }
  | .subscribing =>
    { d with
      changes := some d.changesEntry
      seenChanges := d.changesEntry.version
      phase := .capturing }
  | .capturing =>
    match d.backend.replayCursor E now conn.channel conn.requested with
    | .ok after =>
      { d with
        after := after
        captured := some ⟨cursorPosition after, d.committed.length⟩
        phase := .top true }
    | .error e => d.closeError conn e
  | .top readReplay =>
    match conn.kind with
    | .sse => { d with phase := .marking }
    | .webSocket =>
      if d.resetsReady then d.close .reset
      else { d with phase := if readReplay then .marking else .page [] }
  | .marking =>
    -- `borrow_and_update`
    { d with seenChanges := (d.changes.map Watch.version).getD d.seenChanges, phase := .reading }
  | .reading =>
    match d.backend.readAfter E now conn.channel d.after 100 with
    | .ok messages => { d with phase := .page messages }
    | .error .staleCursor => d.close .staleCursor
    | .error _ => d.close .failed
  | .page messages =>
    if d.resetsReady then d.close .reset
    else { d with phase := .deliver (messages.length = 100) messages }
  | .deliver full (m :: rest) => d.deliverMessage conn m full rest
  | .deliver full [] => { d with phase := if full then .top true else .asleep }
  | .asleep => d
  | .closed _ => d

/-- `changes.changed()` marks what it saw. -/
def changed : Delivery E :=
  if d.phase = .asleep ∧ d.changesReady then
    { d with
      seenChanges := (d.changes.map Watch.version).getD d.seenChanges
      phase := .top true }
  else d

def reset : Delivery E :=
  if d.phase = .asleep ∧ d.resetsReady then d.close .reset else d

/-- The timer. A stream of events goes through its whole loop, a websocket only
reads replay after a change. -/
def tick (d : Delivery E) : Delivery E :=
  if d.phase = .asleep then { d with phase := .top (conn.kind = .sse) } else d

/-- Bytes of the client, which only a websocket waits for. -/
def read (d : Delivery E) : Delivery E :=
  if d.phase = .asleep ∧ conn.kind = .webSocket then { d with phase := .top false } else d

def hangUp : Delivery E :=
  match d.phase with
  | .closed _ => d
  | _ => d.close .ended

def exec (step : DeliveryStep E) (d : Delivery E) : Delivery E :=
  match step with
  | .store call => d.storeCall conn call
  | .notify latest => d.notify conn latest
  | .wake => d.wake
  | .signalGap => d.signalGap
  | .otherSubscriber => { d with changes := some d.changesEntry }
  | .forgetChanges => if d.phase.holdsChanges then d else { d with changes := none }
  | .forgetResets => if d.phase.holdsResets then d else { d with resets := none }
  | .run now => d.run conn now
  | .changed => d.changed
  | .reset => d.reset
  | .tick => d.tick conn
  | .read => d.read conn
  | .hangUp => d.hangUp
end Delivery
end Tako.Channel
