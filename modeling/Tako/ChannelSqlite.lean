import Tako.RelationalTable
import Tako.RelationalAutoincrement
import Tako.Executions
import Tako.ChannelCursor

/-! The SQLite channel store. Every function is one transaction on the database. -/
namespace Tako.Channel
open Relational
open Tako.Workflow (JsonCodec i64Max)
/-- What `now_unix_ms` returned at one call. It never precedes the epoch, but a
later reading may be smaller. -/
structure UnixMs where
  ms : ℤ
  nonneg : 0 ≤ ms
  le_max : ms ≤ i64Max

def UnixMs.epoch : UnixMs := ⟨0, by decide, by decide⟩

structure ChannelEventId where
  origin : String
  sequence : ℕ
deriving DecidableEq, Repr

/-- Payloads arrive as JSON text, from an application or from a peer. -/
structure ChannelPublishPayload (E : Crates) where
  type : String
  data : E.json.Value
  parsed : ∃ text, E.json.fromStr text = some data

structure ChannelEvent (E : Crates) where
  id : ChannelEventId
  channel : String
  payload : ChannelPublishPayload E
  ephemeral : Bool

structure ChannelMessage (E : Crates) where
  id : String
  eventId : Option ChannelEventId
  channel : String
  type : String
  data : E.json.Value
deriving DecidableEq

def asI64 (n : UInt64) : ℤ := n.toInt64.toInt

structure ChannelAuthResponse where
  replayWindowMs : UInt64
  inactivityTtlMs : UInt64
  keepaliveIntervalMs : UInt64
  maxConnectionLifetimeMs : UInt64

/-- Byte limits count the UTF-8 bytes of channel, type and serialized data. -/
structure SqliteReplayLimits where
  maxMessagesPerStream : ℕ
  maxBytesPerStream : ℕ
  maxMessages : ℕ
  maxBytes : ℕ
  maxAgeMs : ℕ
deriving DecidableEq, Repr

namespace SqliteReplayLimits
def default : SqliteReplayLimits where
  maxMessagesPerStream := 10000
  maxBytesPerStream := 16 * 1024 * 1024
  maxMessages := 100000
  maxBytes := 64 * 1024 * 1024
  maxAgeMs := 24 * 60 * 60 * 1000

def validate (l : SqliteReplayLimits) : Except ChannelError SqliteReplayLimits :=
  let bounds := [l.maxMessagesPerStream, l.maxBytesPerStream, l.maxMessages, l.maxBytes]
  if bounds.any (fun value => value = 0 ∨ i64Max < value) ∨ i64Max < l.maxAgeMs then
    .error (.badRequest "replay count/byte limits must be positive SQLite integers")
  else .ok l
end SqliteReplayLimits

structure MessageRow where
  id : ℤ
  channel : String
  type : String
  dataJson : String
  createdAtUnixMs : ℤ
deriving DecidableEq, Repr

def MessageRow.bytes (r : MessageRow) : ℤ :=
  r.channel.utf8ByteSize + r.type.utf8ByteSize + r.dataJson.utf8ByteSize

structure MessageEvent where
  messageId : ℤ
  eventId : ChannelEventId
deriving DecidableEq, Repr

structure ChannelMetadata where
  channel : String
  replayWindowMs : ℤ
  inactivityTtlMs : ℤ
  keepaliveIntervalMs : ℤ
  maxConnectionLifetimeMs : ℤ
  lastActivityUnixMs : ℤ
  latestMessageId : ℤ
  messageCount : ℤ
  messageBytes : ℤ
deriving DecidableEq, Repr

structure ReplayFloor where
  channel : String
  floor : ℤ
deriving DecidableEq, Repr

structure RemoteOrigin where
  origin : String
  sequence : ℤ
deriving DecidableEq, Repr

structure StoreState where
  epoch : Bytes16
  limits : SqliteReplayLimits
  messageCount : ℤ
  messageBytes : ℤ
deriving DecidableEq

structure ChannelDb where
  messages : AutoTable MessageRow.id
  events : Table MessageEvent.messageId
  metadata : Table ChannelMetadata.channel
  floors : Table ReplayFloor.channel
  remoteOrigins : Table RemoteOrigin.origin
  eventSequence : ℤ
  storeState : StoreState
  replayEpoch : Bytes16

namespace ChannelDb
variable (db : ChannelDb)
def messageCounted (new : MessageRow) : ChannelDb :=
  { db with
    storeState :=
      { db.storeState with
        messageCount := db.storeState.messageCount + 1
        messageBytes := db.storeState.messageBytes + new.bytes }
    metadata := db.metadata.updateWhere (fun m => m.channel = new.channel)
      (fun m =>
        { m with
          messageCount := m.messageCount + 1
          messageBytes := m.messageBytes + new.bytes })
      (fun _ => rfl) }

variable (old : MessageRow)
def eventDeleted : ChannelDb :=
  { db with events := db.events.deleteWhere (fun e => e.messageId = old.id) }

def replayDeleted : ChannelDb :=
  { db with
    floors := db.floors.upsert ⟨old.channel, old.id⟩
      (fun f => { f with floor := max f.floor old.id }) (fun _ => rfl) }

def messageUncounted : ChannelDb :=
  { db with
    storeState :=
      { db.storeState with
        messageCount := db.storeState.messageCount - 1
        messageBytes := db.storeState.messageBytes - old.bytes }
    metadata := db.metadata.updateWhere (fun m => m.channel = old.channel)
      (fun m =>
        { m with
          messageCount := m.messageCount - 1
          messageBytes := m.messageBytes - old.bytes })
      (fun _ => rfl) }

def messageDeleted : ChannelDb :=
  ((db.eventDeleted old).replayDeleted old).messageUncounted old

/-- `DELETE FROM channel_messages WHERE p`, with the triggers of every row. -/
def deleteMessages (p : MessageRow → Prop) [DecidablePred p] : ChannelDb :=
  (db.messages.select p).foldl messageDeleted { db with messages := db.messages.deleteWhere p }

/-- `DELETE .. WHERE id IN (SELECT id .. WHERE p ORDER BY id LIMIT n)`, or
nothing when that selects no row. -/
def deleteOldest (p : MessageRow → Prop) [DecidablePred p] (n : ℕ) : Option ChannelDb :=
  let oldest := ((db.messages.select p).take n).map MessageRow.id
  if oldest = [] then none else some (db.deleteMessages (fun r => r.id ∈ oldest))
end ChannelDb

/-- Which rows of a stream the age rules retire. -/
inductive AgeCutoff where
  | everything
  | before (createdAtUnixMs : ℤ)
deriving DecidableEq, Repr

/-- `lifecycle` is the replay window, the inactivity limit and the time of the
last activity. -/
def ageCutoff (limits : SqliteReplayLimits) (lifecycle : Option (ℤ × ℤ × ℤ)) (now : UnixMs) :
    Option AgeCutoff :=
  let cutoff := if 0 < limits.maxAgeMs then some (now.ms - limits.maxAgeMs) else none
  match lifecycle with
  | none => cutoff.map .before
  | some (replayWindowMs, inactivityTtlMs, lastActivityUnixMs) =>
    if 0 < inactivityTtlMs ∧ lastActivityUnixMs < now.ms - inactivityTtlMs then some .everything
    else if 0 < replayWindowMs then
      let window := now.ms - replayWindowMs
      some (.before (cutoff.elim window (fun c => max c window)))
    else cutoff.map .before

def ChannelMetadata.lifecycle (m : ChannelMetadata) : ℤ × ℤ × ℤ :=
  (m.replayWindowMs, m.inactivityTtlMs, m.lastActivityUnixMs)

namespace ChannelDb
variable (db : ChannelDb) (channel : String)
def streamLifecycle : Option (ℤ × ℤ × ℤ) :=
  (db.metadata.get? channel).map ChannelMetadata.lifecycle

variable (limits : SqliteReplayLimits)
/-- The highest expired position of a stream, also when its row is still there. -/
def expiredFloor (channel : String) (now : UnixMs) : ℤ :=
  match ageCutoff limits (db.streamLifecycle channel) now with
  | none => 0
  | some .everything => db.messages.maxId (fun r => r.channel = channel)
  | some (.before created) =>
    db.messages.maxId (fun r => r.channel = channel ∧ r.createdAtUnixMs < created)

def rotateReplayEpoch (epoch : Bytes16) : ChannelDb :=
  { db with replayEpoch := epoch }

def loadLimits : Except ChannelError SqliteReplayLimits :=
  db.storeState.limits.validate

def streamHead : ℤ :=
  ((db.metadata.get? channel).map ChannelMetadata.latestMessageId).getD 0

def replayFloor : ℤ :=
  ((db.floors.get? channel).map ReplayFloor.floor).getD 0

def validateCursor (E : Crates) (db : ChannelDb) (epoch : Bytes16) (channel : String)
    (cursor : ReplayCursor) : Except ChannelError Unit :=
  if cursor.scope ≠ (ReplayCursor.sqlite E epoch channel 0).scope then .error .staleCursor
  else if cursor.position < db.replayFloor channel ∨ db.streamHead channel < cursor.position then
    .error .staleCursor
  else .ok ()

variable (now : UnixMs)
def pruneAge : ChannelDb :=
  let lifecycles := db.metadata.rows.filter (fun m => 0 < m.messageCount)
  lifecycles.foldl
    (fun db m =>
      match ageCutoff limits (some m.lifecycle) now with
      | none => db
      | some .everything => db.deleteMessages (fun r => r.channel = m.channel)
      | some (.before created) =>
        db.deleteMessages (fun r => r.channel = m.channel ∧ r.createdAtUnixMs < created))
    db

/-- One more round of the loop deletes at least one row, so there are at most as
many rounds as rows. -/
def streamBudgetLoop (limits : SqliteReplayLimits) (channel : String) : ℕ → ChannelDb → ChannelDb
  | 0, db => db
  | rounds + 1, db =>
    match db.metadata.get? channel with
    | none => db
    | some m =>
      let excess := m.messageCount - limits.maxMessagesPerStream
      if excess ≤ 0 ∧ m.messageBytes ≤ limits.maxBytesPerStream then db
      else
        match db.deleteOldest (fun r => r.channel = channel) (max excess 1).toNat with
        | none => db
        | some db => streamBudgetLoop limits channel rounds db

def enforceStreamBudget (channel : String) : ChannelDb :=
  streamBudgetLoop limits channel db.messages.rows.length db

def storeBudgetLoop (limits : SqliteReplayLimits) : ℕ → ChannelDb → ChannelDb
  | 0, db => db
  | rounds + 1, db =>
    let excess := db.storeState.messageCount - limits.maxMessages
    if excess ≤ 0 ∧ db.storeState.messageBytes ≤ limits.maxBytes then db
    else
      match db.deleteOldest (fun _ => True) (max excess 1).toNat with
      | none => db
      | some db => storeBudgetLoop limits rounds db

def enforceStoreBudget : ChannelDb :=
  storeBudgetLoop limits db.messages.rows.length db

def pruneReplay : ChannelDb :=
  let db := db.pruneAge limits now
  let overBudget := db.metadata.rows.filter (fun m =>
    (limits.maxMessagesPerStream : ℤ) < m.messageCount ∨
      (limits.maxBytesPerStream : ℤ) < m.messageBytes)
  let db := overBudget.foldl (fun db m => db.enforceStreamBudget limits m.channel) db
  db.enforceStoreBudget limits

def touchChannel : ChannelDb :=
  { db with
    metadata := db.metadata.upsert
      { channel := channel
        replayWindowMs := 600000
        inactivityTtlMs := 0
        keepaliveIntervalMs := 25000
        maxConnectionLifetimeMs := 7200000
        lastActivityUnixMs := now.ms
        latestMessageId := 0
        messageCount := 0
        messageBytes := 0 }
      (fun m => { m with lastActivityUnixMs := now.ms }) (fun _ => rfl) }

def insertMessage (type dataJson : String) (now : UnixMs) : Except ChannelError (ℤ × ChannelDb) :=
  let row (id : ℤ) : MessageRow := ⟨id, channel, type, dataJson, now.ms⟩
  match db.messages.insert row (fun _ => rfl) with
  | none => .error (.storage "database or disk is full")
  | some messages =>
    .ok (messages.last, { db with messages := messages }.messageCounted (row messages.last))

def insertEvent (id : ℤ) (eventId : ChannelEventId) : Except ChannelError ChannelDb :=
  if db.events.get? id = none then
    .ok { db with events := db.events.insertIgnore ⟨id, eventId⟩ }
  else .error (.storage "UNIQUE constraint failed: channel_message_events.message_id")

def setLatest (id : ℤ) : ChannelDb :=
  { db with
    metadata := db.metadata.updateWhere (fun m => m.channel = channel)
      (fun m => { m with latestMessageId := id }) (fun _ => rfl) }

def appendEvent (E : Crates) (db : ChannelDb) (epoch : Bytes16) (event : ChannelEvent E)
    (now : UnixMs) : Except ChannelError (ChannelMessage E × ChannelDb) :=
  let message : ChannelMessage E :=
    ⟨"", some event.id, event.channel, event.payload.type, event.payload.data⟩
  if event.ephemeral then .ok (message, db)
  else do
    let dataJson := E.json.toStr event.payload.data
    let limits ← db.loadLimits
    let bytes :=
      event.channel.utf8ByteSize + event.payload.type.utf8ByteSize + dataJson.utf8ByteSize
    if limits.maxBytes < bytes ∨ limits.maxBytesPerStream < bytes then
      .error (.badRequest "message exceeds SQLite replay byte budget")
    else do
      let db := db.touchChannel event.channel now
      let (id, db) ← db.insertMessage event.channel event.payload.type dataJson now
      let db ← db.insertEvent id event.id
      let db := db.setLatest event.channel id
      -- age pruning is left to maintenance; the budgets are hard bounds
      let db := db.enforceStreamBudget limits event.channel
      let db := db.enforceStoreBudget limits
      .ok ({ message with id := (ReplayCursor.sqlite E epoch event.channel id).display }, db)

def created (epoch : Bytes16) : ChannelDb where
  messages := .empty
  events := .empty
  metadata := .empty
  floors := .empty
  remoteOrigins := .empty
  eventSequence := 0
  storeState := ⟨epoch, .default, 0, 0⟩
  replayEpoch := epoch

/-- `SET latest_message_id = MAX(latest_message_id, ..)` on opening. -/
def raiseLatest : ChannelDb :=
  { db with
    metadata := db.metadata.updateWhere (fun _ => True)
      (fun m =>
        { m with
          latestMessageId :=
            max m.latestMessageId (db.messages.maxId (fun r => r.channel = m.channel)) })
      (fun _ => rfl) }

def ensureBudgetCounters : ChannelDb :=
  { db with
    metadata := db.metadata.updateWhere (fun _ => True)
      (fun m =>
        let rows := db.messages.select (fun r => r.channel = m.channel)
        { m with
          messageCount := rows.length
          messageBytes := (rows.map MessageRow.bytes).sum })
      (fun _ => rfl)
    storeState :=
      { db.storeState with
        messageCount := db.messages.rows.length
        messageBytes := (db.messages.rows.map MessageRow.bytes).sum } }

def setLimits : ChannelDb :=
  { db with storeState := { db.storeState with limits := limits } }

/-- `file` is what the path holds; `epoch` are fresh random bytes. -/
def initConnection (file : Option ChannelDb) (limits : Option SqliteReplayLimits) (now : UnixMs)
    (epoch : Bytes16) : Except ChannelError ChannelDb := do
  let db := (file.getD (created epoch)).raiseLatest.ensureBudgetCounters
  let db := limits.elim db db.setLimits
  let limits ← db.loadLimits
  .ok (db.pruneReplay limits now)
end ChannelDb

/-- `epoch` names this store as the origin of its events. -/
structure SqliteChannelStore where
  db : ChannelDb
  epoch : Bytes16

namespace SqliteChannelStore
/-- `SqliteChannelStore::open`; limits are checked before the file is touched. -/
def openFile (file : Option ChannelDb) (limits : Option SqliteReplayLimits) (now : UnixMs)
    (epoch : Bytes16) : Except ChannelError SqliteChannelStore := do
  let limits ← limits.elim (.ok none) (fun l => l.validate.map some)
  let db ← ChannelDb.initConnection file limits now epoch
  .ok ⟨db, db.storeState.epoch⟩

variable (E : Crates) (s : SqliteChannelStore) (now : UnixMs) (channel : String)
def publish (payload : ChannelPublishPayload E) (ephemeral : Bool) :
    Except ChannelError ((ChannelMessage E × ChannelEvent E) × ChannelDb) :=
  if s.db.eventSequence < i64Max then do
    let sequence := s.db.eventSequence + 1
    let db := { s.db with eventSequence := sequence }
    let event : ChannelEvent E := ⟨⟨encode s.epoch, sequence.toNat⟩, channel, payload, ephemeral⟩
    let (message, db) ← db.appendEvent E db.replayEpoch event now
    .ok ((message, event), db)
  else .error (.storage "Query returned no rows")

def validOrigin (origin : String) : Bool :=
  origin ≠ "" && origin.utf8ByteSize ≤ 128 &&
    origin.toList.all (fun c => c.isAlphanum || c = '-' || c = '_')

def ingestRemote (event : ChannelEvent E) (epoch : Bytes16) :
    Except ChannelError (Option (ChannelMessage E) × ChannelDb) :=
  if event.id.sequence = 0 ∨ i64Max < event.id.sequence ∨ ¬validOrigin event.id.origin then
    .error (.badRequest "invalid channel event identity")
  else if event.id.origin = encode s.epoch then .ok (none, s.db)
  else
    let previous := ((s.db.remoteOrigins.get? event.id.origin).map RemoteOrigin.sequence).getD 0
    let sequence : ℤ := event.id.sequence
    if sequence ≤ previous then .ok (none, s.db)
    else do
      let db := if previous + 1 < sequence then s.db.rotateReplayEpoch epoch else s.db
      let (message, db) ← db.appendEvent E db.replayEpoch event now
      let db :=
        { db with
          remoteOrigins := db.remoteOrigins.upsert ⟨event.id.origin, sequence⟩
            (fun o => { o with sequence := sequence }) (fun _ => rfl) }
      .ok (some message, db)

/-- What `read_after` and `replay_cursor` check of a cursor that was sent in. -/
def checkRequested (requested : Option ReplayCursor) (expiredFloor : ℤ) :
    Except ChannelError Unit :=
  match requested with
  | none => .ok ()
  | some cursor => do
    s.db.validateCursor E s.db.replayEpoch channel cursor
    if cursor.position < expiredFloor then .error .staleCursor else .ok ()

/-- `channel_message_from_row`, and the two fields that `read_after` adds. -/
def messageFromRow (row : MessageRow) : Except ChannelError (ChannelMessage E) :=
  match E.json.fromStr row.dataJson with
  | none => .error (.storage (E.parseError row.dataJson))
  | some data =>
    .ok
      { id := (ReplayCursor.sqlite E s.db.replayEpoch channel row.id).display
        eventId := (s.db.events.get? row.id).map MessageEvent.eventId
        channel := row.channel
        type := row.type
        data := data }

/-- Reads delete nothing: expired rows that maintenance has not reached yet are
hidden by their floor. -/
def readAfter (after : Option ReplayCursor) (limit : UInt32) :
    Except ChannelError (List (ChannelMessage E)) := do
  let limits ← s.db.loadLimits
  let expiredFloor := s.db.expiredFloor limits channel now
  s.checkRequested E channel after expiredFloor
  let position := max (after.elim 0 ReplayCursor.position) expiredFloor
  let rows := (s.db.messages.select (fun r => r.channel = channel ∧ position < r.id)).take
    limit.toNat
  rows.mapM (s.messageFromRow E channel)

def replayCursor (requested : Option ReplayCursor) : Except ChannelError (Option ReplayCursor) := do
  let limits ← s.db.loadLimits
  s.checkRequested E channel requested (s.db.expiredFloor limits channel now)
  .ok (some (requested.getD
    (ReplayCursor.sqlite E s.db.replayEpoch channel (s.db.streamHead channel))))

def syncChannel (db : ChannelDb) (now : UnixMs) (channel : String) (auth : ChannelAuthResponse) :
    ChannelDb :=
  let set (m : ChannelMetadata) : ChannelMetadata :=
    { m with
      replayWindowMs := asI64 auth.replayWindowMs
      inactivityTtlMs := asI64 auth.inactivityTtlMs
      keepaliveIntervalMs := asI64 auth.keepaliveIntervalMs
      maxConnectionLifetimeMs := asI64 auth.maxConnectionLifetimeMs
      lastActivityUnixMs := now.ms }
  { db with
    metadata := db.metadata.upsert (set ⟨channel, 0, 0, 0, 0, 0, 0, 0, 0⟩) set (fun _ => rfl) }

def prune (db : ChannelDb) (now : UnixMs) : Except ChannelError ChannelDb := do
  let limits ← db.loadLimits
  .ok (db.pruneReplay limits now)
end SqliteChannelStore

/-- The calls on one store. `epoch` is what `getrandom` yields where the call
needs random bytes. -/
inductive ChannelCall (E : Crates) where
  | publish (now : UnixMs) (channel : String) (payload : ChannelPublishPayload E)
      (ephemeral : Bool)
  | ingestRemote (now : UnixMs) (event : ChannelEvent E) (epoch : Bytes16)
  | readAfter (now : UnixMs) (channel : String) (after : Option ReplayCursor) (limit : UInt32)
  | replayCursor (now : UnixMs) (channel : String) (requested : Option ReplayCursor)
  | syncChannel (now : UnixMs) (channel : String) (auth : ChannelAuthResponse)
  | prune (now : UnixMs)
  | invalidateReplay (epoch : Bytes16)
  | reopen (limits : Option SqliteReplayLimits) (now : UnixMs) (epoch : Bytes16)

inductive ChannelReply (E : Crates) where
  | done
  | published (message : ChannelMessage E) (event : ChannelEvent E)
  | ingested (message : Option (ChannelMessage E))
  | messages (messages : List (ChannelMessage E))
  | cursor (cursor : Option ReplayCursor)

abbrev ChannelResult (E : Crates) := Except ChannelError (ChannelReply E)

namespace SqliteChannelStore
/-- A failed transaction leaves the database as it was. -/
def commit {E : Crates} {α : Type} (s : SqliteChannelStore) (reply : α → ChannelReply E)
    (r : Except ChannelError (α × ChannelDb)) : ChannelResult E × SqliteChannelStore :=
  match r with
  | .error e => (.error e, s)
  | .ok (a, db) => (.ok (reply a), { s with db := db })

def exec (E : Crates) (call : ChannelCall E) (s : SqliteChannelStore) :
    ChannelResult E × SqliteChannelStore :=
  match call with
  | .publish now channel payload ephemeral =>
    s.commit (fun p => .published p.1 p.2) (s.publish E now channel payload ephemeral)
  | .ingestRemote now event epoch => s.commit .ingested (s.ingestRemote E now event epoch)
  | .readAfter now channel after limit => ((s.readAfter E now channel after limit).map .messages, s)
  | .replayCursor now channel requested => ((s.replayCursor E now channel requested).map .cursor, s)
  | .syncChannel now channel auth => (.ok .done, { s with db := syncChannel s.db now channel auth })
  | .prune now => s.commit (fun _ => .done) ((prune s.db now).map (fun db => ((), db)))
  | .invalidateReplay epoch => (.ok .done, { s with db := s.db.rotateReplayEpoch epoch })
  | .reopen limits now epoch =>
    match openFile (some s.db) limits now epoch with
    | .error e => (.error e, s)
    | .ok s' => (.ok .done, s')

def after (E : Crates) (s : SqliteChannelStore) (calls : List (ChannelCall E)) :
    SqliteChannelStore :=
  Execution.after (exec E) s calls
end SqliteChannelStore
end Tako.Channel
