import Tako.WorkflowPostgres
import Tako.ChannelSqlite

/-! The PostgreSQL channel store, for one app of one schema. The advisory lock of the app makes
every append and every prune one step. -/
namespace Tako.Channel
open Relational
open Tako.Workflow (NulFree)
structure PostgresMetadata where
  channel : String
  replayWindowMs : ℤ
  inactivityTtlMs : ℤ
  keepaliveIntervalMs : ℤ
  maxConnectionLifetimeMs : ℤ
  lastActivityUnixMs : ℤ
  latestMessageId : ℤ
  highestDeletedMessageId : ℤ
deriving DecidableEq, Repr

structure PostgresChannels where
  messages : AutoTable MessageRow.id
  metadata : Table PostgresMetadata.channel

def resolveReplayCursor (requested : Option ℤ) (highestDeleted : ℤ) (latest : Option ℤ) :
    Except ChannelError (Option ℤ) :=
  match requested with
  | none => .ok latest
  | some requested =>
    if requested < highestDeleted ∨ latest.all (fun head => head < requested) then
      .error .staleCursor
    else .ok (some requested)

/-- The condition of the `DELETE` of `prune`. -/
def PostgresMetadata.Retires (m : PostgresMetadata) (now : ℤ) (r : MessageRow) : Prop :=
  (0 < m.replayWindowMs ∧ r.createdAtUnixMs < now - m.replayWindowMs) ∨
    (0 < m.inactivityTtlMs ∧ m.lastActivityUnixMs < now - m.inactivityTtlMs)

instance (m : PostgresMetadata) (now : ℤ) (r : MessageRow) : Decidable (m.Retires now r) :=
  inferInstanceAs (Decidable (_ ∨ _))

namespace PostgresChannels
def empty : PostgresChannels := ⟨.empty, .empty⟩

def nulByteError : ChannelError :=
  .storage "db error: ERROR: invalid byte sequence for encoding \"UTF8\": 0x00"

variable (db : PostgresChannels) (channel : String)
def highestDeleted : ℤ :=
  ((db.metadata.get? channel).map PostgresMetadata.highestDeletedMessageId).getD 0

def latest : ℤ :=
  ((db.metadata.get? channel).map PostgresMetadata.latestMessageId).getD 0

/-- `NULLIF(latest_message_id, 0)` of the row, if there is one. -/
def head : Option ℤ :=
  if db.latest channel = 0 then none else some (db.latest channel)

/-- `INSERT .. ON CONFLICT DO NOTHING`, then the time of the append. -/
def touchChannel (now now' : UnixMs) : PostgresChannels :=
  let inserted := db.metadata.insertIgnore
    { channel := channel
      replayWindowMs := 600000
      inactivityTtlMs := 0
      keepaliveIntervalMs := 25000
      maxConnectionLifetimeMs := 7200000
      lastActivityUnixMs := now.ms
      latestMessageId := 0
      highestDeletedMessageId := 0 }
  { db with
    metadata := inserted.updateWhere (fun m => m.channel = channel)
      (fun m => { m with lastActivityUnixMs := now'.ms }) (fun _ => rfl) }

def setLatest (id : ℤ) : PostgresChannels :=
  { db with
    metadata := db.metadata.updateWhere (fun m => m.channel = channel)
      (fun m => { m with latestMessageId := id }) (fun _ => rfl) }

variable (E : Crates)
/-- `now` and `now'` are read by the server that appends, `createdAtUnixMs` by
the database. -/
def append (db : PostgresChannels) (appId : String) (now now' : UnixMs) (createdAtUnixMs : ℤ)
    (channel : String) (payload : ChannelPublishPayload E) :
    Except ChannelError (ChannelMessage E × PostgresChannels) :=
  let dataJson := E.json.toStr payload.data
  if NulFree [appId, channel, payload.type, dataJson] then
    let db := db.touchChannel channel now now'
    let row (id : ℤ) : MessageRow := ⟨id, channel, payload.type, dataJson, createdAtUnixMs⟩
    match db.messages.insert row (fun _ => rfl) with
    | none =>
      .error (.storage ("db error: ERROR: nextval: reached maximum value of sequence " ++
        "\"channel_messages_id_seq\" (9223372036854775807)"))
    | some messages =>
      .ok (⟨toString messages.last, none, channel, payload.type, payload.data⟩,
        { db with messages := messages }.setLatest channel messages.last)
  else .error nulByteError

def messageFromRow (row : MessageRow) : Except ChannelError (ChannelMessage E) :=
  match E.json.fromStr row.dataJson with
  | none => .error (.storage (E.parseError row.dataJson))
  | some data => .ok ⟨toString row.id, none, row.channel, row.type, data⟩

/-- Only a cursor that is given is compared with the bounds of its channel. -/
def readAfter (db : PostgresChannels) (appId channel : String) (after : Option ℤ) (limit : UInt32) :
    Except ChannelError (List (ChannelMessage E)) :=
  if NulFree [appId, channel] then do
    if after.isSome then
      let _ ← resolveReplayCursor after (db.highestDeleted channel) (db.head channel)
    let rows := (db.messages.select (fun r => r.channel = channel ∧ after.getD 0 < r.id)).take
      limit.toNat
    rows.mapM (messageFromRow E)
  else .error nulByteError

variable (appId : String)
def replayCursor (channel : String) (requested : Option ℤ) : Except ChannelError (Option ℤ) :=
  if NulFree [appId, channel] then
    resolveReplayCursor requested (db.highestDeleted channel) (db.head channel)
  else .error nulByteError

def syncChannel (now : UnixMs) (channel : String) (auth : ChannelAuthResponse) :
    Except ChannelError PostgresChannels :=
  if NulFree [appId, channel] then
    let set (m : PostgresMetadata) : PostgresMetadata :=
      { m with
        replayWindowMs := asI64 auth.replayWindowMs
        inactivityTtlMs := asI64 auth.inactivityTtlMs
        keepaliveIntervalMs := asI64 auth.keepaliveIntervalMs
        maxConnectionLifetimeMs := asI64 auth.maxConnectionLifetimeMs
        lastActivityUnixMs := now.ms }
    .ok { db with
      metadata := db.metadata.upsert (set ⟨channel, 0, 0, 0, 0, 0, 0, 0⟩) set (fun _ => rfl) }
  else .error nulByteError

def retires (now : ℤ) (r : MessageRow) : Bool :=
  (db.metadata.get? r.channel).any (fun m => m.Retires now r)

def prune (now : ℤ) : Except ChannelError PostgresChannels :=
  if NulFree [appId] then
    let deleted := db.messages.select (fun r => db.retires now r)
    .ok
      { messages := db.messages.deleteWhere (fun r => db.retires now r)
        metadata := db.metadata.updateWhere (fun m => ∃ r ∈ deleted, r.channel = m.channel)
          (fun m =>
            { m with
              highestDeletedMessageId := max m.highestDeletedMessageId
                (db.messages.maxId (fun r => r.channel = m.channel ∧ db.retires now r)) })
          (fun _ => rfl) }
  else .error nulByteError
end PostgresChannels

/-- What the servers of an app do, and the ids that others take. -/
inductive PostgresCall (E : Crates) where
  | append (now now' : UnixMs) (createdAtUnixMs : ℤ) (channel : String)
      (payload : ChannelPublishPayload E)
  | readAfter (channel : String) (after : Option ℤ) (limit : UInt32)
  | replayCursor (channel : String) (requested : Option ℤ)
  | syncChannel (now : UnixMs) (channel : String) (auth : ChannelAuthResponse)
  | prune (now : ℤ)
  | nextval

inductive PostgresReply (E : Crates) where
  | done
  | appended (message : ChannelMessage E)
  | messages (messages : List (ChannelMessage E))
  | cursor (cursor : Option ℤ)

namespace PostgresChannels
def commit {E : Crates} (db : PostgresChannels) (r : Except ChannelError PostgresChannels) :
    Except ChannelError (PostgresReply E) × PostgresChannels :=
  match r with
  | .error e => (.error e, db)
  | .ok db' => (.ok .done, db')

def exec (E : Crates) (appId : String) (call : PostgresCall E) (db : PostgresChannels) :
    Except ChannelError (PostgresReply E) × PostgresChannels :=
  match call with
  | .append now now' createdAtUnixMs channel payload =>
    match db.append E appId now now' createdAtUnixMs channel payload with
    | .error e => (.error e, db)
    | .ok (message, db') => (.ok (.appended message), db')
  | .readAfter channel after limit => ((db.readAfter E appId channel after limit).map .messages, db)
  | .replayCursor channel requested => ((db.replayCursor appId channel requested).map .cursor, db)
  | .syncChannel now channel auth => db.commit (db.syncChannel appId now channel auth)
  | .prune now => db.commit (db.prune appId now)
  | .nextval => (.ok .done, { db with messages := db.messages.nextval })

def after (E : Crates) (appId : String) (db : PostgresChannels) (calls : List (PostgresCall E)) :
    PostgresChannels :=
  Execution.after (exec E appId) db calls
end PostgresChannels
end Tako.Channel
