import Tako.ChannelRetention

/-! Replay from a cursor. A message that has lost its row lies at or below the floor of its
stream, where no cursor is accepted any more. -/
namespace Tako.Channel
open Relational StreamLog Fallible List
open Tako.Workflow (JsonCodec JsonLiteral i64Max)
variable {E : Crates}
structure CommittedMessage (E : Crates) where
  position : ℤ
  event : ChannelEvent E

def coordinates (E : Crates) : Coordinates (CommittedMessage E) String where
  position m := m.position
  stream m := m.event.channel

def CommittedMessage.toMessage (epoch : Bytes16) (m : CommittedMessage E) : ChannelMessage E where
  id := (ReplayCursor.sqlite E epoch m.event.channel m.position).display
  eventId := some m.event.id
  channel := m.event.channel
  type := m.event.payload.type
  data := E.json.readBack m.event.payload.data

def committedAt (id : String) (event : ChannelEvent E) : List (CommittedMessage E) :=
  match event.ephemeral, ReplayCursor.fromStr id with
  | false, .ok c => [⟨c.position, event⟩]
  | _, _ => []

def ChannelCall.commits (call : ChannelCall E) (result : ChannelResult E) :
    List (CommittedMessage E) :=
  match call, result with
  | .publish _ _ _ _, .ok (.published message event) => committedAt message.id event
  | .ingestRemote _ event _, .ok (.ingested (some message)) => committedAt message.id event
  | _, _ => []

def SqliteChannelStore.committed (E : Crates) (s : SqliteChannelStore)
    (calls : List (ChannelCall E)) : List (CommittedMessage E) :=
  (Execution.trace (exec E) s calls).flatMap (fun step => step.1.commits step.2)

def ChannelReply.shown : ChannelReply E → List (ChannelMessage E)
  | .published message _ => [message]
  | .ingested message => message.toList
  | .messages page => page
  | _ => []

inductive Issues : ChannelCall E → ChannelResult E → String → ReplayCursor → Prop
  | message {call : ChannelCall E} {reply : ChannelReply E} {message : ChannelMessage E}
      {c : ReplayCursor} (hmem : message ∈ reply.shown)
      (hid : ReplayCursor.fromStr message.id = .ok c) : Issues call (.ok reply) message.channel c
  | cursor {now : UnixMs} {channel : String} {requested : Option ReplayCursor} {c : ReplayCursor} :
      Issues (.replayCursor now channel requested) (.ok (.cursor (some c))) channel c

/-- A call whose cursor stands at the head of the stream: the id of a message
that it commits, or the head itself. -/
def ChannelCall.AtHead : ChannelCall E → Prop
  | .publish _ _ _ _ => True
  | .ingestRemote _ _ _ => True
  | .replayCursor _ _ requested => requested = none
  | _ => False

structure Stores (events : Table MessageEvent.messageId) (r : MessageRow)
    (m : CommittedMessage E) : Prop where
  id : r.id = m.position
  channel : r.channel = m.event.channel
  type : r.type = m.event.payload.type
  dataJson : r.dataJson = E.json.toStr m.event.payload.data
  event : events.get? r.id = some ⟨r.id, m.event.id⟩

/-- The tables hold what retention left of the log. -/
structure Holds (db : ChannelDb) (log : List (CommittedMessage E)) : Prop where
  limits : db.loadLimits = .ok db.storeState.limits
  ordered : (coordinates E).Ordered log
  le_last : ∀ m ∈ log, m.position ≤ db.messages.last
  retains : Retains (coordinates E) (Stores db.events) db.messages.rows log db.replayFloor
  head : ∀ m ∈ log, m.position ≤ db.streamHead m.event.channel
  head_le : ∀ channel, db.streamHead channel ≤ db.messages.last

variable {s s' : SqliteChannelStore} {db db' : ChannelDb} {log : List (CommittedMessage E)}
  {event : ChannelEvent E} {message : ChannelMessage E} {channel : String} {epoch : Bytes16}
  {now : UnixMs} {limits : Option SqliteReplayLimits} {c : ReplayCursor}
namespace Holds
theorem retire (h : Holds db log) (hr : db.Retires db') : Holds db' log where
  __ := h
  limits := by
    rw [ChannelDb.loadLimits, hr.limits]
    exact h.limits
  le_last m hm := by
    rw [hr.last]
    exact h.le_last m hm
  retains := by
    apply h.retains.retire hr.rows
    · intro r hrow m hs
      exact ⟨hs.id, hs.channel, hs.type, hs.dataJson, (hr.events r hrow).trans hs.event⟩
    · exact hr.floor
    · intro r hrow m hs
      have hgone := hr.gone r hrow
      rw [hs.id, hs.channel] at hgone
      exact hgone
  head m hm := (h.head m hm).trans (hr.head _)
  head_le channel := by
    have hle := hr.head_le channel
    have hle' := h.head_le channel
    rw [hr.last]
    omega

theorem append (h : Holds db log)
    (ha : db.Appends db' ⟨db.messages.last + 1, event.channel, event.payload.type,
      E.json.toStr event.payload.data, now.ms⟩ event.id) :
    Holds db' (log ++ [⟨db.messages.last + 1, event⟩]) := by
  have hheads := (Heads.mk h.ordered h.le_last h.head h.head_le).concat
    (e := ⟨db.messages.last + 1, event⟩) rfl ha.last ha.head
  refine { hheads with limits := ?_, retains := ?_ }
  · rw [ChannelDb.loadLimits, ha.limits]
    exact h.limits
  · rw [ha.rows]
    apply h.retains.concat
    · intro r hr m hs
      have hle := db.messages.le_last r hr
      have hold : db'.events.get? r.id = db.events.get? r.id := by
        rw [ha.events, if_neg]
        show ¬r.id = db.messages.last + 1
        omega
      exact ⟨hs.id, hs.channel, hs.type, hs.dataJson, hold.trans hs.event⟩
    · exact ⟨rfl, rfl, rfl, rfl, by rw [ha.events, if_pos rfl]⟩
    · exact ha.floor

theorem setLimits (h : Holds db log) {limits : SqliteReplayLimits}
    (hload : (db.setLimits limits).loadLimits = .ok limits) : Holds (db.setLimits limits) log :=
  { h with limits := hload }
end Holds

structure Extends (db db' : ChannelDb) (new : List (CommittedMessage E)) : Prop where
  holds : ∀ log, Holds db log → Holds db' (log ++ new)
  last : db.messages.last ≤ db'.messages.last
  later : ∀ m ∈ new, db.messages.last < m.position

namespace Extends
variable {db₁ db₂ db₃ : ChannelDb} {new new' : List (CommittedMessage E)}
theorem of_retires (h : db₁.Retires db₂) : Extends (E := E) db₁ db₂ [] where
  holds log hl := by
    rw [append_nil]
    exact hl.retire h
  last := h.last.ge
  later m hm := by cases hm

theorem refl (db : ChannelDb) : Extends (E := E) db db [] := of_retires (ChannelDb.Retires.refl db)

theorem trans (h : Extends db₁ db₂ new) (h' : Extends db₂ db₃ new') :
    Extends db₁ db₃ (new ++ new') where
  holds log hl := by
    rw [← append_assoc]
    exact h'.holds _ (h.holds log hl)
  last := h.last.trans h'.last
  later m hm := by
    obtain hm | hm := mem_append.mp hm
    · exact h.later m hm
    · exact h.last.trans_lt (h'.later m hm)

theorem between (hr : db.Retires db₁) (h : Extends db₁ db₂ new) (hr' : db₂.Retires db₃) :
    Extends db db₃ new := by
  have hall := ((of_retires hr).trans h).trans (of_retires hr')
  rwa [nil_append, append_nil] at hall
end Extends

theorem ReplayCursor.fromStr_sqlite (epoch : Bytes16) (channel : String) {position : ℤ}
    (h0 : 0 ≤ position) (h1 : position ≤ maxRowid) :
    fromStr (sqlite E epoch channel position).display = .ok (sqlite E epoch channel position) :=
  fromStr_display rfl h0 h1

theorem committedAt_durable (hdurable : event.ephemeral = false) {id : String}
    (hid : ReplayCursor.fromStr id = .ok c) : committedAt id event = [⟨c.position, event⟩] := by
  rw [committedAt, hdurable, hid]

theorem committedAt_ephemeral (heph : event.ephemeral = true) (id : String) :
    committedAt id event = [] := by
  rw [committedAt, heph]

theorem fromStr_appended {row : MessageRow} {eventId : ChannelEventId}
    (h : db.Appends db' row eventId) (epoch : Bytes16) (channel : String) :
    ReplayCursor.fromStr (ReplayCursor.sqlite E epoch channel (db.messages.last + 1)).display =
      .ok (ReplayCursor.sqlite E epoch channel (db.messages.last + 1)) := by
  have h0 := db.messages.last_nonneg
  have h1 := db'.messages.last_le
  rw [h.last] at h1
  exact ReplayCursor.fromStr_sqlite epoch channel (by omega) h1

theorem extends_appendEvent
    (h : db.appendEvent E epoch event now = .ok (message, db')) :
    Extends db db' (committedAt message.id event) := by
  obtain ⟨heph, rfl, _⟩ | ⟨hdurable, hid, _, hretires, happ⟩ := ChannelDb.appendEvent_eq_ok h
  · rw [committedAt_ephemeral heph]
    exact Extends.refl db'
  · rw [hid, committedAt_durable hdurable (fromStr_appended happ epoch event.channel)]
    refine ⟨fun log hl => (hl.append happ).retire hretires, ?_, ?_⟩
    · rw [hretires.last, happ.last]
      omega
    · intro m hm
      rw [mem_singleton.mp hm]
      show db.messages.last < db.messages.last + 1
      omega

theorem validate_eq_ok {l l' : SqliteReplayLimits} (h : l.validate = .ok l') : l' = l := by
  unfold SqliteReplayLimits.validate at h
  simp only at h
  split at h
  · cases h
  · exact (Except.ok.inj h).symm

theorem extends_setLimits {limits limits' : SqliteReplayLimits}
    (h : (db.setLimits limits).loadLimits = .ok limits') :
    Extends (E := E) db (db.setLimits limits) [] where
  holds log hl := by
    rw [append_nil]
    rw [validate_eq_ok h] at h
    exact hl.setLimits h
  last := le_refl _
  later m hm := by cases hm

variable {file : Option ChannelDb}
theorem extends_initConnection (h : ChannelDb.initConnection file limits now epoch = .ok db) :
    Extends (E := E) (file.getD (ChannelDb.created epoch)) db [] := by
  obtain ⟨_, hload, h⟩ := bind_eq_ok h
  cases h
  have hcounters := (ChannelDb.retires_raiseLatest (file.getD (ChannelDb.created epoch))).trans
    (ChannelDb.retires_ensureBudgetCounters _)
  cases limits with
  | none => exact Extends.of_retires (hcounters.trans (ChannelDb.retires_pruneReplay _ _ _))
  | some =>
    exact Extends.between hcounters (extends_setLimits hload) (ChannelDb.retires_pruneReplay _ _ _)

theorem extends_openFile
    (h : SqliteChannelStore.openFile file limits now epoch = .ok s) :
    Extends (E := E) (file.getD (ChannelDb.created epoch)) s.db [] := by
  obtain ⟨_, _, h⟩ := bind_eq_ok h
  obtain ⟨_, hinit, h⟩ := bind_eq_ok h
  cases h
  exact extends_initConnection hinit

namespace ChannelDb
variable (db)
/-- `previous` of `ingest_remote`. -/
def recordedSequence (origin : String) : ℤ :=
  ((db.remoteOrigins.get? origin).map RemoteOrigin.sequence).getD 0

/-- The state in which `ingest_remote` appends an event. -/
def revealGap (id : ChannelEventId) (epoch : Bytes16) : ChannelDb :=
  if db.recordedSequence id.origin + 1 < id.sequence then db.rotateReplayEpoch epoch else db

theorem retires_revealGap (id : ChannelEventId) (epoch : Bytes16) :
    Retires db (db.revealGap id epoch) := by
  unfold revealGap
  split
  · exact retires_rotateReplayEpoch db epoch
  · exact Retires.refl db

theorem retires_nextSequence : Retires db { db with eventSequence := db.eventSequence + 1 } :=
  Retires.of_eq rfl rfl rfl rfl fun _ => rfl

theorem retires_recordOrigin (origins : Table RemoteOrigin.origin) :
    Retires db { db with remoteOrigins := origins } :=
  Retires.of_eq rfl rfl rfl rfl fun _ => rfl
end ChannelDb

namespace SqliteChannelStore
theorem publish_eq_ok {payload : ChannelPublishPayload E} {ephemeral : Bool}
    (h : s.publish E now channel payload ephemeral = .ok ((message, event), db)) :
    event = ⟨⟨encode s.epoch, (s.db.eventSequence + 1).toNat⟩, channel, payload, ephemeral⟩ ∧
      ChannelDb.appendEvent E { s.db with eventSequence := s.db.eventSequence + 1 }
        s.db.replayEpoch event now = .ok (message, db) := by
  unfold publish at h
  split at h
  · obtain ⟨⟨_, _⟩, happend, h⟩ := bind_eq_ok h
    obtain ⟨hpair, rfl⟩ := ok_pair_inj h
    obtain ⟨rfl, rfl⟩ := Prod.mk.inj hpair
    exact ⟨rfl, happend⟩
  · cases h

/-- What an ingest that applies its event does: it may draw a new epoch, appends
the event and records its number. -/
structure Ingests (s : SqliteChannelStore) (now : UnixMs) (event : ChannelEvent E)
    (epoch : Bytes16) (message : ChannelMessage E) (db : ChannelDb) : Prop where
  valid : event.id.sequence ≤ i64Max ∧ validOrigin event.id.origin
  foreign : event.id.origin ≠ encode s.epoch
  newer : s.db.recordedSequence event.id.origin < event.id.sequence
  appends : ∃ db₁ origins,
    (s.db.revealGap event.id epoch).appendEvent E (s.db.revealGap event.id epoch).replayEpoch event
        now = .ok (message, db₁) ∧
      db = { db₁ with remoteOrigins := origins } ∧
      ∀ origin, ((origins.get? origin).map RemoteOrigin.sequence).getD 0 =
        if event.id.origin = origin then (event.id.sequence : ℤ)
        else db₁.recordedSequence origin

theorem ingestRemote_eq_ok {message : Option (ChannelMessage E)}
    (h : s.ingestRemote E now event epoch = .ok (message, db)) :
    (message = none ∧ db = s.db) ∨ ∃ m, message = some m ∧ Ingests s now event epoch m db := by
  unfold ingestRemote at h
  split at h
  · cases h
  · rename_i hvalid
    split at h
    · obtain ⟨rfl, rfl⟩ := ok_pair_inj h
      exact .inl ⟨rfl, rfl⟩
    · rename_i hforeign
      simp only at h
      split at h
      · obtain ⟨rfl, rfl⟩ := ok_pair_inj h
        exact .inl ⟨rfl, rfl⟩
      · rename_i hnewer
        obtain ⟨⟨m, db₁⟩, happend, h⟩ := bind_eq_ok h
        obtain ⟨rfl, rfl⟩ := ok_pair_inj h
        refine .inr ⟨m, rfl, ?_, hforeign, not_le.mp hnewer, db₁, _, happend, rfl, ?_⟩
        · rw [not_or, not_or, not_lt, not_not] at hvalid
          exact hvalid.2
        · intro origin
          rw [Table.get?_upsert]
          by_cases horigin : event.id.origin = origin
          · rw [if_pos horigin, if_pos horigin]
            cases db₁.remoteOrigins.get? origin <;> rfl
          · rw [if_neg horigin, if_neg horigin]
            rfl

inductive Does (s : SqliteChannelStore) :
    ChannelCall E → ChannelResult E → SqliteChannelStore → Prop
  | fails (call : ChannelCall E) (e : ChannelError) : Does s call (.error e) s
  | publishes {now : UnixMs} {channel : String} {payload : ChannelPublishPayload E}
      {ephemeral : Bool} {message : ChannelMessage E} {event : ChannelEvent E} {db : ChannelDb}
      (hevent : event =
        ⟨⟨encode s.epoch, (s.db.eventSequence + 1).toNat⟩, channel, payload, ephemeral⟩)
      (happend : ChannelDb.appendEvent E { s.db with eventSequence := s.db.eventSequence + 1 }
        s.db.replayEpoch event now = .ok (message, db)) :
      Does s (.publish now channel payload ephemeral) (.ok (.published message event))
        { s with db := db }
  | ignores (now : UnixMs) (event : ChannelEvent E) (epoch : Bytes16) :
      Does s (.ingestRemote now event epoch) (.ok (.ingested none)) s
  | ingests {now : UnixMs} {event : ChannelEvent E} {epoch : Bytes16} {message : ChannelMessage E}
      {db : ChannelDb} (hingests : Ingests s now event epoch message db) :
      Does s (.ingestRemote now event epoch) (.ok (.ingested (some message))) { s with db := db }
  | reads {now : UnixMs} {channel : String} {after : Option ReplayCursor} {limit : UInt32}
      {page : List (ChannelMessage E)} (hpage : s.readAfter E now channel after limit = .ok page) :
      Does s (.readAfter now channel after limit) (.ok (.messages page)) s
  | resumes {now : UnixMs} {channel : String} {requested cursor : Option ReplayCursor}
      (hcursor : s.replayCursor E now channel requested = .ok cursor) :
      Does s (.replayCursor now channel requested) (.ok (.cursor cursor)) s
  | syncs (now : UnixMs) (channel : String) (auth : ChannelAuthResponse) :
      Does s (.syncChannel now channel auth) (.ok .done)
        { s with db := syncChannel s.db now channel auth }
  | prunes {now : UnixMs} {limits : SqliteReplayLimits} (hload : s.db.loadLimits = .ok limits) :
      Does s (.prune now) (.ok .done) { s with db := s.db.pruneReplay limits now }
  | rotates (epoch : Bytes16) :
      Does s (.invalidateReplay epoch) (.ok .done) { s with db := s.db.rotateReplayEpoch epoch }
  | reopens {limits : Option SqliteReplayLimits} {now : UnixMs} {epoch : Bytes16}
      {s' : SqliteChannelStore} (hopen : openFile (some s.db) limits now epoch = .ok s') :
      Does s (.reopen limits now epoch) (.ok .done) s'

theorem does_commit {α : Type} {call : ChannelCall E} {reply : α → ChannelReply E}
    {r : Except ChannelError (α × ChannelDb)}
    (h : ∀ a db, r = .ok (a, db) → Does s call (.ok (reply a)) { s with db := db }) :
    Does s call (s.commit reply r).1 (s.commit reply r).2 := by
  cases r with
  | error e => exact .fails call e
  | ok p => exact h p.1 p.2 rfl

/-- What each call of the store does to its tables. -/
theorem does_exec (call : ChannelCall E) (s : SqliteChannelStore) :
    Does s call (exec E call s).1 (exec E call s).2 := by
  cases call with
  | publish =>
    refine does_commit fun p db h => ?_
    obtain ⟨hevent, happend⟩ := publish_eq_ok h
    exact .publishes hevent happend
  | ingestRemote now event epoch =>
    refine does_commit fun message db h => ?_
    obtain ⟨rfl, rfl⟩ | ⟨m, rfl, hingests⟩ := ingestRemote_eq_ok h
    · exact .ignores now event epoch
    · exact .ingests hingests
  | readAfter now channel after limit =>
    rw [exec]
    cases h : s.readAfter E now channel after limit with
    | error e => exact .fails _ e
    | ok => exact .reads h
  | replayCursor now channel requested =>
    rw [exec]
    cases h : s.replayCursor E now channel requested with
    | error e => exact .fails _ e
    | ok => exact .resumes h
  | syncChannel now channel auth => exact .syncs now channel auth
  | prune =>
    refine does_commit fun _ db h => ?_
    unfold prune at h
    cases hload : s.db.loadLimits with
    | error =>
      rw [hload] at h
      cases h
    | ok =>
      rw [hload] at h
      cases h
      exact .prunes hload
  | invalidateReplay epoch => exact .rotates epoch
  | reopen limits now epoch =>
    rw [exec]
    cases h : openFile (some s.db) limits now epoch with
    | error e => exact .fails _ e
    | ok => exact .reopens h

variable {call : ChannelCall E} {result : ChannelResult E}
theorem Does.extends (h : Does s call result s') : Extends s.db s'.db (call.commits result) := by
  cases h with
  | fails _ e =>
    have hnone : call.commits (.error e) = [] := by cases call <;> rfl
    rw [hnone]
    exact Extends.refl s.db
  | @publishes _ _ _ _ _ _ db _ happend =>
    exact Extends.between (ChannelDb.retires_nextSequence s.db) (extends_appendEvent happend)
      (ChannelDb.Retires.refl db)
  | ignores | reads | resumes => exact Extends.refl s.db
  | @ingests now event epoch _ _ hingests =>
    obtain ⟨db₁, origins, happend, rfl, _⟩ := hingests.appends
    exact Extends.between (ChannelDb.retires_revealGap s.db event.id epoch)
      (extends_appendEvent happend) (ChannelDb.retires_recordOrigin db₁ origins)
  | syncs now channel auth =>
    exact Extends.of_retires (ChannelDb.retires_syncChannel s.db now channel auth)
  | @prunes now limits => exact Extends.of_retires (ChannelDb.retires_pruneReplay s.db limits now)
  | rotates epoch => exact Extends.of_retires (ChannelDb.retires_rotateReplayEpoch s.db epoch)
  | reopens hopen => exact extends_openFile hopen

theorem extends_exec (call : ChannelCall E) (s : SqliteChannelStore) :
    Extends s.db (exec E call s).2.db (call.commits (exec E call s).1) :=
  (does_exec call s).extends

theorem committed_cons (s : SqliteChannelStore) (call : ChannelCall E)
    (calls : List (ChannelCall E)) : committed E s (call :: calls) =
      call.commits (exec E call s).1 ++ committed E (exec E call s).2 calls := rfl

theorem committed_append (s : SqliteChannelStore) (calls calls' : List (ChannelCall E)) :
    committed E s (calls ++ calls') =
      committed E s calls ++ committed E (after E s calls) calls' := by
  unfold committed after
  rw [Execution.trace_append, flatMap_append]

/-- A run adds to the log exactly what its calls commit. -/
theorem extends_after (calls : List (ChannelCall E)) (s : SqliteChannelStore) :
    Extends s.db (after E s calls).db (committed E s calls) := by
  induction calls generalizing s with
  | nil => exact Extends.refl s.db
  | cons call _ ih =>
    exact (extends_exec call s).trans (ih _)

theorem holds_created (epoch : Bytes16) : Holds (E := E) (ChannelDb.created epoch) [] where
  limits := rfl
  ordered := List.Pairwise.nil
  le_last m hm := by cases hm
  retains := ⟨nofun, nofun⟩
  head m hm := by cases hm
  head_le _ := le_refl _

theorem holds_after (h : openFile none limits now epoch = .ok s) (calls : List (ChannelCall E)) :
    Holds (after E s calls).db (committed E s calls) := by
  have hopened := (extends_openFile (E := E) h).holds [] (holds_created epoch)
  exact (extends_after calls s).holds [] hopened

theorem mapM_of_forall₂ {α β γ ε : Type} {R : α → γ → Prop} {f : α → Except ε β} {g : γ → β}
    {l : List α} {m : List γ} (h : List.Forall₂ R l m)
    (hf : ∀ a ∈ l, ∀ c, R a c → f a = .ok (g c)) : l.mapM f = .ok (m.map g) := by
  induction h with
  | nil => rfl
  | @cons a c l m hR _ ih =>
    rw [mapM_cons, hf a mem_cons_self c hR,
      ih fun a' ha' => hf a' (mem_cons_of_mem _ ha')]
    rfl

theorem fromStr_toStr (payload : ChannelPublishPayload E) :
    E.json.fromStr (E.json.toStr payload.data) = some (E.json.readBack payload.data) := by
  -- the payload was parsed once, so its text parses again
  obtain ⟨text, htext⟩ := payload.parsed
  obtain ⟨data, hdata⟩ := E.rereads text _ htext
  unfold JsonCodec.readBack JsonCodec.fromStrOrNull
  rw [hdata, Option.getD_some]

theorem messageFromRow_eq (s : SqliteChannelStore) {r : MessageRow} {m : CommittedMessage E}
    (h : Stores s.db.events r m) :
    s.messageFromRow E r.channel r = .ok (m.toMessage s.db.replayEpoch) := by
  unfold messageFromRow
  rw [h.dataJson, fromStr_toStr, h.event]
  simp only [CommittedMessage.toMessage, h.id, h.channel, h.type, Option.map_some]

theorem checkRequested_cases (s : SqliteChannelStore) (channel : String) (c : ReplayCursor)
    (expiredFloor : ℤ) : s.checkRequested E channel (some c) expiredFloor = .error .staleCursor ∨
      (s.checkRequested E channel (some c) expiredFloor = .ok () ∧
        s.db.replayFloor channel ≤ c.position ∧ expiredFloor ≤ c.position) := by
  unfold checkRequested ChannelDb.validateCursor
  simp only
  split
  · exact .inl rfl
  · split
    · exact .inl rfl
    · rename_i hrange
      by_cases hexpired : c.position < expiredFloor
      · left
        exact if_pos hexpired
      · right
        refine ⟨?_, ?_, ?_⟩
        · exact if_neg hexpired
        · omega
        · omega

theorem readAfter_eq (h : Holds s.db log) (now : UnixMs) (channel : String) (c : ReplayCursor)
    (limit : UInt32) : s.readAfter E now channel (some c) limit = .error .staleCursor ∨
      s.readAfter E now channel (some c) limit =
        .ok ((((coordinates E).since log channel c.position).take limit.toNat).map
          (CommittedMessage.toMessage s.db.replayEpoch)) := by
  unfold readAfter
  rw [h.limits]
  set floor := s.db.expiredFloor s.db.storeState.limits channel now with hfloor
  obtain hstale | ⟨hok, hreplay, hexpired⟩ := checkRequested_cases (E := E) s channel c floor
  · left
    show (s.checkRequested E channel (some c) floor >>= _) = _
    rw [hstale]
    rfl
  · right
    show (s.checkRequested E channel (some c) floor >>= _) = _
    rw [hok]
    show List.mapM (s.messageFromRow E channel) ((s.db.messages.select (fun r =>
      r.channel = channel ∧ max c.position floor < r.id)).take limit.toNat) = _
    rw [max_eq_left hexpired]
    -- above the floor the rows are the entries of the log, one by one
    have hrows := h.retains.select (fun _ _ hs => hs.id) (fun _ _ hs => hs.channel)
      s.db.messages.increasing h.ordered hreplay
    apply mapM_of_forall₂ (forall₂_take limit.toNat hrows)
    intro r hr m hs
    have hchannel : r.channel = channel := by
      have hmem := mem_of_mem_take hr
      simp only [mem_filter, decide_eq_true_eq] at hmem
      exact hmem.2.1
    rw [← hchannel]
    exact messageFromRow_eq s hs

theorem since_committed {position : ℤ}
    (hlog : ∀ m ∈ log, m.event.channel = channel → m.position ≤ position)
    (hlast : position ≤ s.db.messages.last) (calls : List (ChannelCall E)) :
    (coordinates E).since (log ++ committed E s calls) channel position =
      (committed E s calls).filter (fun m => m.event.channel = channel) := by
  rw [Coordinates.since_append, Coordinates.since_eq_nil hlog, nil_append]
  apply Coordinates.since_eq_stream
  intro m hm
  exact hlast.trans_lt ((extends_after calls s).later m hm)

theorem position_appended (h : Holds db log)
    (hok : db.appendEvent E epoch event now = .ok (message, db'))
    (hid : ReplayCursor.fromStr message.id = .ok c) :
    (∀ m ∈ log ++ committedAt message.id event, m.position ≤ c.position) ∧
      c.position ≤ db'.messages.last := by
  obtain ⟨_, _, hempty⟩ | ⟨hdurable, hdisplay, _, hretires, happ⟩ :=
    ChannelDb.appendEvent_eq_ok hok
  · -- an ephemeral message has no id
    rw [hempty] at hid
    cases hid
  · rw [committedAt_durable hdurable hid]
    rw [hdisplay, fromStr_appended happ epoch event.channel] at hid
    cases hid
    show (∀ m ∈ log ++ [⟨db.messages.last + 1, event⟩], m.position ≤ db.messages.last + 1) ∧
      db.messages.last + 1 ≤ db'.messages.last
    refine ⟨?_, ?_⟩
    · intro m hm
      obtain hm | hm := mem_append.mp hm
      · have hle := h.le_last m hm
        omega
      · rw [mem_singleton.mp hm]
    · rw [hretires.last, happ.last]

theorem Does.position (hdoes : Does s call result s') (h : Holds s.db log) (hcall : call.AtHead)
    (hissued : Issues call result channel c) :
    (∀ m ∈ log ++ call.commits result, m.event.channel = channel → m.position ≤ c.position) ∧
      c.position ≤ s'.db.messages.last := by
  cases hdoes with
  | fails => cases hissued
  | publishes _ happend =>
    cases hissued with
    | message hmem hid =>
      rw [mem_singleton.mp hmem] at hid
      have hpos := position_appended (h.retire (ChannelDb.retires_nextSequence s.db)) happend hid
      exact ⟨fun m hm _ => hpos.1 m hm, hpos.2⟩
  | ignores =>
    cases hissued with
    | message hmem => cases hmem
  | @ingests now event epoch _ _ hingests =>
    cases hissued with
    | message hmem hid =>
      obtain ⟨_, _, happend, rfl, _⟩ := hingests.appends
      rw [← Option.some.inj (Option.mem_toList.mp hmem)] at hid
      have hpos := position_appended
        (h.retire (ChannelDb.retires_revealGap s.db event.id epoch)) happend hid
      exact ⟨fun m hm _ => hpos.1 m hm, hpos.2⟩
  | @resumes now stream requested cursor hcursor =>
    obtain rfl : requested = none := hcall
    -- the cursor is the head of the stream, which no message of it exceeds
    have hresult : s.replayCursor E now stream none =
        .ok (some (ReplayCursor.sqlite E s.db.replayEpoch stream (s.db.streamHead stream))) := by
      unfold replayCursor
      rw [h.limits]
      rfl
    obtain rfl := Except.ok.inj (hresult.symm.trans hcursor)
    cases hissued with
    | message hmem => cases hmem
    | cursor =>
      refine ⟨?_, h.head_le channel⟩
      intro m hm hchannel
      have hmem : m ∈ log := by simpa [ChannelCall.commits] using hm
      have hle := h.head m hmem
      rw [hchannel] at hle
      exact hle
  | reads | syncs | prunes | rotates | reopens => exact absurd hcall id
end SqliteChannelStore

/-- Replay of one channel from the cursor `c`, after the calls `calls` on the
store `s`: a read is refused, or shows the first messages committed to the
channel after the position of the cursor, in commit order. -/
structure NoSilentGap (s : SqliteChannelStore) (calls : List (ChannelCall E)) (channel : String)
    (c : ReplayCursor) : Prop where
  ordered : (coordinates E).Ordered (s.committed E calls)
  read : ∀ now limit,
    (s.after E calls).readAfter E now channel (some c) limit = .error .staleCursor ∨
      (s.after E calls).readAfter E now channel (some c) limit =
        .ok ((((coordinates E).since (s.committed E calls) channel c.position).take
          limit.toNat).map (CommittedMessage.toMessage (s.after E calls).db.replayEpoch))

/-- Every cursor that was ever issued for a channel can be read from without a
silent gap, whatever was published, pruned, evicted or opened anew since. A
cursor that was issued at the head of the stream is followed by exactly the
messages that later calls committed to it. -/
theorem replay_without_silent_gap {limits : Option SqliteReplayLimits} {now : UnixMs}
    {epoch : Bytes16} {s : SqliteChannelStore}
    (hopen : SqliteChannelStore.openFile none limits now epoch = .ok s)
    (before later : List (ChannelCall E)) (call : ChannelCall E) {channel : String}
    {c : ReplayCursor}
    (hissued : Issues call (SqliteChannelStore.exec E call (s.after E before)).1 channel c) :
    NoSilentGap s (before ++ call :: later) channel c ∧
      (call.AtHead →
        (coordinates E).since (s.committed E (before ++ call :: later)) channel c.position =
          ((s.after E (before ++ [call])).committed E later).filter
            (fun m => m.event.channel = channel)) := by
  refine ⟨⟨?_, ?_⟩, ?_⟩
  · exact (SqliteChannelStore.holds_after hopen _).ordered
  · intro now limit
    exact SqliteChannelStore.readAfter_eq (SqliteChannelStore.holds_after hopen _) now channel c
      limit
  · intro hcall
    have hbefore := SqliteChannelStore.holds_after hopen before
    obtain ⟨hlog, hlast⟩ := (SqliteChannelStore.does_exec _ _).position hbefore hcall hissued
    have hafter : s.after E (before ++ [call]) =
        (SqliteChannelStore.exec E call (s.after E before)).2 :=
      Execution.after_concat _ s before call
    rw [SqliteChannelStore.committed_append, SqliteChannelStore.committed_cons,
      ← append_assoc, hafter]
    exact SqliteChannelStore.since_committed hlog hlast later

/-- Crates on which the model can be run: JSON literals, and the digest of the
one channel used below. -/
def Crates.literals : Crates where
  json := .literals
  parseError _ := "expected value at line 1 column 1"
  sha256 channel :=
    if channel = "room" then #v[31, 28, 91, 47, 173, 119, 132, 52, 2, 79, 21, 55,
      152, 99, 70, 146, 121, 23, 244, 117, 90, 110, 125, 63, 217, 31, 34, 101, 59, 124, 49, 50]
    else Vector.replicate 32 0
  rereads _ v _ := by
    refine ⟨v, ?_⟩
    cases v <;> rfl

def zeroEpoch : Bytes16 := Vector.replicate 16 0

def twoPerStream : SqliteChannelStore :=
  ⟨(ChannelDb.created zeroEpoch).setLimits ⟨2, 1000, 1000, 1000, 0⟩, zeroEpoch⟩

def note : ChannelCall Crates.literals :=
  .publish .epoch "room" ⟨"note", JsonLiteral.true, ⟨"true", rfl⟩⟩ false

theorem true_parsed : ∃ text, Crates.literals.json.fromStr text = some JsonLiteral.true :=
  ⟨"true", rfl⟩

def firstNote : ReplayCursor := .sqlite Crates.literals zeroEpoch "room" 1

def firstMessage : ChannelMessage Crates.literals :=
  ⟨firstNote.display, some ⟨encode zeroEpoch, 1⟩, "room", "note", JsonLiteral.true⟩

theorem replay_without_silent_gap_firstNote :
    SqliteChannelStore.openFile none (some ⟨2, 1000, 1000, 1000, 0⟩) .epoch zeroEpoch =
        .ok twoPerStream ∧
      NoSilentGap twoPerStream [note, note, note] "room" firstNote := by
  have hopen : SqliteChannelStore.openFile none (some ⟨2, 1000, 1000, 1000, 0⟩) .epoch zeroEpoch =
      .ok twoPerStream := rfl
  have hmem : firstMessage ∈ (ChannelReply.published firstMessage
      ⟨⟨encode zeroEpoch, 1⟩, "room", ⟨"note", JsonLiteral.true, ⟨"true", rfl⟩⟩, false⟩).shown :=
    mem_singleton_self _
  have hissued : Issues note
      (SqliteChannelStore.exec Crates.literals note (twoPerStream.after Crates.literals [])).1
      "room" firstNote := Issues.message hmem (by decide +kernel)
  exact ⟨hopen, (replay_without_silent_gap hopen [] [note, note] note hissued).1⟩

end Tako.Channel
