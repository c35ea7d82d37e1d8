import Tako.ChannelReplay
import Tako.ChannelPostgres

/-! Replay on PostgreSQL. A channel without messages has no cursor, and a read without one is
never compared with the floor. -/
namespace Tako.Channel
open Relational StreamLog List Option
open Tako.Workflow (JsonCodec JsonLiteral NulFree)
variable {E : Crates}
structure PostgresMessage (E : Crates) where
  position : ℤ
  channel : String
  payload : ChannelPublishPayload E

def postgresCoordinates (E : Crates) : Coordinates (PostgresMessage E) String where
  position m := m.position
  stream m := m.channel

def PostgresMessage.toMessage (m : PostgresMessage E) : ChannelMessage E :=
  ⟨toString m.position, none, m.channel, m.payload.type, E.json.readBack m.payload.data⟩

/-- What one call commits: an append that succeeds is the last of the sequence. -/
def PostgresCall.commits (appId : String) (call : PostgresCall E) (db : PostgresChannels) :
    List (PostgresMessage E) :=
  match call with
  | .append now now' createdAtUnixMs channel payload =>
    match db.append E appId now now' createdAtUnixMs channel payload with
    | .error _ => []
    | .ok (_, db') => [⟨db'.messages.last, channel, payload⟩]
  | _ => []

def PostgresChannels.committed (E : Crates) (appId : String) :
    PostgresChannels → List (PostgresCall E) → List (PostgresMessage E)
  | _, [] => []
  | db, call :: calls => call.commits appId db ++ committed E appId (exec E appId call db).2 calls

variable {db db' : PostgresChannels} {log : List (PostgresMessage E)} {appId channel : String}
  {payload : ChannelPublishPayload E} {createdAtUnixMs : ℤ} {c : Option ℤ} {now : UnixMs}
structure PostgresStores (r : MessageRow) (m : PostgresMessage E) : Prop where
  id : r.id = m.position
  channel : r.channel = m.channel
  type : r.type = m.payload.type
  dataJson : r.dataJson = E.json.toStr m.payload.data

structure PostgresHolds (db : PostgresChannels) (log : List (PostgresMessage E)) : Prop where
  ordered : (postgresCoordinates E).Ordered log
  pos : ∀ m ∈ log, 0 < m.position
  le_last : ∀ m ∈ log, m.position ≤ db.messages.last
  retains : Retains (postgresCoordinates E) PostgresStores db.messages.rows log db.highestDeleted
  head : ∀ m ∈ log, m.position ≤ db.latest m.channel
  head_le : ∀ channel, db.latest channel ≤ db.messages.last

variable {m : PostgresMetadata}
section
variable (t : Table PostgresMetadata.channel) (g : PostgresMetadata → ℤ)
def bound (channel : String) : ℤ := ((t.get? channel).map g).getD 0

theorem bound_insertIgnore (hm : g m = 0) (channel : String) :
    bound (t.insertIgnore m) g channel = bound t g channel := by
  unfold bound
  rw [Table.get?_insertIgnore]
  cases t.get? channel with
  | some => rfl
  | none =>
    by_cases hk : m.channel = channel
    · simp [hk, hm]
    · simp [hk]

variable {f : PostgresMetadata → PostgresMetadata}
theorem bound_upsert (hf : ∀ m, (f m).channel = m.channel) (hm : g m = 0) (hg : ∀ m, g (f m) = g m)
    (channel : String) : bound (t.upsert m f hf) g channel = bound t g channel := by
  unfold bound
  rw [Table.get?_upsert]
  by_cases hk : m.channel = channel
  · rw [if_pos hk]
    cases t.get? channel with
    | none => simp [hm]
    | some => simp [hg]
  · rw [if_neg hk]

theorem bound_updateWhere {p : PostgresMetadata → Prop} [DecidablePred p]
    (hf : ∀ m, (f m).channel = m.channel) (hg : ∀ m, g (f m) = g m) (channel : String) :
    bound (t.updateWhere p f hf) g channel = bound t g channel := by
  unfold bound
  rw [Table.map_get?_updateWhere t p f hf hg]
end

namespace PostgresChannels
theorem bound_touchChannel {g : PostgresMetadata → ℤ}
    (hnew : ∀ channel ms, g ⟨channel, 600000, 0, 25000, 7200000, ms, 0, 0⟩ = 0)
    (hset : ∀ m ms, g { m with lastActivityUnixMs := ms } = g m) (db : PostgresChannels)
    (channel : String) (now now' : UnixMs) (channel' : String) :
    bound (db.touchChannel channel now now').metadata g channel' =
      bound db.metadata g channel' := by
  have hupdate : bound (db.touchChannel channel now now').metadata g channel' =
      bound (db.metadata.insertIgnore ⟨channel, 600000, 0, 25000, 7200000, now.ms, 0, 0⟩) g
        channel' := by
    apply bound_updateWhere
    · exact fun _ => rfl
    · exact fun m => hset m now'.ms
  rw [hupdate, bound_insertIgnore _ g (hnew channel now.ms)]

theorem latest_setLatest (db : PostgresChannels) (h : db.metadata.get? channel = some m) (id : ℤ)
    (channel' : String) :
    (db.setLatest channel id).latest channel' =
      if channel' = channel then id else db.latest channel' := by
  unfold latest setLatest
  rw [Table.get?_updateWhere_key]
  by_cases hc : channel' = channel <;> simp [hc, h]

structure Appends (db : PostgresChannels) (appId channel : String)
    (payload : ChannelPublishPayload E) (createdAtUnixMs : ℤ) (db' : PostgresChannels) : Prop where
  rows : db'.messages.rows = db.messages.rows ++
    [⟨db.messages.last + 1, channel, payload.type, E.json.toStr payload.data, createdAtUnixMs⟩]
  last : db'.messages.last = db.messages.last + 1
  floor : ∀ channel', db'.highestDeleted channel' = db.highestDeleted channel'
  head : ∀ channel', db'.latest channel' =
    if channel' = channel then db.messages.last + 1 else db.latest channel'

theorem append_eq_ok {now' : UnixMs} {message : ChannelMessage E}
    (h : db.append E appId now now' createdAtUnixMs channel payload = .ok (message, db')) :
    Appends db appId channel payload createdAtUnixMs db' := by
  unfold append at h
  simp only at h
  split at h
  · split at h
    · cases h
    · rename_i messages hinsert
      obtain ⟨hrows, hlast⟩ := AutoTable.insert_eq_some hinsert
      obtain ⟨_, rfl⟩ := Prod.mk.inj (Except.ok.inj h)
      have hmessages : (db.touchChannel channel now now').messages = db.messages := rfl
      rw [hmessages] at hrows hlast
      have htouched : ∃ m, (db.touchChannel channel now now').metadata.get? channel = some m := by
        unfold touchChannel
        rw [Table.get?_updateWhere, Table.get?_insertIgnore, if_pos rfl]
        cases db.metadata.get? channel <;> exact ⟨_, rfl⟩
      obtain ⟨m, hm⟩ := htouched
      refine ⟨hrows, hlast, ?_, ?_⟩
      · intro channel'
        have hset := bound_updateWhere (db.touchChannel channel now now').metadata
          PostgresMetadata.highestDeletedMessageId (p := fun m => m.channel = channel)
          (f := fun m => { m with latestMessageId := messages.last }) (fun _ => rfl)
          (fun _ => rfl) channel'
        exact hset.trans
          (bound_touchChannel (fun _ _ => rfl) (fun _ _ => rfl) db channel now now' channel')
      · intro channel'
        have hset :=
          latest_setLatest { db.touchChannel channel now now' with messages := messages } hm
          messages.last channel'
        rw [hset, hlast]
        by_cases hc : channel' = channel
        · rw [if_pos hc, if_pos hc]
        · rw [if_neg hc, if_neg hc]
          exact bound_touchChannel (fun _ _ => rfl) (fun _ _ => rfl) db channel now now' channel'
  · cases h

structure Prunes (db db' : PostgresChannels) : Prop where
  last : db'.messages.last = db.messages.last
  rows : ∀ r ∈ db'.messages.rows, r ∈ db.messages.rows
  gone : ∀ r ∈ db.messages.rows, r ∈ db'.messages.rows ∨ r.id ≤ db'.highestDeleted r.channel
  floor : ∀ channel, db.highestDeleted channel ≤ db'.highestDeleted channel
  head : ∀ channel, db'.latest channel = db.latest channel

theorem prune_eq_ok {now : ℤ} (h : db.prune appId now = .ok db') :
    Prunes db db' := by
  unfold prune at h
  split at h
  · simp only at h
    cases h
    have hget (channel : String) := db.metadata.get?_updateWhere
      (fun m => ∃ r ∈ db.messages.select (fun r => db.retires now r), r.channel = m.channel)
      (fun m =>
        { m with
          highestDeletedMessageId := max m.highestDeletedMessageId
            (db.messages.maxId (fun r => r.channel = m.channel ∧ db.retires now r)) })
      (fun _ => rfl) channel
    refine ⟨rfl, ?_, ?_, ?_, ?_⟩
    · intro r hr
      exact (db.messages.mem_deleteWhere.mp hr).1
    · intro r hr
      by_cases hretires : db.retires now r = true
      · right
        -- only rows of a channel with metadata are deleted, so there is a floor to lift
        cases hm : db.metadata.get? r.channel with
        | none =>
          rw [retires, hm] at hretires
          cases hretires
        | some m =>
          have hkey := db.metadata.get?_key hm
          have hle := db.messages.le_maxId hr
            (p := fun r' => r'.channel = m.channel ∧ db.retires now r') ⟨hkey.symm, hretires⟩
          have hdeleted : ∃ r' ∈ db.messages.select (fun r => db.retires now r),
              r'.channel = m.channel :=
            ⟨r, db.messages.mem_select.mpr ⟨hr, hretires⟩, hkey.symm⟩
          rw [highestDeleted, hget, hm, map_some, map_some, getD_some,
            if_pos hdeleted]
          exact hle.trans (le_max_right _ _)
      · exact .inl (db.messages.mem_deleteWhere.mpr ⟨hr, hretires⟩)
    · intro channel
      rw [highestDeleted, highestDeleted, hget]
      cases db.metadata.get? channel with
      | none => exact le_refl _
      | some =>
        rw [map_some, map_some, map_some, getD_some, getD_some]
        split
        · exact le_max_left _ _
        · exact le_refl _
    · intro _
      apply bound_updateWhere
      · exact fun _ => rfl
      · exact fun _ => rfl
  · cases h

variable {auth : ChannelAuthResponse}
theorem highestDeleted_syncChannel (h : db.syncChannel appId now channel auth = .ok db')
    (channel' : String) :
    db'.highestDeleted channel' = db.highestDeleted channel' := by
  unfold syncChannel at h
  split at h
  · simp only at h
    cases h
    apply bound_upsert
    · rfl
    · exact fun _ => rfl
  · cases h

theorem syncChannel_eq_ok (h : db.syncChannel appId now channel auth = .ok db') :
    Prunes db db' := by
  have hfloor := highestDeleted_syncChannel h
  unfold syncChannel at h
  split at h
  · simp only at h
    cases h
    refine ⟨rfl, fun r hr => hr, fun r hr => .inl hr, fun channel' => (hfloor channel').ge, ?_⟩
    · intro _
      apply bound_upsert
      · rfl
      · exact fun _ => rfl
  · cases h
end PostgresChannels

namespace PostgresHolds
theorem prune (h : PostgresHolds db log) (hp : db.Prunes db') : PostgresHolds db' log where
  __ := h
  le_last m hm := by
    rw [hp.last]
    exact h.le_last m hm
  retains := by
    apply h.retains.retire hp.rows
    · exact fun r _ m hs => hs
    · exact hp.floor
    · intro r hr m hs
      have hgone := hp.gone r hr
      rw [hs.id, hs.channel] at hgone
      exact hgone
  head m hm := by
    rw [hp.head]
    exact h.head m hm
  head_le channel := by
    rw [hp.head, hp.last]
    exact h.head_le channel

theorem nextval (h : PostgresHolds db log) :
    PostgresHolds { db with messages := db.messages.nextval } log where
  __ := h
  le_last m hm := (h.le_last m hm).trans db.messages.last_le_nextval
  retains := by
    show Retains _ _ db.messages.nextval.rows _ _
    rw [AutoTable.rows_nextval]
    exact h.retains
  head_le channel := (h.head_le channel).trans db.messages.last_le_nextval

theorem append (h : PostgresHolds db log)
    (ha : db.Appends appId channel payload createdAtUnixMs db') :
    PostgresHolds db' (log ++ [⟨db.messages.last + 1, channel, payload⟩]) := by
  have hheads := (Heads.mk h.ordered h.le_last h.head h.head_le).concat
    (e := ⟨db.messages.last + 1, channel, payload⟩) rfl ha.last ha.head
  refine { hheads with pos := fun m hm => ?_, retains := ?_ }
  · obtain hm | hm := mem_append.mp hm
    · exact h.pos m hm
    · have hlast := db.messages.last_nonneg
      rw [mem_singleton.mp hm]
      show 0 < db.messages.last + 1
      omega
  · rw [ha.rows]
    exact h.retains.concat (fun _ _ _ hs => hs) ⟨rfl, rfl, rfl, rfl⟩ ha.floor

theorem empty : PostgresHolds (E := E) .empty [] where
  ordered := List.Pairwise.nil
  pos m hm := by cases hm
  le_last m hm := by cases hm
  retains := ⟨nofun, nofun⟩
  head m hm := by cases hm
  head_le _ := le_refl _
end PostgresHolds

namespace PostgresChannels
inductive Changes (appId : String) (db : PostgresChannels) :
    PostgresCall E → PostgresChannels → List (PostgresMessage E) → Prop
  | keeps (call : PostgresCall E) : Changes appId db call db []
  | appends {now now' : UnixMs} {createdAtUnixMs : ℤ} {channel : String}
      {payload : ChannelPublishPayload E} {db' : PostgresChannels}
      (happends : db.Appends appId channel payload createdAtUnixMs db') :
      Changes appId db (.append now now' createdAtUnixMs channel payload) db'
        [⟨db.messages.last + 1, channel, payload⟩]
  | prunes {call : PostgresCall E} {db' : PostgresChannels} (hprunes : db.Prunes db')
      (hdeleted : (∀ now, call ≠ .prune now) →
        ∀ channel, db'.highestDeleted channel = db.highestDeleted channel) :
      Changes appId db call db' []
  | draws : Changes appId db .nextval { db with messages := db.messages.nextval } []

/-- A call keeps the tables, appends, prunes or draws an id. -/
theorem changes_exec (call : PostgresCall E) (db : PostgresChannels) :
    Changes appId db call (exec E appId call db).2 (call.commits appId db) := by
  cases call with
  | append now now' createdAtUnixMs channel payload =>
    unfold PostgresCall.commits exec
    cases happend : db.append E appId now now' createdAtUnixMs channel payload with
    | error =>
      simp only [happend]
      exact .keeps _
    | ok =>
      have happends := append_eq_ok happend
      simp only [happend, happends.last]
      exact .appends happends
  | readAfter | replayCursor => exact .keeps _
  | syncChannel now channel auth =>
    show Changes appId db _ (commit (E := E) db (db.syncChannel appId now channel auth)).2 []
    cases hsync : db.syncChannel appId now channel auth with
    | error => exact .keeps _
    | ok => exact .prunes (syncChannel_eq_ok hsync) fun _ => highestDeleted_syncChannel hsync
  | prune now =>
    show Changes appId db _ (commit (E := E) db (db.prune appId now)).2 []
    cases hprune : db.prune appId now with
    | error => exact .keeps _
    | ok => exact .prunes (prune_eq_ok hprune) fun hne => absurd rfl (hne now)
  | nextval => exact .draws

section
variable {call : PostgresCall E} {new : List (PostgresMessage E)}
  (hchanges : Changes appId db call db' new)
include hchanges
theorem Changes.holds (h : PostgresHolds db log) : PostgresHolds db' (log ++ new) := by
  cases hchanges with
  | appends happends => exact h.append happends
  | keeps => rwa [append_nil]
  | prunes hprunes =>
    rw [append_nil]
    exact h.prune hprunes
  | draws =>
    rw [append_nil]
    exact h.nextval

theorem Changes.last_le : db.messages.last ≤ db'.messages.last := by
  cases hchanges with
  | keeps => exact le_refl _
  | appends happends =>
    rw [happends.last]
    omega
  | prunes hprunes => exact hprunes.last.ge
  | draws => exact db.messages.last_le_nextval

theorem Changes.later : ∀ m ∈ new, db.messages.last < m.position := by
  intro m hm
  cases hchanges with
  | appends =>
    rw [mem_singleton.mp hm]
    exact Int.lt_succ _
  | keeps | prunes | draws => cases hm

theorem Changes.highestDeleted (hcall : ∀ now, call ≠ .prune now) (channel : String) :
    db'.highestDeleted channel = db.highestDeleted channel := by
  cases hchanges with
  | appends happends => exact happends.floor channel
  | prunes _ hdeleted => exact hdeleted hcall channel
  | keeps | draws => rfl
end

theorem holds_after (calls : List (PostgresCall E)) (h : PostgresHolds db log) :
    PostgresHolds (after E appId db calls) (log ++ committed E appId db calls) := by
  induction calls generalizing db log with
  | nil =>
    rw [committed, append_nil]
    exact h
  | cons call _ ih =>
    rw [committed, ← append_assoc]
    exact ih ((changes_exec call db).holds h)

theorem holds_committed (appId : String) (calls : List (PostgresCall E)) :
    PostgresHolds (empty.after E appId calls) (empty.committed E appId calls) :=
  holds_after calls PostgresHolds.empty

theorem committed_append (db : PostgresChannels) (calls calls' : List (PostgresCall E)) :
    committed E appId db (calls ++ calls') =
      committed E appId db calls ++ committed E appId (after E appId db calls) calls' := by
  induction calls generalizing db with
  | nil => rfl
  | cons _ _ ih =>
    rw [cons_append, committed, ih, committed, append_assoc]
    rfl

theorem later_committed (calls : List (PostgresCall E)) (db : PostgresChannels) :
    ∀ m ∈ committed E appId db calls, db.messages.last < m.position := by
  induction calls generalizing db with
  | nil =>
    intro m hm
    cases hm
  | cons call _ ih =>
    intro m hm
    obtain hm | hm := mem_append.mp hm
    · exact (changes_exec call db).later m hm
    · exact (changes_exec call db).last_le.trans_lt (ih _ m hm)

theorem messageFromRow_eq {r : MessageRow} {m : PostgresMessage E} (h : PostgresStores r m) :
    messageFromRow E r = .ok m.toMessage := by
  unfold messageFromRow
  rw [h.dataJson, SqliteChannelStore.fromStr_toStr]
  simp only [PostgresMessage.toMessage, h.id, h.channel, h.type]

theorem resolveReplayCursor_cases (requested highestDeleted : ℤ) (latest : Option ℤ) :
    resolveReplayCursor (some requested) highestDeleted latest = .error .staleCursor ∨
      (resolveReplayCursor (some requested) highestDeleted latest = .ok (some requested) ∧
        highestDeleted ≤ requested) := by
  unfold resolveReplayCursor
  simp only
  split
  · exact .inl rfl
  · rename_i hvalid
    rw [not_or, not_lt] at hvalid
    exact .inr ⟨rfl, hvalid.1⟩

theorem readAfter_eq (h : PostgresHolds db log) (hnul : NulFree [appId, channel])
    (hc : c ≠ none ∨ db.highestDeleted channel = 0) (limit : UInt32) :
    db.readAfter E appId channel c limit = .error .staleCursor ∨
      db.readAfter E appId channel c limit =
        .ok ((((postgresCoordinates E).since log channel (c.getD 0)).take limit.toNat).map
          PostgresMessage.toMessage) := by
  have hrows (hfloor : db.highestDeleted channel ≤ c.getD 0) :
      ((db.messages.select (fun r => r.channel = channel ∧ c.getD 0 < r.id)).take
          limit.toNat).mapM (messageFromRow E) =
        .ok ((((postgresCoordinates E).since log channel (c.getD 0)).take limit.toNat).map
          PostgresMessage.toMessage) := by
    have hselect := h.retains.select (fun _ _ hs => hs.id) (fun _ _ hs => hs.channel)
      db.messages.increasing h.ordered hfloor
    apply SqliteChannelStore.mapM_of_forall₂ (forall₂_take limit.toNat hselect)
    intro r _ m hs
    exact messageFromRow_eq hs
  unfold readAfter
  rw [if_pos hnul]
  cases c with
  | none =>
    have hzero : db.highestDeleted channel = 0 := by
      obtain hsome | hzero := hc
      · exact absurd rfl hsome
      · exact hzero
    exact .inr (hrows hzero.le)
  | some requested =>
    obtain hstale | ⟨hok, hfloor⟩ :=
      resolveReplayCursor_cases requested (db.highestDeleted channel) (db.head channel)
    · left
      simp only [isSome_some, if_true, hstale]
      rfl
    · right
      simp only [isSome_some, if_true, hok]
      exact hrows hfloor

theorem replayCursor_head (h : PostgresHolds db log)
    (hc : db.replayCursor appId channel none = .ok c) : (c = none ↔ db.latest channel = 0) ∧
      (∀ m ∈ log, m.channel = channel → m.position ≤ c.getD 0) ∧ c.getD 0 ≤ db.messages.last := by
  unfold replayCursor at hc
  split at hc
  · have hhead : db.head channel = c := Except.ok.inj hc
    have hvalue : c.getD 0 = db.latest channel := by
      rw [← hhead, head]
      split
      · rename_i hzero
        exact hzero.symm
      · rfl
    refine ⟨?_, ?_, ?_⟩
    · rw [← hhead, head]
      split
      · rename_i hzero
        exact ⟨fun _ => hzero, fun _ => rfl⟩
      · rename_i hne
        exact ⟨nofun, fun hzero => absurd hzero hne⟩
    · intro m hm hchannel
      rw [hvalue, ← hchannel]
      exact h.head m hm
    · rw [hvalue]
      exact h.head_le channel
  · cases hc
end PostgresChannels

/-- Replay of one channel from `c`: a read is refused, or shows the first
messages of the channel after it, in commit order. -/
def PostgresNoSilentGap (E : Crates) (appId : String) (calls : List (PostgresCall E))
    (channel : String) (c : Option ℤ) : Prop :=
  ∀ limit,
    (PostgresChannels.empty.after E appId calls).readAfter E appId channel c limit =
        .error .staleCursor ∨
      (PostgresChannels.empty.after E appId calls).readAfter E appId channel c limit =
        .ok ((((postgresCoordinates E).since
          (PostgresChannels.empty.committed E appId calls) channel
          (c.getD 0)).take limit.toNat).map PostgresMessage.toMessage)

/-- A cursor that was captured while its channel had a message, or asked for by
its position, can be read from without a silent gap at any time. What was
captured on a channel without messages can be read from until something of the
channel is pruned. -/
theorem postgres_replay_without_silent_gap (appId : String) (before later : List (PostgresCall E))
    {channel : String} {requested c : Option ℤ}
    (hcursor : (PostgresChannels.empty.after E appId before).replayCursor appId channel requested =
      .ok c)
    (hcaptured : requested ≠ none ∨
      (PostgresChannels.empty.after E appId before).latest channel ≠ 0 ∨
      (PostgresChannels.empty.after E appId (before ++ later)).highestDeleted channel = 0) :
    PostgresNoSilentGap E appId (before ++ later) channel c ∧
      (requested = none →
        (postgresCoordinates E).since (PostgresChannels.empty.committed E appId (before ++ later))
            channel (c.getD 0) =
          ((PostgresChannels.empty.after E appId before).committed E appId later).filter
            (fun m => m.channel = channel)) := by
  have hbefore := PostgresChannels.holds_committed appId before
  have hall := PostgresChannels.holds_committed appId (before ++ later)
  have hnul : NulFree [appId, channel] := by
    unfold PostgresChannels.replayCursor at hcursor
    split at hcursor
    · assumption
    · cases hcursor
  refine ⟨?_, ?_⟩
  · intro _
    apply PostgresChannels.readAfter_eq hall hnul
    cases requested with
    | some position =>
      left
      unfold PostgresChannels.replayCursor at hcursor
      rw [if_pos hnul] at hcursor
      obtain hstale | ⟨hok, _⟩ := PostgresChannels.resolveReplayCursor_cases position _ _
      · rw [hstale] at hcursor
        cases hcursor
      · rw [hok] at hcursor
        rw [← Except.ok.inj hcursor]
        exact some_ne_none position
    | none =>
      have hnone := (PostgresChannels.replayCursor_head hbefore hcursor).1
      obtain hrequested | hlatest | hfloor := hcaptured
      · exact absurd rfl hrequested
      · exact .inl fun hc => hlatest (hnone.mp hc)
      · exact .inr hfloor
  · intro hrequested
    rw [hrequested] at hcursor
    obtain ⟨_, hlog, hlast⟩ := PostgresChannels.replayCursor_head hbefore hcursor
    rw [PostgresChannels.committed_append, Coordinates.since_append, Coordinates.since_eq_nil hlog,
      nil_append]
    apply Coordinates.since_eq_stream
    intro m hm
    exact hlast.trans_lt (PostgresChannels.later_committed later _ m hm)

def noteAt (createdAtUnixMs : ℤ) : PostgresCall Crates.literals :=
  .append .epoch .epoch createdAtUnixMs "room" ⟨"note", JsonLiteral.true, true_parsed⟩

theorem postgres_replay_without_silent_gap_noteAt :
    (PostgresChannels.empty.after Crates.literals "app" [noteAt 0]).replayCursor "app" "room" none =
        .ok (some 1) ∧
      PostgresNoSilentGap Crates.literals "app"
        ([noteAt 0] ++ [noteAt 700000, .prune 700000, noteAt 700000]) "room" (some 1) := by
  have hcursor : (PostgresChannels.empty.after Crates.literals "app" [noteAt 0]).replayCursor "app"
      "room" none = .ok (some 1) := by decide +kernel
  exact ⟨hcursor, (postgres_replay_without_silent_gap "app" [noteAt 0]
    [noteAt 700000, .prune 700000, noteAt 700000] hcursor (.inr (.inl (by decide +kernel)))).1⟩

/-- A subscriber of a new channel has no cursor. The first note is pruned before
it reads, and the read shows the second one as if nothing had been before it. -/
theorem postgres_silent_gap_on_new_channel :
    PostgresChannels.empty.replayCursor "app" "room" none = .ok none ∧
      ¬PostgresNoSilentGap Crates.literals "app" [noteAt 0, .prune 700000, noteAt 700000] "room"
        none := by
  refine ⟨by decide +kernel, ?_⟩
  intro h
  have hread := h 10
  revert hread
  decide +kernel

end Tako.Channel
