import Tako.RelationalTally
import Tako.ChannelRetention

/-! The counters that the triggers keep, against the rows that are there. -/
namespace Tako.Channel
open Relational List Option
def ChannelMetadata.usage (m : ChannelMetadata) : ℤ × ℤ := (m.messageCount, m.messageBytes)

def StoreState.usage (state : StoreState) : ℤ × ℤ := (state.messageCount, state.messageBytes)

theorem MessageRow.bytes_nonneg (r : MessageRow) : 0 ≤ r.bytes := by
  unfold bytes
  omega

namespace ChannelDb
def stream (db : ChannelDb) (channel : String) : List MessageRow :=
  db.messages.select (fun r => r.channel = channel)

structure Counted (db : ChannelDb) : Prop where
  store : db.storeState.usage = tally MessageRow.bytes db.messages.rows
  stream : ∀ channel m, db.metadata.get? channel = some m →
    m.usage = tally MessageRow.bytes (db.stream channel)
  listed : ∀ r ∈ db.messages.rows, ∃ m, db.metadata.get? r.channel = some m

theorem usage_foldl_messageDeleted (olds : List MessageRow) (db : ChannelDb) :
    (olds.foldl messageDeleted db).storeState.usage =
      db.storeState.usage - tally MessageRow.bytes olds := by
  induction olds generalizing db with
  | nil => rw [foldl_nil, tally_nil, sub_zero]
  | cons old olds ih =>
    have hold : (db.messageDeleted old).storeState.usage =
        db.storeState.usage - tally MessageRow.bytes [old] := by
      rfl
    rw [foldl_cons, ih, hold, tally_cons _ old olds, sub_sub]

theorem metadata_messageDeleted (db : ChannelDb) (old : MessageRow) (channel : String) :
    ((db.messageDeleted old).metadata.get? channel).map ChannelMetadata.usage =
      (db.metadata.get? channel).map (fun m =>
        m.usage - tally MessageRow.bytes ([old].filter (fun r => r.channel = channel))) := by
  unfold messageDeleted messageUncounted
  rw [Table.get?_updateWhere_key]
  by_cases hc : channel = old.channel
  · have hfilter : [old].filter (fun r => r.channel = channel) = [old] := by simp [hc]
    rw [if_pos hc, hfilter, tally_singleton, Option.map_map]
    rfl
  · have hfilter : [old].filter (fun r => r.channel = channel) = [] := by simp [Ne.symm hc]
    simp only [if_neg hc, hfilter, tally_nil, sub_zero]
    rfl

theorem metadata_foldl_messageDeleted (olds : List MessageRow) (db : ChannelDb) (channel : String) :
    ((olds.foldl messageDeleted db).metadata.get? channel).map ChannelMetadata.usage =
      (db.metadata.get? channel).map (fun m =>
        m.usage - tally MessageRow.bytes (olds.filter (fun r => r.channel = channel))) := by
  induction olds generalizing db with
  | nil => simp
  | cons old olds ih =>
    have hold := metadata_messageDeleted db old channel
    have hsplit : (old :: olds).filter (fun r => r.channel = channel) =
        [old].filter (fun r => r.channel = channel) ++
          olds.filter (fun r => r.channel = channel) := by
      rw [← filter_append, singleton_append]
    rw [foldl_cons, ih, hsplit, tally_append]
    cases hget : db.metadata.get? channel with
    | none =>
      rw [hget] at hold
      rw [map_eq_none_iff.mp hold]
      rfl
    | some =>
      rw [hget] at hold
      obtain ⟨_, hget', husage⟩ := map_eq_some_iff.mp hold
      rw [hget', map_some, map_some, husage, sub_sub]

namespace Counted
variable {db db' : ChannelDb}
section
variable (h : Counted db)
include h
theorem of_eq (hmessages : db'.messages = db.messages)
    (hstore : db'.storeState.usage = db.storeState.usage)
    (hmetadata : ∀ channel, (db'.metadata.get? channel).map ChannelMetadata.usage =
      (db.metadata.get? channel).map ChannelMetadata.usage) : Counted db' where
  store := by
    rw [hstore, hmessages]
    exact h.store
  stream channel m hget := by
    have hmap := hmetadata channel
    rw [hget] at hmap
    obtain ⟨m', hget', husage⟩ := map_eq_some_iff.mp hmap.symm
    rw [← husage, ChannelDb.stream, hmessages]
    exact h.stream channel m' hget'
  listed r hr := by
    rw [hmessages] at hr
    obtain ⟨m, hget⟩ := h.listed r hr
    have hmap := hmetadata r.channel
    rw [hget] at hmap
    obtain ⟨m', hget', _⟩ := map_eq_some_iff.mp hmap
    exact ⟨m', hget'⟩

theorem stream_eq_nil {channel : String} (hnone : db.metadata.get? channel = none) :
    db.stream channel = [] := by
  apply eq_nil_iff_forall_not_mem.mpr
  intro r hr
  obtain ⟨hrow, hchannel⟩ := db.messages.mem_select.mp hr
  obtain ⟨m, hget⟩ := h.listed r hrow
  rw [hchannel, hnone] at hget
  cases hget

theorem upsert {m : ChannelMetadata} {f : ChannelMetadata → ChannelMetadata}
    {hf : ∀ m, (f m).channel = m.channel} (hmessages : db'.messages = db.messages)
    (hstore : db'.storeState = db.storeState) (hmetadata : db'.metadata = db.metadata.upsert m f hf)
    (hm : m.usage = 0) (hkeep : ∀ m, (f m).usage = m.usage) : Counted db' where
  store := by
    rw [hstore, hmessages]
    exact h.store
  stream channel m' hget := by
    rw [hmetadata, Table.get?_upsert] at hget
    have hstream : db'.stream channel = db.stream channel := by
      rw [ChannelDb.stream, ChannelDb.stream, hmessages]
    rw [hstream]
    split at hget
    · have hm' := Option.some.inj hget
      cases hold : db.metadata.get? channel with
      | none =>
        rw [hold, map_none, getD_none] at hm'
        rw [← hm', hm, h.stream_eq_nil hold, tally_nil]
      | some old =>
        rw [hold, map_some, getD_some] at hm'
        rw [← hm', hkeep]
        exact h.stream channel old hold
    · exact h.stream channel m' hget
  listed r hr := by
    rw [hmessages] at hr
    obtain ⟨old, hget⟩ := h.listed r hr
    rw [hmetadata, Table.get?_upsert]
    split
    · exact ⟨_, rfl⟩
    · exact ⟨old, hget⟩

theorem deleteMessages (p : MessageRow → Prop) [DecidablePred p] :
    Counted (db.deleteMessages p) := by
  have hrows := rows_deleteMessages db p
  have hmetadata (channel : String) :=
    metadata_foldl_messageDeleted (db.messages.select p)
      { db with messages := db.messages.deleteWhere p } channel
  refine ⟨?_, ?_, ?_⟩
  · have hsplit := tally_filter_add MessageRow.bytes p db.messages.rows
    have husage : (db.deleteMessages p).storeState.usage =
        db.storeState.usage - tally MessageRow.bytes (db.messages.select p) :=
      usage_foldl_messageDeleted _ _
    rw [husage, h.store, hrows, ← hsplit]
    exact add_sub_cancel_left _ _
  · intro channel m' hget'
    have hmap := hmetadata channel
    rw [ChannelDb.deleteMessages] at hget'
    rw [hget'] at hmap
    obtain ⟨m, hget, husage⟩ := map_eq_some_iff.mp hmap.symm
    -- the rows of the stream that go and those that stay
    have hsplit := tally_filter_add MessageRow.bytes p (db.stream channel)
    have hgone : (db.messages.select p).filter (fun r => r.channel = channel) =
        (db.stream channel).filter (fun r => p r) := filter_comm _ _ _
    have hstay : (db.deleteMessages p).stream channel =
        (db.stream channel).filter (fun r => ¬p r) := by
      rw [ChannelDb.stream, AutoTable.select, hrows]
      exact filter_comm _ _ _
    rw [← husage, hgone, hstay, h.stream channel m hget, ← hsplit]
    exact add_sub_cancel_left _ _
  · intro r hr
    rw [hrows] at hr
    obtain ⟨m, hget⟩ := h.listed r (mem_of_mem_filter hr)
    have hmap := hmetadata r.channel
    have hget' : ({ db with messages := db.messages.deleteWhere p } : ChannelDb).metadata.get?
        r.channel = some m := hget
    rw [hget'] at hmap
    obtain ⟨m', hm', _⟩ := map_eq_some_iff.mp hmap
    exact ⟨m', hm'⟩

theorem touchChannel (channel : String) (now : UnixMs) : Counted (db.touchChannel channel now) := by
  have hmetadata : (db.touchChannel channel now).metadata = db.metadata.upsert _ _ _ := rfl
  exact h.upsert rfl rfl hmetadata rfl fun _ => rfl

theorem syncChannel (now : UnixMs) (channel : String) (auth : ChannelAuthResponse) :
    Counted (SqliteChannelStore.syncChannel db now channel auth) := by
  have hmetadata : (SqliteChannelStore.syncChannel db now channel auth).metadata =
      db.metadata.upsert _ _ _ := rfl
  exact h.upsert rfl rfl hmetadata rfl fun _ => rfl

theorem messageCounted {row : MessageRow} {m : ChannelMetadata}
    (hchannel : db.metadata.get? row.channel = some m) {messages : AutoTable MessageRow.id}
    (hrows : messages.rows = db.messages.rows ++ [row]) :
    Counted ({ db with messages := messages }.messageCounted row) := by
  set db' := { db with messages := messages }.messageCounted row with hdb'
  have hget (channel : String) : db'.metadata.get? channel =
      (db.metadata.get? channel).map (fun m => if m.channel = row.channel then
        { m with
          messageCount := m.messageCount + 1
          messageBytes := m.messageBytes + row.bytes } else m) := by
    rw [hdb', ChannelDb.messageCounted, Table.get?_updateWhere]
  have hstream (channel : String) : db'.stream channel =
      db.stream channel ++ [row].filter (fun r => r.channel = channel) := by
    have hselect : db'.stream channel = messages.rows.filter (fun r => r.channel = channel) := rfl
    rw [hselect, hrows, filter_append]
    rfl
  refine ⟨?_, ?_, ?_⟩
  · have husage : db'.storeState.usage =
        db.storeState.usage + tally MessageRow.bytes [row] := by
      rfl
    have hall : db'.messages.rows = db.messages.rows ++ [row] := hrows
    rw [husage, hall, tally_append, h.store]
  · intro channel _ hm'
    rw [hget] at hm'
    obtain ⟨old, hold, hnew⟩ := map_eq_some_iff.mp hm'
    have hkey : old.channel = channel := db.metadata.get?_key hold
    rw [← hnew, hstream, tally_append, ← h.stream channel old hold]
    by_cases hc : row.channel = channel
    · have heq : old.channel = row.channel := hkey.trans hc.symm
      have hfilter : [row].filter (fun r => r.channel = channel) = [row] := by simp [hc]
      rw [if_pos heq, hfilter, tally_singleton]
      rfl
    · have hne : ¬old.channel = row.channel := fun heq => hc (heq.symm.trans hkey)
      have hfilter : [row].filter (fun r => r.channel = channel) = [] := by simp [hc]
      rw [if_neg hne, hfilter, tally_nil, add_zero]
  · intro r hr
    have hmem : r ∈ db.messages.rows ++ [row] := by
      rw [← hrows]
      exact hr
    rw [hget]
    obtain hmem | hmem := mem_append.mp hmem
    · obtain ⟨_, hold⟩ := h.listed r hmem
      rw [hold]
      exact ⟨_, rfl⟩
    · rw [mem_singleton.mp hmem, hchannel]
      exact ⟨_, rfl⟩

theorem setLatest (channel : String) (id : ℤ) : Counted (db.setLatest channel id) := by
  refine of_eq h rfl rfl ?_
  intro _
  apply Table.map_get?_updateWhere
  · exact fun _ => rfl
  · exact fun _ => rfl

theorem raiseLatest : Counted db.raiseLatest := by
  refine of_eq h rfl rfl ?_
  intro _
  apply Table.map_get?_updateWhere
  · exact fun _ => rfl
  · exact fun _ => rfl

theorem ensureBudgetCounters : Counted db.ensureBudgetCounters := by
  have hget (channel : String) : db.ensureBudgetCounters.metadata.get? channel =
      (db.metadata.get? channel).map (fun m =>
        { m with
          messageCount := (db.stream m.channel).length
          messageBytes := ((db.stream m.channel).map MessageRow.bytes).sum }) := by
    unfold ChannelDb.ensureBudgetCounters
    rw [Table.get?_updateWhere]
    rfl
  refine ⟨rfl, ?_, ?_⟩
  · intro _ _ hm'
    rw [hget] at hm'
    obtain ⟨m, hm, hnew⟩ := map_eq_some_iff.mp hm'
    rw [← hnew, ← db.metadata.get?_key hm]
    rfl
  · intro r hr
    obtain ⟨m, hm⟩ := h.listed r hr
    rw [hget, hm]
    exact ⟨_, rfl⟩
end

theorem created (epoch : Bytes16) : Counted (ChannelDb.created epoch) where
  store := rfl
  stream channel m hget := by cases hget
  listed r hr := by cases hr
end Counted

theorem counted_of_ok {db db₂ db₃ : ChannelDb} (h : Counted db) {channel type dataJson : String}
    {now : UnixMs} {id : ℤ} {eventId : ChannelEventId}
    (hmessage : (db.touchChannel channel now).insertMessage channel type dataJson now =
      .ok (id, db₂))
    (hevent : db₂.insertEvent id eventId = .ok db₃) : Counted (db₃.setLatest channel id) := by
  have hupsert : ∃ m, (db.touchChannel channel now).metadata.get? channel = some m := by
    rw [ChannelDb.touchChannel, Table.get?_upsert, if_pos rfl]
    exact ⟨_, rfl⟩
  obtain ⟨m, hm⟩ := hupsert
  have hcounted : Counted db₂ := by
    obtain ⟨_, hrows, _, _, rfl⟩ := insertMessage_eq_ok hmessage
    exact (h.touchChannel channel now).messageCounted hm hrows
  have hinserted : Counted db₃ := by
    obtain ⟨_, rfl⟩ := insertEvent_eq_ok hevent
    exact hcounted.of_eq rfl rfl fun _ => rfl
  exact hinserted.setLatest channel id
end ChannelDb
end Tako.Channel
