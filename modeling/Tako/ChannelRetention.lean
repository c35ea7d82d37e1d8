import Tako.StreamLog
import Tako.FallibleLoops
import Tako.ChannelSqlite

/-! What the statements of the channel store do to its messages: every transaction is a number of
retirements, with at most one message appended before them. -/
namespace Tako.Channel
open Relational Fallible
namespace ChannelDb
variable {db db' : ChannelDb} {channel : String}
theorem streamHead_congr
    (h : (db'.metadata.get? channel).map ChannelMetadata.latestMessageId =
      (db.metadata.get? channel).map ChannelMetadata.latestMessageId) :
    db'.streamHead channel = db.streamHead channel := by
  rw [streamHead, h, streamHead]

theorem streamHead_upsert {m : ChannelMetadata} {f : ChannelMetadata → ChannelMetadata}
    {hf : ∀ m, (f m).channel = m.channel} (h : db'.metadata = db.metadata.upsert m f hf)
    (hm : m.latestMessageId = 0) (hlatest : ∀ m, (f m).latestMessageId = m.latestMessageId)
    (channel : String) : db'.streamHead channel = db.streamHead channel := by
  rw [streamHead, h, Table.get?_upsert, streamHead]
  by_cases hk : m.channel = channel
  · rw [if_pos hk]
    cases db.metadata.get? channel with
    | none => simp [hm]
    | some => simp [hlatest]
  · rw [if_neg hk]

structure Retires (db db' : ChannelDb) : Prop where
  last : db'.messages.last = db.messages.last
  limits : db'.storeState.limits = db.storeState.limits
  rows : ∀ r ∈ db'.messages.rows, r ∈ db.messages.rows
  gone : ∀ r ∈ db.messages.rows, r ∈ db'.messages.rows ∨ r.id ≤ db'.replayFloor r.channel
  events : ∀ r ∈ db'.messages.rows, db'.events.get? r.id = db.events.get? r.id
  floor : ∀ channel, db.replayFloor channel ≤ db'.replayFloor channel
  head : ∀ channel, db.streamHead channel ≤ db'.streamHead channel
  head_le : ∀ channel, db'.streamHead channel ≤ max (db.streamHead channel) db.messages.last

namespace Retires
theorem of_eq (hmessages : db'.messages = db.messages) (hevents : db'.events = db.events)
    (hfloors : db'.floors = db.floors) (hlimits : db'.storeState.limits = db.storeState.limits)
    (hhead : ∀ channel, db'.streamHead channel = db.streamHead channel) : Retires db db' where
  last := by rw [hmessages]
  limits := hlimits
  rows r hr := by rwa [hmessages] at hr
  gone r hr := by
    rw [hmessages]
    exact .inl hr
  events r _ := by rw [hevents]
  floor channel := by rw [replayFloor, replayFloor, hfloors]
  head channel := (hhead channel).ge
  head_le channel := by
    rw [hhead channel]
    exact le_max_left _ _

theorem refl (db : ChannelDb) : Retires db db := of_eq rfl rfl rfl rfl fun _ => rfl

theorem trans {db₁ db₂ db₃ : ChannelDb} (h : Retires db₁ db₂) (h' : Retires db₂ db₃) :
    Retires db₁ db₃ where
  last := h'.last.trans h.last
  limits := h'.limits.trans h.limits
  rows r hr := h.rows r (h'.rows r hr)
  gone r hr := by
    obtain hr | hle := h.gone r hr
    · exact h'.gone r hr
    · exact .inr (hle.trans (h'.floor _))
  events r hr := (h'.events r hr).trans (h.events r (h'.rows r hr))
  floor channel := (h.floor channel).trans (h'.floor channel)
  head channel := (h.head channel).trans (h'.head channel)
  head_le channel := by
    have h₁ := h.head_le channel
    have h₂ := h'.head_le channel
    rw [h.last] at h₂
    omega
end Retires

section
variable (db : ChannelDb) (old : MessageRow) (channel : String)
theorem streamHead_messageDeleted :
    (db.messageDeleted old).streamHead channel = db.streamHead channel := by
  apply streamHead_congr
  apply Table.map_get?_updateWhere
  · exact fun _ => rfl
  · exact fun _ => rfl

theorem replayFloor_messageDeleted :
    (db.messageDeleted old).replayFloor channel = if old.channel = channel then
        ((db.floors.get? channel).map (fun f => max f.floor old.id)).getD old.id
      else db.replayFloor channel := by
  have h : (db.messageDeleted old).replayFloor channel =
      (((db.floors.upsert ⟨old.channel, old.id⟩ (fun f => { f with floor := max f.floor old.id })
        (fun _ => rfl)).get? channel).map ReplayFloor.floor).getD 0 := rfl
  rw [h, Table.get?_upsert]
  by_cases hc : old.channel = channel
  · rw [if_pos hc, if_pos hc]
    cases db.floors.get? channel <;> rfl
  · rw [if_neg hc, if_neg hc]
    rfl

theorem replayFloor_messageDeleted_cases :
    (db.messageDeleted old).replayFloor channel = db.replayFloor channel ∨
      (old.channel = channel ∧ (db.messageDeleted old).replayFloor channel = old.id) := by
  rw [replayFloor_messageDeleted]
  split
  · rename_i hchannel
    unfold replayFloor
    cases db.floors.get? channel with
    | none => exact .inr ⟨hchannel, rfl⟩
    | some f => exact (max_choice f.floor old.id).imp id fun hmax => ⟨hchannel, hmax⟩
  · exact .inl rfl

theorem streamLifecycle_messageDeleted :
    (db.messageDeleted old).streamLifecycle channel = db.streamLifecycle channel := by
  apply Table.map_get?_updateWhere
  · exact fun _ => rfl
  · exact fun _ => rfl

theorem le_replayFloor_messageDeleted (hold : 0 ≤ old.id) :
    db.replayFloor channel ≤ (db.messageDeleted old).replayFloor channel := by
  rw [replayFloor_messageDeleted]
  split
  · unfold replayFloor
    cases db.floors.get? channel with
    | none => exact hold
    | some => exact le_max_left _ _
  · exact le_refl _

theorem id_le_replayFloor_messageDeleted :
    old.id ≤ (db.messageDeleted old).replayFloor old.channel := by
  rw [replayFloor_messageDeleted, if_pos rfl]
  cases db.floors.get? old.channel with
  | none => exact le_refl _
  | some => exact le_max_right _ _

theorem events_messageDeleted {id : ℤ} (h : id ≠ old.id) :
    (db.messageDeleted old).events.get? id = db.events.get? id := by
  have he : (db.messageDeleted old).events.get? id =
      (db.events.deleteWhere (fun e => e.messageId = old.id)).get? id := rfl
  rw [he, Table.get?_deleteWhere_of_iff db.events _ (b := False), if_neg not_false]
  intro e hget
  rw [db.events.get?_key hget]
  simpa using h
end

structure Deleted (olds : List MessageRow) (db db' : ChannelDb) : Prop where
  messages : db'.messages = db.messages
  limits : db'.storeState.limits = db.storeState.limits
  head : ∀ channel, db'.streamHead channel = db.streamHead channel
  events : ∀ id, (∀ r ∈ olds, id ≠ r.id) → db'.events.get? id = db.events.get? id
  floor : ∀ channel, db.replayFloor channel ≤ db'.replayFloor channel
  covered : ∀ r ∈ olds, r.id ≤ db'.replayFloor r.channel
  raised : ∀ channel, db'.replayFloor channel = db.replayFloor channel ∨
    ∃ r ∈ olds, r.channel = channel ∧ db'.replayFloor channel = r.id
  lifecycle : ∀ channel, db'.streamLifecycle channel = db.streamLifecycle channel
  epoch : db'.replayEpoch = db.replayEpoch

theorem deleted_foldl (olds : List MessageRow) (hpos : ∀ r ∈ olds, 0 < r.id) (db : ChannelDb) :
    Deleted olds db (olds.foldl messageDeleted db) := by
  induction olds generalizing db with
  | nil =>
    exact ⟨rfl, rfl, fun _ => rfl, fun _ _ => rfl, fun _ => le_refl _, by simp, fun _ => .inl rfl,
      fun _ => rfl, rfl⟩
  | cons old _ ih =>
    have hold : 0 ≤ old.id := (hpos old List.mem_cons_self).le
    have hrest := ih (fun r hr => hpos r (List.mem_cons_of_mem _ hr)) (db.messageDeleted old)
    rw [List.foldl_cons]
    refine ⟨hrest.messages, hrest.limits, ?_, ?_, ?_, ?_, ?_, ?_, hrest.epoch⟩
    · intro channel
      rw [hrest.head channel, streamHead_messageDeleted]
    · intro id hid
      rw [hrest.events id (fun r hr => hid r (List.mem_cons_of_mem _ hr)),
        events_messageDeleted _ _ (hid old List.mem_cons_self)]
    · intro channel
      exact (le_replayFloor_messageDeleted db old channel hold).trans (hrest.floor channel)
    · intro r hr
      obtain rfl | hr := List.mem_cons.mp hr
      · -- later deletions of the same stream only raise its floor
        exact (id_le_replayFloor_messageDeleted db r).trans (hrest.floor r.channel)
      · exact hrest.covered r hr
    · intro channel
      obtain hsame | ⟨r, hr, hfloor⟩ := hrest.raised channel
      · rw [hsame]
        exact (replayFloor_messageDeleted_cases db old channel).imp_right
          fun hold => ⟨old, List.mem_cons_self, hold⟩
      · exact .inr ⟨r, List.mem_cons_of_mem _ hr, hfloor⟩
    · intro channel
      rw [hrest.lifecycle channel, streamLifecycle_messageDeleted]

section
variable (db) (p : MessageRow → Prop) [DecidablePred p]
theorem deleted_deleteMessages :
    Deleted (db.messages.select p) { db with messages := db.messages.deleteWhere p }
      (db.deleteMessages p) := by
  apply deleted_foldl
  intro r hr
  exact db.messages.id_pos r (db.messages.mem_select.mp hr).1

theorem rows_deleteMessages :
    (db.deleteMessages p).messages.rows = db.messages.rows.filter (fun r => ¬p r) :=
  congrArg AutoTable.rows (deleted_deleteMessages db p).messages

theorem retires_deleteMessages : Retires db (db.deleteMessages p) := by
  have h := deleted_deleteMessages db p
  have hrow {r : MessageRow} : r ∈ (db.deleteMessages p).messages.rows ↔
      r ∈ db.messages.rows ∧ ¬p r := by
    rw [h.messages]
    exact db.messages.mem_deleteWhere
  have hlast : (db.deleteMessages p).messages.last = db.messages.last := by
    rw [h.messages]
    rfl
  refine ⟨hlast, h.limits, ?_, ?_, ?_, h.floor, fun channel => (h.head channel).ge, ?_⟩
  · intro r hr
    exact (hrow.mp hr).1
  · intro r hr
    by_cases hp : p r
    · exact .inr (h.covered r (db.messages.mem_select.mpr ⟨hr, hp⟩))
    · exact .inl (hrow.mpr ⟨hr, hp⟩)
  · -- ids are unique, so no trigger took the event of a row that stays
    intro r hr
    apply h.events
    intro _ hr' hid
    have hmem := db.messages.mem_select.mp hr'
    rw [db.messages.id_injOn (hrow.mp hr).1 hmem.1 hid] at hr
    exact (hrow.mp hr).2 hmem.2
  · intro channel
    rw [h.head channel]
    exact le_max_left _ _
end

section
variable {P : ChannelDb → Prop}
  (hdelete : ∀ (db : ChannelDb) (p : MessageRow → Prop) [DecidablePred p],
    P db → P (db.deleteMessages p)) (h0 : P db)

include hdelete h0
theorem deleteOldest_induction {p : MessageRow → Prop} [DecidablePred p] {n : ℕ}
    (h : db.deleteOldest p n = some db') : P db' := by
  unfold deleteOldest at h
  simp only at h
  split at h
  · cases h
  · rw [← Option.some.inj h]
    exact hdelete db _ h0

variable (limits : SqliteReplayLimits)
theorem pruneAge_induction (now : UnixMs) : P (db.pruneAge limits now) := by
  unfold pruneAge
  simp only
  generalize db.metadata.rows.filter (fun m => 0 < m.messageCount) = lifecycles
  induction lifecycles generalizing db with
  | nil => exact h0
  | cons _ _ ih =>
    apply ih
    dsimp only
    split
    · exact h0
    · exact hdelete db _ h0
    · exact hdelete db _ h0

theorem streamBudgetLoop_induction (channel : String) (rounds : ℕ) :
    P (streamBudgetLoop limits channel rounds db) := by
  induction rounds generalizing db with
  | zero => exact h0
  | succ rounds ih =>
    unfold streamBudgetLoop
    split
    · exact h0
    · simp only
      split
      · exact h0
      · split
        · exact h0
        · rename_i holdest
          exact ih (deleteOldest_induction hdelete h0 holdest)

theorem storeBudgetLoop_induction (rounds : ℕ) : P (storeBudgetLoop limits rounds db) := by
  induction rounds generalizing db with
  | zero => exact h0
  | succ rounds ih =>
    unfold storeBudgetLoop
    simp only
    split
    · exact h0
    · split
      · exact h0
      · rename_i holdest
        exact ih (deleteOldest_induction hdelete h0 holdest)

theorem enforceStreamBudgets_induction (l : List ChannelMetadata) :
    P (l.foldl (fun db m => db.enforceStreamBudget limits m.channel) db) := by
  induction l generalizing db with
  | nil => exact h0
  | cons m l ih => exact ih (streamBudgetLoop_induction hdelete h0 limits m.channel _)

/-- A pruning keeps what every deletion keeps. -/
theorem pruneReplay_induction (now : UnixMs) : P (db.pruneReplay limits now) := by
  have hage := pruneAge_induction hdelete h0 limits now
  have hstreams := enforceStreamBudgets_induction hdelete hage limits
    ((db.pruneAge limits now).metadata.rows.filter (fun m =>
      (limits.maxMessagesPerStream : ℤ) < m.messageCount ∨
        (limits.maxBytesPerStream : ℤ) < m.messageBytes))
  exact storeBudgetLoop_induction hdelete hstreams limits _
end

theorem retires_step (db₀ db : ChannelDb) (p : MessageRow → Prop) [DecidablePred p]
    (h : Retires db₀ db) : Retires db₀ (db.deleteMessages p) :=
  h.trans (retires_deleteMessages db p)

section
variable (db)
theorem retires_enforceBudgets (limits : SqliteReplayLimits) (channel : String) :
    Retires db ((db.enforceStreamBudget limits channel).enforceStoreBudget limits) := by
  apply storeBudgetLoop_induction (P := Retires db) (retires_step db)
  exact streamBudgetLoop_induction (retires_step db) (Retires.refl db) limits channel _

theorem retires_pruneReplay (limits : SqliteReplayLimits) (now : UnixMs) :
    Retires db (db.pruneReplay limits now) :=
  pruneReplay_induction (retires_step db) (Retires.refl db) limits now

theorem retires_syncChannel (now : UnixMs) (channel : String) (auth : ChannelAuthResponse) :
    Retires db (SqliteChannelStore.syncChannel db now channel auth) :=
  Retires.of_eq rfl rfl rfl rfl (streamHead_upsert rfl rfl fun _ => rfl)

theorem retires_rotateReplayEpoch (epoch : Bytes16) : Retires db (db.rotateReplayEpoch epoch) :=
  Retires.of_eq rfl rfl rfl rfl fun _ => rfl

theorem retires_raiseLatest : Retires db db.raiseLatest := by
  have hhead (channel : String) : db.raiseLatest.streamHead channel =
      ((db.metadata.get? channel).map fun m =>
        max m.latestMessageId (db.messages.maxId (fun r => r.channel = m.channel))).getD 0 := by
    unfold streamHead raiseLatest
    rw [Table.get?_updateWhere]
    cases db.metadata.get? channel <;> simp
  have hle (channel : String) : db.streamHead channel ≤ db.raiseLatest.streamHead channel ∧
      db.raiseLatest.streamHead channel ≤ max (db.streamHead channel) db.messages.last := by
    rw [hhead, streamHead]
    cases db.metadata.get? channel with
    | none => exact ⟨le_refl _, le_max_left _ _⟩
    | some m =>
      have hmax := db.messages.maxId_le (fun r => r.channel = m.channel)
      exact ⟨le_max_left _ _, max_le_max (le_refl _) hmax⟩
  refine ⟨rfl, rfl, fun r hr => hr, fun r hr => .inl hr, fun _ _ => rfl, fun _ => le_refl _, ?_, ?_⟩
  · intro channel
    exact (hle channel).1
  · intro channel
    exact (hle channel).2

theorem retires_ensureBudgetCounters : Retires db db.ensureBudgetCounters := by
  refine Retires.of_eq rfl rfl rfl rfl ?_
  intro _
  apply streamHead_congr
  apply Table.map_get?_updateWhere
  · exact fun _ => rfl
  · exact fun _ => rfl
end

structure Appends (db db' : ChannelDb) (row : MessageRow) (eventId : ChannelEventId) : Prop where
  id : row.id = db.messages.last + 1
  rows : db'.messages.rows = db.messages.rows ++ [row]
  last : db'.messages.last = db.messages.last + 1
  limits : db'.storeState.limits = db.storeState.limits
  events : ∀ id, db'.events.get? id =
    if id = row.id then some ⟨row.id, eventId⟩ else db.events.get? id
  floor : ∀ channel, db'.replayFloor channel = db.replayFloor channel
  head : ∀ channel, db'.streamHead channel =
    if channel = row.channel then row.id else db.streamHead channel

variable {now : UnixMs} {id : ℤ} {eventId : ChannelEventId} {type dataJson : String}
theorem insertMessage_eq_ok (h : db.insertMessage channel type dataJson now = .ok (id, db')) :
    ∃ messages : AutoTable MessageRow.id,
      messages.rows = db.messages.rows ++ [⟨id, channel, type, dataJson, now.ms⟩] ∧
      messages.last = id ∧ id = db.messages.last + 1 ∧
      db' = { db with messages := messages }.messageCounted
        ⟨id, channel, type, dataJson, now.ms⟩ := by
  unfold insertMessage at h
  simp only at h
  split at h
  · cases h
  · rename_i messages hinsert
    obtain ⟨hrows, hlast⟩ := AutoTable.insert_eq_some hinsert
    obtain ⟨rfl, rfl⟩ := ok_pair_inj h
    refine ⟨messages, ?_, rfl, hlast, rfl⟩
    rw [hrows, hlast]

theorem insertEvent_eq_ok (h : db.insertEvent id eventId = .ok db') : db.events.get? id = none ∧
      db' = { db with events := db.events.insertIgnore ⟨id, eventId⟩ } := by
  unfold insertEvent at h
  split at h
  · rename_i hnone
    exact ⟨hnone, (Except.ok.inj h).symm⟩
  · cases h

theorem streamHead_setLatest (db : ChannelDb) {m : ChannelMetadata}
    (h : db.metadata.get? channel = some m) (id : ℤ) (channel' : String) :
    (db.setLatest channel id).streamHead channel' =
      if channel' = channel then id else db.streamHead channel' := by
  unfold streamHead setLatest
  rw [Table.get?_updateWhere_key]
  by_cases hc : channel' = channel <;> simp [hc, h]

theorem streamHead_touchChannel (db : ChannelDb) (channel : String) (now : UnixMs)
    (channel' : String) :
    (db.touchChannel channel now).streamHead channel' = db.streamHead channel' := by
  have hmetadata : (db.touchChannel channel now).metadata = db.metadata.upsert _ _ _ := rfl
  exact streamHead_upsert hmetadata rfl (fun _ => rfl) channel'

theorem appends_of_ok {db₂ db₃ : ChannelDb}
    (hmessage :
      (db.touchChannel channel now).insertMessage channel type dataJson now = .ok (id, db₂))
    (hevent : db₂.insertEvent id eventId = .ok db₃) :
    Appends db (db₃.setLatest channel id) ⟨id, channel, type, dataJson, now.ms⟩ eventId := by
  obtain ⟨messages, hrows, hlast, hid, rfl⟩ := insertMessage_eq_ok hmessage
  obtain ⟨hnone, rfl⟩ := insertEvent_eq_ok hevent
  set row : MessageRow := ⟨id, channel, type, dataJson, now.ms⟩ with hrow
  set db₁ := db.touchChannel channel now with hdb₁
  set db₂ := { db₁ with messages := messages }.messageCounted row with hdb₂
  -- the row of the channel is there since the upsert, so the last statement finds it
  have htouched : ∃ m, db₂.metadata.get? channel = some m := by
    have hupsert : ∃ m, db₁.metadata.get? channel = some m := by
      rw [hdb₁, touchChannel, Table.get?_upsert, if_pos rfl]
      exact ⟨_, rfl⟩
    obtain ⟨m, hm⟩ := hupsert
    rw [hdb₂, messageCounted, Table.get?_updateWhere, hm]
    exact ⟨_, rfl⟩
  have hhead (channel' : String) : db₂.streamHead channel' = db.streamHead channel' := by
    have hcounted : db₂.streamHead channel' = db₁.streamHead channel' := by
      apply streamHead_congr
      apply Table.map_get?_updateWhere
      · exact fun _ => rfl
      · exact fun _ => rfl
    rw [hcounted, hdb₁, streamHead_touchChannel]
  obtain ⟨m, hm⟩ := htouched
  refine ⟨hid, hrows, ?_, rfl, ?_, fun _ => rfl, ?_⟩
  · exact hlast.trans hid
  · intro i
    show (db₂.events.insertIgnore ⟨id, eventId⟩).get? i = _
    rw [Table.get?_insertIgnore]
    by_cases hi : i = id
    · rw [hi, hnone]
      simp [hrow]
    · have hi' : ¬id = i := fun h => hi h.symm
      rw [if_neg hi', if_neg hi, Option.or_none]
      rfl
  · intro channel'
    rw [streamHead_setLatest { db₂ with events := db₂.events.insertIgnore ⟨id, eventId⟩ } hm]
    by_cases hc : channel' = channel
    · rw [if_pos hc, if_pos hc]
    · rw [if_neg hc, if_neg hc]
      exact hhead channel'

theorem appendEvent_eq_ok {E : Crates} {epoch : Bytes16} {event : ChannelEvent E}
    {message : ChannelMessage E} (h : db.appendEvent E epoch event now = .ok (message, db')) :
    (event.ephemeral = true ∧ db' = db ∧ message.id = "") ∨ (event.ephemeral = false ∧ message.id =
          (ReplayCursor.sqlite E epoch event.channel (db.messages.last + 1)).display ∧
        ∃ db₁, Retires db₁ db' ∧ Appends db db₁
          ⟨db.messages.last + 1, event.channel, event.payload.type,
            E.json.toStr event.payload.data, now.ms⟩ event.id) := by
  unfold appendEvent at h
  simp only at h
  split at h
  · rename_i heph
    obtain ⟨rfl, rfl⟩ := ok_pair_inj h
    exact .inl ⟨heph, rfl, rfl⟩
  · rename_i heph
    obtain ⟨limits, _, h⟩ := bind_eq_ok h
    split at h
    · cases h
    · obtain ⟨⟨id, _⟩, hmessage, h⟩ := bind_eq_ok h
      obtain ⟨db₃, hevent, h⟩ := bind_eq_ok h
      obtain ⟨rfl, rfl⟩ := ok_pair_inj h
      have happ := appends_of_ok hmessage hevent
      have hid : id = db.messages.last + 1 := happ.id
      refine .inr ⟨by simpa using heph, by rw [hid], db₃.setLatest event.channel id, ?_, ?_⟩
      · exact retires_enforceBudgets _ limits event.channel
      · rw [← hid]
        exact happ
end ChannelDb
end Tako.Channel
