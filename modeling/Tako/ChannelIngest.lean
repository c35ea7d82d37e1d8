import Tako.OriginSequences
import Tako.ChannelReplay

/-! Events from peers. A store takes an event only above the last one of its origin, and draws a
new replay epoch at a gap. -/
namespace Tako.Channel
open Relational Fallible List
open Tako.Workflow (i64Max JsonLiteral)
variable {E : Crates} {s s' : SqliteChannelStore} {db db' : ChannelDb} {event : ChannelEvent E}
  {message : ChannelMessage E} {result : ChannelResult E} {now : UnixMs} {epoch own : Bytes16}
  {limits : Option SqliteReplayLimits} {c : ReplayCursor}
structure Identity where
  remoteOrigins : Table RemoteOrigin.origin
  eventSequence : ℤ
  replayEpoch : Bytes16
  epoch : Bytes16

namespace ChannelDb
section
variable (db)
def identity : Identity :=
  ⟨db.remoteOrigins, db.eventSequence, db.replayEpoch, db.storeState.epoch⟩

theorem identity_foldl_messageDeleted (olds : List MessageRow) (db : ChannelDb) :
    (olds.foldl messageDeleted db).identity = db.identity := by
  induction olds generalizing db with
  | nil => rfl
  | cons old _ ih => exact ih (db.messageDeleted old)

theorem identity_step (i : Identity) (db : ChannelDb) (p : MessageRow → Prop) [DecidablePred p]
    (h : db.identity = i) : (db.deleteMessages p).identity = i := by
  rw [deleteMessages, identity_foldl_messageDeleted]
  exact h

theorem identity_pruneReplay (limits : SqliteReplayLimits) (now : UnixMs) :
    (db.pruneReplay limits now).identity = db.identity :=
  pruneReplay_induction (identity_step db.identity) rfl limits now

theorem identity_enforceBudgets (limits : SqliteReplayLimits) (channel : String) :
    ((db.enforceStreamBudget limits channel).enforceStoreBudget limits).identity = db.identity := by
  apply storeBudgetLoop_induction (identity_step db.identity)
  exact streamBudgetLoop_induction (identity_step db.identity) rfl limits channel _

end

theorem identity_appendEvent
    (h : db.appendEvent E epoch event now = .ok (message, db')) : db'.identity = db.identity := by
  unfold appendEvent at h
  simp only at h
  split at h
  · obtain ⟨_, rfl⟩ := ok_pair_inj h
    rfl
  · obtain ⟨_, _, h⟩ := bind_eq_ok h
    split at h
    · cases h
    · obtain ⟨⟨_, _⟩, hmessage, h⟩ := bind_eq_ok h
      obtain ⟨_, hevent, h⟩ := bind_eq_ok h
      obtain ⟨_, rfl⟩ := ok_pair_inj h
      obtain ⟨_, _, _, _, rfl⟩ := insertMessage_eq_ok hmessage
      obtain ⟨_, rfl⟩ := insertEvent_eq_ok hevent
      rw [identity_enforceBudgets]
      rfl

theorem identity_initConnection {file : Option ChannelDb}
    (h : initConnection file limits now epoch = .ok db) :
    db.identity = (file.getD (created epoch)).identity := by
  obtain ⟨_, _, h⟩ := bind_eq_ok h
  rw [← Except.ok.inj h, identity_pruneReplay]
  cases limits with
  | none | some => rfl

theorem identity_revealGap (db : ChannelDb) (id : ChannelEventId) (epoch : Bytes16) :
    (db.revealGap id epoch).identity =
      { db.identity with
        replayEpoch := if db.recordedSequence id.origin + 1 < id.sequence then epoch
          else db.replayEpoch } := by
  unfold revealGap
  split <;> rfl
end ChannelDb

variable (call : ChannelCall E)
def ChannelCall.applies (result : ChannelResult E) : List (ChannelEvent E) :=
  match call, result with
  | .ingestRemote _ event _, .ok (.ingested (some _)) => [event]
  | _, _ => []

def ChannelCall.publishes (result : ChannelResult E) : List (ChannelEvent E) :=
  match call, result with
  | .publish _ _ _ _, .ok (.published _ event) => [event]
  | _, _ => []

def ChannelEvent.origin (event : ChannelEvent E) : String := event.id.origin

def ChannelEvent.sequence (event : ChannelEvent E) : ℕ := event.id.sequence

namespace SqliteChannelStore
def applied (E : Crates) (s : SqliteChannelStore) (calls : List (ChannelCall E)) :
    List (ChannelEvent E) :=
  (Execution.trace (exec E) s calls).flatMap (fun step => step.1.applies step.2)

def published (E : Crates) (s : SqliteChannelStore) (calls : List (ChannelCall E)) :
    List (ChannelEvent E) :=
  (Execution.trace (exec E) s calls).flatMap (fun step => step.1.publishes step.2)

def draws (s : SqliteChannelStore) (call : ChannelCall E) : List Bytes16 :=
  match call with
  | .ingestRemote _ event epoch =>
    if event.sequence ≤ i64Max ∧ validOrigin event.origin ∧ event.origin ≠ encode s.epoch ∧
        s.db.recordedSequence event.origin + 1 < event.sequence then [epoch]
    else []
  | .invalidateReplay epoch => [epoch]
  | _ => []

def drawn (E : Crates) : SqliteChannelStore → List (ChannelCall E) → List Bytes16
  | _, [] => []
  | s, call :: calls => s.draws call ++ drawn E (exec E call s).2 calls
end SqliteChannelStore

inductive Names (s : SqliteChannelStore) :
    ChannelCall E → ChannelResult E → SqliteChannelStore → Prop
  | keeps {call : ChannelCall E} {result : ChannelResult E} {s' : SqliteChannelStore}
      (applies : call.applies result = []) (publishes : call.publishes result = [])
      (identity : s'.db.identity = s.db.identity)
      (own : s'.epoch = s.epoch ∨ s'.epoch = s.db.storeState.epoch) : Names s call result s'
  | rotates (epoch : Bytes16) :
      Names s (.invalidateReplay epoch) (.ok .done) { s with db := s.db.rotateReplayEpoch epoch }
  | publishes {now : UnixMs} {channel : String} {payload : ChannelPublishPayload E}
      {ephemeral : Bool} {message : ChannelMessage E} {event : ChannelEvent E} {db : ChannelDb}
      (id : event.id = ⟨encode s.epoch, (s.db.eventSequence + 1).toNat⟩)
      (identity : db.identity = { s.db.identity with eventSequence := s.db.eventSequence + 1 }) :
      Names s (.publish now channel payload ephemeral) (.ok (.published message event))
        { s with db := db }
  | applies {now : UnixMs} {event : ChannelEvent E} {epoch : Bytes16} {message : ChannelMessage E}
      {db : ChannelDb}
      (draws : s.draws (E := E) (.ingestRemote now event epoch) =
        if s.db.recordedSequence event.origin + 1 < event.sequence then [epoch] else [])
      (foreign : event.origin ≠ encode s.epoch)
      (newer : s.db.recordedSequence event.origin < event.sequence)
      (recorded : ∀ origin, db.recordedSequence origin =
        if event.origin = origin then (event.sequence : ℤ) else s.db.recordedSequence origin)
      (sequence : db.eventSequence = s.db.eventSequence)
      (replayEpoch : db.replayEpoch =
        if s.db.recordedSequence event.origin + 1 < event.sequence then epoch
        else s.db.replayEpoch)
      (stored : db.storeState.epoch = s.db.storeState.epoch) :
      Names s (.ingestRemote now event epoch) (.ok (.ingested (some message))) { s with db := db }

theorem ChannelCall.applies_error (e : ChannelError) : call.applies (.error e) = [] := by
  cases call <;> rfl

theorem ChannelCall.publishes_error (e : ChannelError) : call.publishes (.error e) = [] := by
  cases call <;> rfl

variable {call : ChannelCall E}
namespace SqliteChannelStore
theorem Does.names (h : Does s call result s') : Names s call result s' := by
  cases h with
  | fails _ e => exact .keeps (call.applies_error e) (call.publishes_error e) rfl (.inl rfl)
  | publishes hevent happend =>
    exact .publishes (congrArg ChannelEvent.id hevent) (ChannelDb.identity_appendEvent happend)
  | ingests hingests =>
    obtain ⟨db₁, _, happend, rfl, hrecorded⟩ := hingests.appends
    have hdb : db₁.identity = _ :=
      (ChannelDb.identity_appendEvent happend).trans (ChannelDb.identity_revealGap _ _ _)
    refine .applies ?_ hingests.foreign hingests.newer ?_ (congrArg Identity.eventSequence hdb)
      (congrArg Identity.replayEpoch hdb) (congrArg Identity.epoch hdb)
    · apply if_congr _ rfl rfl
      exact ⟨fun h => h.2.2.2, fun h => ⟨hingests.valid.1, hingests.valid.2, hingests.foreign, h⟩⟩
    · intro origin
      have horigins : db₁.remoteOrigins = s.db.remoteOrigins := congrArg Identity.remoteOrigins hdb
      refine (hrecorded origin).trans ?_
      rw [ChannelDb.recordedSequence, horigins]
      rfl
  | ignores | reads | resumes | syncs => exact .keeps rfl rfl rfl (.inl rfl)
  | @prunes now limits =>
    exact .keeps rfl rfl (ChannelDb.identity_pruneReplay s.db limits now) (.inl rfl)
  | rotates epoch => exact .rotates epoch
  | reopens hopen =>
    obtain ⟨_, _, h⟩ := bind_eq_ok hopen
    obtain ⟨db, hinit, h⟩ := bind_eq_ok h
    cases h
    have hidentity : db.identity = s.db.identity := ChannelDb.identity_initConnection hinit
    exact .keeps rfl rfl hidentity (.inr (congrArg Identity.epoch hidentity))

theorem names_exec (call : ChannelCall E) (s : SqliteChannelStore) :
    Names s call (exec E call s).1 (exec E call s).2 :=
  (does_exec call s).names
end SqliteChannelStore

/-- The log of what was applied and published, against what the store recorded
of it. -/
structure Ledger (own : Bytes16) (s : SqliteChannelStore)
    (applied published : List (ChannelEvent E)) : Prop where
  epoch : s.epoch = own
  stored : s.db.storeState.epoch = own
  recorded : ∀ origin, s.db.recordedSequence origin =
    OriginSequence.last ChannelEvent.origin ChannelEvent.sequence applied origin
  increasing : OriginSequence.Increasing ChannelEvent.origin ChannelEvent.sequence applied
  foreign : ∀ e ∈ applied, e.origin ≠ encode own
  sequence : s.db.eventSequence = published.length
  numbered : published.map ChannelEvent.id =
    (List.range' 1 published.length).map (fun n => ⟨encode own, n⟩)

namespace Ledger
variable {applied published : List (ChannelEvent E)}
section
variable (h : Ledger own s applied published)
include h
theorem of_eq (hidentity : s'.db.identity = s.db.identity)
    (hown : s'.epoch = s.epoch ∨ s'.epoch = s.db.storeState.epoch) :
    Ledger own s' applied published where
  __ := h
  epoch := by
    obtain hown | hown := hown
    · exact hown.trans h.epoch
    · exact hown.trans h.stored
  stored := (congrArg Identity.epoch hidentity).trans h.stored
  recorded origin := by
    have horigins : s'.db.remoteOrigins = _ := congrArg Identity.remoteOrigins hidentity
    rw [ChannelDb.recordedSequence, horigins]
    exact h.recorded origin
  sequence := (congrArg Identity.eventSequence hidentity).trans h.sequence

theorem publish (hid : event.id = ⟨encode s.epoch, (s.db.eventSequence + 1).toNat⟩)
    (hdb : db.identity = { s.db.identity with eventSequence := s.db.eventSequence + 1 }) :
    Ledger own { s with db := db } applied (published ++ [event]) where
  __ := h
  stored := (congrArg Identity.epoch hdb).trans h.stored
  recorded origin := by
    have horigins : db.remoteOrigins = s.db.remoteOrigins := congrArg Identity.remoteOrigins hdb
    rw [ChannelDb.recordedSequence, horigins]
    exact h.recorded origin
  sequence := by
    have hsequence : db.eventSequence = s.db.eventSequence + 1 :=
      congrArg Identity.eventSequence hdb
    have hlength := h.sequence
    rw [length_append, length_singleton]
    show db.eventSequence = _
    omega
  numbered := by
    have hlength := h.sequence
    have hnext : (s.db.eventSequence + 1).toNat = 1 + published.length := by omega
    rw [map_append, h.numbered, length_append, length_singleton,
      range'_1_concat, map_append, map_singleton, map_singleton, hid, h.epoch,
      hnext]

theorem apply (hforeign : event.origin ≠ encode s.epoch)
    (hnewer : s.db.recordedSequence event.origin < event.sequence)
    (hrecorded : ∀ origin, db.recordedSequence origin =
      if event.origin = origin then (event.sequence : ℤ) else s.db.recordedSequence origin)
    (hsequence : db.eventSequence = s.db.eventSequence)
    (hstored : db.storeState.epoch = s.db.storeState.epoch) :
    Ledger own { s with db := db } (applied ++ [event]) published where
  __ := h
  stored := hstored.trans h.stored
  recorded origin := by
    rw [OriginSequence.last_concat]
    refine (hrecorded origin).trans ?_
    by_cases horigin : event.origin = origin
    · rw [if_pos horigin, if_pos horigin]
    · rw [if_neg horigin, if_neg horigin]
      exact h.recorded origin
  increasing := by
    apply h.increasing.concat
    have hlast := h.recorded event.origin
    omega
  foreign e he := by
    obtain he | he := mem_append.mp he
    · exact h.foreign e he
    · rw [mem_singleton.mp he, ← h.epoch]
      exact hforeign
  sequence := hsequence.trans h.sequence

theorem step (hstep : Names s call result s') :
    Ledger own s' (applied ++ call.applies result) (published ++ call.publishes result) := by
  cases hstep with
  | keeps happlies hpublishes hidentity hown =>
    rw [happlies, hpublishes, append_nil, append_nil]
    exact h.of_eq hidentity hown
  | rotates =>
    show Ledger own _ (applied ++ []) (published ++ [])
    rw [append_nil, append_nil]
    exact { h with }
  | @publishes _ _ _ _ _ event db hid hidentity =>
    show Ledger own _ (applied ++ []) (published ++ [event])
    rw [append_nil]
    exact h.publish hid hidentity
  | @applies _ event _ _ db _ hforeign hnewer hrecorded hsequence _ hstored =>
    show Ledger own _ (applied ++ [event]) (published ++ [])
    rw [append_nil]
    exact h.apply hforeign hnewer hrecorded hsequence hstored
end

theorem created (epoch : Bytes16) : Ledger (E := E) epoch ⟨.created epoch, epoch⟩ [] [] where
  epoch := rfl
  stored := rfl
  recorded _ := rfl
  increasing := List.Pairwise.nil
  foreign e he := by cases he
  sequence := rfl
  numbered := rfl
end Ledger

namespace SqliteChannelStore
/-- The ledger is kept over any calls. -/
theorem ledger_calls (calls : List (ChannelCall E))
    {applied₀ published₀ : List (ChannelEvent E)} (h : Ledger own s applied₀ published₀) :
    Ledger own (after E s calls) (applied₀ ++ applied E s calls)
      (published₀ ++ published E s calls) := by
  induction calls generalizing s applied₀ published₀ with
  | nil =>
    unfold applied published
    rw [Execution.trace, flatMap_nil, append_nil, flatMap_nil, append_nil]
    exact h
  | cons call _ ih =>
    have hrest := ih (h.step (names_exec call s))
    rw [append_assoc, append_assoc] at hrest
    exact hrest

theorem ledger_after (h : openFile none limits now epoch = .ok s) (calls : List (ChannelCall E)) :
    Ledger epoch (after E s calls) (applied E s calls) (published E s calls) := by
  obtain ⟨_, _, h⟩ := bind_eq_ok h
  obtain ⟨db, hinit, h⟩ := bind_eq_ok h
  cases h
  have hidentity : db.identity = (ChannelDb.created epoch).identity :=
    ChannelDb.identity_initConnection hinit
  have hopened : Ledger (E := E) epoch ⟨db, db.storeState.epoch⟩ [] [] :=
    (Ledger.created epoch).of_eq hidentity (.inr (congrArg Identity.epoch hidentity))
  exact ledger_calls calls hopened

theorem drawn_append (s : SqliteChannelStore) (calls calls' : List (ChannelCall E)) :
    drawn E s (calls ++ calls') = drawn E s calls ++ drawn E (after E s calls) calls' := by
  induction calls generalizing s with
  | nil => rfl
  | cons _ _ ih =>
    rw [cons_append, drawn, ih, drawn, append_assoc]
    rfl

theorem replayEpoch_exec (call : ChannelCall E) (s : SqliteChannelStore) :
    (exec E call s).2.db.replayEpoch ∈ s.db.replayEpoch :: s.draws call := by
  have hstep := names_exec call s
  generalize (exec E call s).1 = result at hstep
  generalize (exec E call s).2 = s' at hstep ⊢
  cases hstep with
  | keeps _ _ hidentity =>
    have hepoch : s'.db.replayEpoch = s.db.replayEpoch := congrArg Identity.replayEpoch hidentity
    rw [hepoch]
    exact mem_cons_self
  | rotates epoch => exact mem_cons_of_mem _ (mem_singleton_self epoch)
  | publishes _ hidentity =>
    refine mem_cons.mpr (.inl ?_)
    exact congrArg Identity.replayEpoch hidentity
  | applies hdraws _ _ _ _ hepoch _ =>
    rw [hdraws]
    show _ ∈ s.db.replayEpoch :: _
    split at hepoch
    · rename_i hgap
      rw [if_pos hgap]
      exact mem_cons_of_mem _ (mem_singleton.mpr hepoch)
    · exact mem_cons.mpr (.inl hepoch)

theorem replayEpoch_after (calls : List (ChannelCall E)) (s : SqliteChannelStore) :
    (after E s calls).db.replayEpoch ∈ s.db.replayEpoch :: drawn E s calls := by
  induction calls generalizing s with
  | nil => exact mem_cons_self
  | cons call calls ih =>
    have hfirst := replayEpoch_exec call s
    have hrest := ih (exec E call s).2
    obtain hrest | hrest := mem_cons.mp hrest
    · have hrest' : (after E s (call :: calls)).db.replayEpoch = (exec E call s).2.db.replayEpoch :=
        hrest
      rw [hrest']
      obtain hfirst | hfirst := mem_cons.mp hfirst
      · exact mem_cons.mpr (.inl hfirst)
      · exact mem_cons_of_mem _ (mem_append_left _ hfirst)
    · exact mem_cons_of_mem _ (mem_append_right _ hrest)

theorem exists_of_mem_mapM {α β ε : Type} {f : α → Except ε β} {l : List α} {m : List β}
    (h : l.mapM f = .ok m) {b : β} (hb : b ∈ m) : ∃ a ∈ l, f a = .ok b := by
  induction l generalizing m with
  | nil =>
    cases h
    cases hb
  | cons a l ih =>
    rw [mapM_cons] at h
    obtain ⟨_, hfirst, h⟩ := bind_eq_ok h
    obtain ⟨_, hrest, h⟩ := bind_eq_ok h
    cases h
    obtain rfl | hb := mem_cons.mp hb
    · exact ⟨a, mem_cons_self, hfirst⟩
    · obtain ⟨a', ha', hf⟩ := ih hrest hb
      exact ⟨a', mem_cons_of_mem _ ha', hf⟩

theorem scope_appended
    (h : db.appendEvent E epoch event now = .ok (message, db'))
    (hid : ReplayCursor.fromStr message.id = .ok c) :
    c.scope = (ReplayCursor.sqlite E epoch event.channel 0).scope := by
  obtain ⟨_, _, hempty⟩ | ⟨_, hdisplay, _, _, happ⟩ := ChannelDb.appendEvent_eq_ok h
  · rw [hempty] at hid
    cases hid
  · rw [hdisplay, fromStr_appended happ epoch event.channel] at hid
    rw [← Except.ok.inj hid]
    rfl

variable {channel : String}
theorem scope_readAfter {after : Option ReplayCursor} {limit : UInt32}
    {page : List (ChannelMessage E)} (h : s.readAfter E now channel after limit = .ok page)
    (hmem : message ∈ page) (hid : ReplayCursor.fromStr message.id = .ok c) :
    c.scope = (ReplayCursor.sqlite E s.db.replayEpoch channel 0).scope := by
  obtain ⟨_, _, h⟩ := bind_eq_ok h
  obtain ⟨_, _, h⟩ := bind_eq_ok h
  obtain ⟨row, hrow, hmessage⟩ := exists_of_mem_mapM h hmem
  have hstored : row ∈ s.db.messages.rows := (s.db.messages.mem_select.mp (mem_of_mem_take hrow)).1
  have hpos := s.db.messages.id_pos row hstored
  have hlast := s.db.messages.le_last row hstored
  have hmax := s.db.messages.last_le
  unfold messageFromRow at hmessage
  split at hmessage
  · cases hmessage
  · rw [← Except.ok.inj hmessage] at hid
    rw [ReplayCursor.fromStr_sqlite _ _ (by omega) (by omega)] at hid
    rw [← Except.ok.inj hid]
    rfl

theorem scope_replayCursor {requested : Option ReplayCursor}
    (h : s.replayCursor E now channel requested = .ok (some c)) :
    c.scope = (ReplayCursor.sqlite E s.db.replayEpoch channel 0).scope := by
  obtain ⟨_, _, h⟩ := bind_eq_ok h
  obtain ⟨_, hcheck, h⟩ := bind_eq_ok h
  obtain rfl := Option.some.inj (Except.ok.inj h)
  cases requested with
  | none => rfl
  | some c =>
    obtain ⟨_, hvalid, _⟩ := bind_eq_ok hcheck
    unfold ChannelDb.validateCursor at hvalid
    split at hvalid
    · cases hvalid
    · rename_i hscope
      exact not_not.mp hscope

theorem Does.scope (hdoes : Does s call result s') (h : Issues call result channel c) :
    ∃ stream, c.scope = (ReplayCursor.sqlite E s'.db.replayEpoch stream 0).scope := by
  cases h with
  | message hmem hid =>
    cases hdoes with
    | @publishes _ _ _ _ _ event db _ happend =>
      have hepoch : db.replayEpoch = s.db.replayEpoch :=
        congrArg Identity.replayEpoch (ChannelDb.identity_appendEvent happend)
      rw [mem_singleton.mp hmem] at hid
      refine ⟨event.channel, ?_⟩
      rw [hepoch]
      exact scope_appended happend hid
    | @ingests _ event epoch _ _ hingests =>
      obtain ⟨db₁, _, happend, rfl, _⟩ := hingests.appends
      have hepoch : db₁.replayEpoch = (s.db.revealGap event.id epoch).replayEpoch :=
        congrArg Identity.replayEpoch (ChannelDb.identity_appendEvent happend)
      rw [← Option.some.inj (Option.mem_toList.mp hmem)] at hid
      refine ⟨event.channel, ?_⟩
      rw [hepoch]
      exact scope_appended happend hid
    | @reads _ stream _ _ _ hpage => exact ⟨stream, scope_readAfter hpage hmem hid⟩
    | ignores | resumes | syncs | prunes | rotates | reopens => cases hmem
  | cursor =>
    cases hdoes with
    | resumes hcursor => exact ⟨channel, scope_replayCursor hcursor⟩

theorem checkRequested_foreign {stream : String}
    (hscope : c.scope = (ReplayCursor.sqlite E epoch stream 0).scope)
    (hepoch : epoch ≠ s.db.replayEpoch) (channel : String) (expiredFloor : ℤ) :
    s.checkRequested E channel (some c) expiredFloor = .error .staleCursor := by
  have hother : c.scope ≠ (ReplayCursor.sqlite E s.db.replayEpoch channel 0).scope := by
    intro hsame
    have hpair := Option.some.inj (hscope.symm.trans hsame)
    exact hepoch (congrArg Prod.fst hpair)
  unfold checkRequested ChannelDb.validateCursor
  simp only [if_pos hother]
  rfl
end SqliteChannelStore

structure Refused (E : Crates) (s : SqliteChannelStore) (c : ReplayCursor) : Prop where
  read : ∀ now channel limit,
    s.readAfter E now channel (some c) limit = .error .staleCursor
  resume : ∀ now channel, s.replayCursor E now channel (some c) = .error .staleCursor

namespace SqliteChannelStore
theorem refused_of_scope {log : List (CommittedMessage E)} (h : Holds s.db log) {stream : String}
    (hscope : c.scope = (ReplayCursor.sqlite E epoch stream 0).scope)
    (hepoch : epoch ≠ s.db.replayEpoch) : Refused E s c where
  read now channel limit := by
    unfold readAfter
    rw [h.limits]
    show (s.checkRequested E channel (some c) _ >>= _) = _
    rw [checkRequested_foreign hscope hepoch]
    rfl
  resume now channel := by
    unfold replayCursor
    rw [h.limits]
    show (s.checkRequested E channel (some c) _ >>= _) = _
    rw [checkRequested_foreign hscope hepoch]
    rfl
end SqliteChannelStore

structure ExactlyOnce (s : SqliteChannelStore) (calls : List (ChannelCall E)) : Prop where
  increasing : (s.applied E calls).Pairwise
    (fun e e' => e.id.origin = e'.id.origin → e.id.sequence < e'.id.sequence)
  once : ((s.applied E calls).map ChannelEvent.id).Nodup
  foreign : ∀ e ∈ s.applied E calls, e.id.origin ≠ encode s.epoch
  numbered : (s.published E calls).map ChannelEvent.id =
    (List.range' 1 (s.published E calls).length).map (fun n => ⟨encode s.epoch, n⟩)
  failed : ∀ before call later e, calls = before ++ call :: later →
    (SqliteChannelStore.exec E call (s.after E before)).1 = .error e →
    s.after E (before ++ [call]) = s.after E before

/-- After an event that does not follow the last one of its origin, every cursor
issued before it is refused. -/
def RevealsGaps (s : SqliteChannelStore) (calls : List (ChannelCall E)) : Prop :=
  ∀ before later now event epoch message,
    calls = before ++ .ingestRemote now event epoch :: later →
    (SqliteChannelStore.exec E (.ingestRemote now event epoch) (s.after E before)).1 =
      .ok (.ingested (some message)) →
    event.sequence ≠ OriginSequence.last ChannelEvent.origin ChannelEvent.sequence
      (s.applied E before) event.origin + 1 →
    ∀ earlier issuing between channel c, before = earlier ++ issuing :: between →
      Issues issuing (SqliteChannelStore.exec E issuing (s.after E earlier)).1 channel c →
      Refused E (s.after E calls) c

namespace SqliteChannelStore
theorem exec_error {e : ChannelError} (h : (exec E call s).1 = .error e) :
    (exec E call s).2 = s := by
  have hdoes := does_exec call s
  rw [h] at hdoes
  generalize (exec E call s).2 = s' at hdoes ⊢
  cases hdoes
  rfl

theorem replayEpoch_of_gap
    (h : (exec E (.ingestRemote now event epoch) s).1 = .ok (.ingested (some message)))
    (hgap : (event.sequence : ℤ) ≠ s.db.recordedSequence event.origin + 1) :
    s.draws (E := E) (.ingestRemote now event epoch) = [epoch] ∧
      (exec E (.ingestRemote now event epoch) s).2.db.replayEpoch = epoch := by
  have hstep := names_exec (E := E) (.ingestRemote now event epoch) s
  rw [h] at hstep
  generalize (exec E (.ingestRemote now event epoch) s).2 = s' at hstep ⊢
  cases hstep with
  | keeps happlies => cases happlies
  | applies hdraws _ _ _ _ hepoch =>
    have hskip : s.db.recordedSequence event.origin + 1 < event.sequence := by omega
    rw [if_pos hskip] at hdraws hepoch
    exact ⟨hdraws, hepoch⟩

theorem replayEpoch_openFile (h : openFile none limits now epoch = .ok s) :
    s.db.replayEpoch = epoch := by
  obtain ⟨_, _, h⟩ := bind_eq_ok h
  obtain ⟨_, hinit, h⟩ := bind_eq_ok h
  cases h
  exact congrArg Identity.replayEpoch (ChannelDb.identity_initConnection hinit)

theorem revealsGaps (hopen : openFile none limits now epoch = .ok s) (calls : List (ChannelCall E))
    (hfresh : (epoch :: drawn E s calls).Nodup) : RevealsGaps s calls := by
  intro before later now' event epoch' _ hcalls hresult hgap earlier issuing between _ _
    hbefore hissued
  have hrecorded := (ledger_after (E := E) hopen before).recorded event.origin
  have hskip : (event.sequence : ℤ) ≠
      (after E s before).db.recordedSequence event.origin + 1 := by
    rw [hrecorded]
    exact_mod_cast hgap
  obtain ⟨hdraws, hepoch⟩ := replayEpoch_of_gap hresult hskip
  -- the epoch of the cursor was drawn before the gap
  obtain ⟨_, hscope⟩ := (does_exec _ _).scope hissued
  have hissuing : (exec E issuing (after E s earlier)).2 = after E s (earlier ++ [issuing]) :=
    (Execution.after_concat _ s earlier issuing).symm
  have hold := replayEpoch_after (earlier ++ [issuing]) s
  rw [hissuing] at hscope
  rw [replayEpoch_openFile hopen] at hold
  -- the epoch of every later state was drawn at the gap or after it
  have hnew := replayEpoch_after later
    (exec E (.ingestRemote now' event epoch') (after E s before)).2
  rw [hepoch] at hnew
  have hafter : after E s calls =
      after E (exec E (.ingestRemote now' event epoch') (after E s before)).2 later := by
    rw [hcalls, after, Execution.after_append]
    rfl
  rw [← hafter] at hnew
  have hdrawn : drawn E s calls = drawn E s (earlier ++ [issuing]) ++
      (drawn E (after E s (earlier ++ [issuing])) between ++
        (epoch' ::
          drawn E (exec E (.ingestRemote now' event epoch') (after E s before)).2 later)) := by
    have hsplit : before = (earlier ++ [issuing]) ++ between := by
      rw [hbefore, append_assoc, singleton_append]
    rw [hcalls, drawn_append, drawn, hdraws, singleton_append]
    nth_rewrite 1 [hsplit]
    rw [drawn_append, append_assoc]
  rw [hdrawn, ← cons_append] at hfresh
  have hdisjoint := disjoint_of_nodup_append hfresh
  apply refused_of_scope (holds_after (E := E) hopen calls) hscope
  intro hsame
  rw [hsame] at hold
  exact hdisjoint hold (mem_append_right _ hnew)
end SqliteChannelStore

/-- Along every history of a store, with events of any origins repeated, dropped
or out of order, opening and pruning included: no event is applied twice or out
of order or comes back to its origin, publications are numbered without holes,
and, as long as `getrandom` does not repeat itself, no gap goes unnoticed. -/
theorem remote_ingest_exactly_once {limits : Option SqliteReplayLimits} {now : UnixMs}
    {epoch : Bytes16} {s : SqliteChannelStore}
    (hopen : SqliteChannelStore.openFile none limits now epoch = .ok s)
    (calls : List (ChannelCall E)) :
    ExactlyOnce s calls ∧ ((epoch :: s.drawn E calls).Nodup → RevealsGaps s calls) := by
  have hledger := SqliteChannelStore.ledger_after (E := E) hopen calls
  have hown : s.epoch = epoch := (SqliteChannelStore.ledger_after (E := E) hopen []).epoch
  refine ⟨⟨hledger.increasing, ?_, ?_, ?_, ?_⟩, SqliteChannelStore.revealsGaps hopen calls⟩
  · have hnodup := hledger.increasing.nodup
    rw [List.Nodup, pairwise_map] at hnodup ⊢
    apply hnodup.imp
    intro e _ hne hid
    apply hne
    rw [ChannelEvent.origin, ChannelEvent.sequence, ChannelEvent.origin, ChannelEvent.sequence, hid]
  · rw [hown]
    exact hledger.foreign
  · rw [hown]
    exact hledger.numbered
  · intro before call _ _ _ herror
    have hafter : s.after E (before ++ [call]) =
        (SqliteChannelStore.exec E call (s.after E before)).2 :=
      Execution.after_concat _ s before call
    rw [hafter]
    exact SqliteChannelStore.exec_error herror

def fromPeer (sequence : ℕ) (epoch : Bytes16) : ChannelCall Crates.literals :=
  .ingestRemote .epoch
    ⟨⟨"peer", sequence⟩, "room", ⟨"note", JsonLiteral.true, true_parsed⟩, false⟩ epoch

def oneEpoch : Bytes16 := Vector.replicate 16 1

/-- The first event of the peer arrives twice, its second one never. -/
def missingSecond : List (ChannelCall Crates.literals) :=
  [.replayCursor .epoch "room" none, fromPeer 1 zeroEpoch, fromPeer 1 zeroEpoch,
    fromPeer 3 oneEpoch]

theorem remote_ingest_exactly_once_missingSecond :
    SqliteChannelStore.openFile none (some ⟨2, 1000, 1000, 1000, 0⟩) .epoch zeroEpoch =
        .ok twoPerStream ∧
      ExactlyOnce twoPerStream missingSecond ∧ RevealsGaps twoPerStream missingSecond := by
  have hopen : SqliteChannelStore.openFile none (some ⟨2, 1000, 1000, 1000, 0⟩) .epoch zeroEpoch =
      .ok twoPerStream := rfl
  obtain ⟨honce, hgaps⟩ := remote_ingest_exactly_once hopen missingSecond
  exact ⟨hopen, honce, hgaps (by decide +kernel)⟩

end Tako.Channel
