import Tako.ChannelPostgresReplay

/-! The store behind a server, on SQLite or on PostgreSQL, as its subscribers see
it: a log of durable messages, and reads that show what follows a cursor. -/
namespace Tako.Channel
open Relational StreamLog Fallible List
open Tako.Workflow (NulFree i64Max)
variable {E : Crates}
inductive ChannelStoreBackend where
  | sqlite (store : SqliteChannelStore)
  | postgres (appId : String) (tables : PostgresChannels)

/-- A cursor of a SQLite store is stale on PostgreSQL. -/
def ReplayCursor.pgPosition (c : ReplayCursor) : Except ChannelError ℤ :=
  if c.scope.isSome then .error .staleCursor else .ok c.position

structure DurableMessage (E : Crates) where
  position : ℤ
  channel : String
  payload : ChannelPublishPayload E

def durableCoordinates (E : Crates) : Coordinates (DurableMessage E) String where
  position m := m.position
  stream m := m.channel

def CommittedMessage.durable (m : CommittedMessage E) : DurableMessage E :=
  ⟨m.position, m.event.channel, m.event.payload⟩

def PostgresMessage.durable (m : PostgresMessage E) : DurableMessage E :=
  ⟨m.position, m.channel, m.payload⟩

inductive StoreCall (E : Crates) where
  | sqlite (call : ChannelCall E)
  | postgres (call : PostgresCall E)

def cursorPosition (after : Option ReplayCursor) : ℤ := after.elim 0 ReplayCursor.position

namespace ChannelStoreBackend
def readAfter (E : Crates) (b : ChannelStoreBackend) (now : UnixMs) (channel : String)
    (after : Option ReplayCursor) (limit : UInt32) :
    Except ChannelError (List (ChannelMessage E)) :=
  match b with
  | .sqlite store => store.readAfter E now channel after limit
  | .postgres appId tables => do
    let after ← after.mapM ReplayCursor.pgPosition
    tables.readAfter E appId channel after limit

def replayCursor (E : Crates) (b : ChannelStoreBackend) (now : UnixMs) (channel : String)
    (requested : Option ReplayCursor) : Except ChannelError (Option ReplayCursor) :=
  match b with
  | .sqlite store => store.replayCursor E now channel requested
  | .postgres appId tables => do
    let requested ← requested.mapM ReplayCursor.pgPosition
    let cursor ← tables.replayCursor appId channel requested
    .ok (cursor.map ReplayCursor.postgres)

def exec (E : Crates) (call : StoreCall E) (b : ChannelStoreBackend) :
    List (DurableMessage E) × ChannelStoreBackend :=
  match call, b with
  | .sqlite call, .sqlite store =>
    let (result, store') := store.exec E call
    ((call.commits result).map CommittedMessage.durable, .sqlite store')
  | .postgres call, .postgres appId tables =>
    ((call.commits appId tables).map PostgresMessage.durable,
      .postgres appId (tables.exec E appId call).2)
  | _, b => ([], b)

def last : ChannelStoreBackend → ℤ
  | .sqlite store => store.db.messages.last
  | .postgres _ tables => tables.messages.last

/-- What the store has of the log, as its own tables are in step with it. -/
inductive Backs : ChannelStoreBackend → List (DurableMessage E) → Prop
  | sqlite {store : SqliteChannelStore} {log : List (CommittedMessage E)} (h : Holds store.db log)
      (hpos : ∀ m ∈ log, 0 < m.position) :
      Backs (.sqlite store) (log.map CommittedMessage.durable)
  | postgres {appId : String} {tables : PostgresChannels} {log : List (PostgresMessage E)}
      (h : PostgresHolds tables log) :
      Backs (.postgres appId tables) (log.map PostgresMessage.durable)

/-- A cursor that a subscriber holds: SQLite always gives one, and PostgreSQL
takes no channel with a NUL. -/
def Readable (channel : String) (after : Option ReplayCursor) : ChannelStoreBackend → Prop
  | .sqlite _ => after ≠ none
  | .postgres appId _ => NulFree [appId, channel]

/-- A read without a cursor finds nothing pruned from its channel. -/
def Unpruned (channel : String) (after : Option ReplayCursor) : ChannelStoreBackend → Prop
  | .sqlite _ => True
  | .postgres _ tables => after = none → tables.highestDeleted channel = 0

instance (channel : String) (after : Option ReplayCursor) (b : ChannelStoreBackend) :
    Decidable (b.Unpruned channel after) :=
  match b with
  | .sqlite _ => isTrue trivial
  | .postgres _ _ => inferInstanceAs (Decidable (_ → _))
end ChannelStoreBackend

/-- A message as a subscriber gets it: its id is the cursor of its position. -/
structure Shows (m : ChannelMessage E) (e : DurableMessage E) : Prop where
  id : ∃ c, ReplayCursor.fromStr m.id = .ok c ∧ c.position = e.position
  channel : m.channel = e.channel
  type : m.type = e.payload.type
  data : m.data = E.json.readBack e.payload.data

theorem ReplayCursor.fromStr_postgres {position : ℤ} (h0 : 0 ≤ position) (h1 : position ≤ i64Max) :
    fromStr (toString position) = .ok (postgres position) := by
  unfold fromStr
  split
  · -- a number does not start with a letter
    rename_i rest hlist
    have hs : 's' ∈ (toString position).toList := by
      rw [hlist]
      exact mem_cons_self
    exact absurd (isDigit_of_mem_toString h0 hs) (by decide)
  · rw [parseI64_toString h0 h1]
    show (if position < 0 then _ else _) = _
    rw [if_neg (not_lt.mpr h0)]

theorem le_max_of_parseI64 {cs : List Char} {n : ℤ} (h : parseI64 cs = some n) : n ≤ i64Max := by
  have hcheck {m : Option ℕ} {f : ℕ → ℤ} (hm : (m.bind fun k => checkI64 (f k)) = some n) :
      n ≤ i64Max := by
    obtain ⟨k, -, hk⟩ := Option.bind_eq_some_iff.mp hm
    obtain ⟨hrange, hkn⟩ := Option.ite_none_right_eq_some.mp hk
    cases hkn
    exact hrange.2
  unfold parseI64 at h
  split at h
  all_goals exact hcheck h

theorem ReplayCursor.position_of_fromStr {text : String} {c : ReplayCursor}
    (h : fromStr text = .ok c) : 0 ≤ c.position ∧ c.position ≤ i64Max := by
  unfold fromStr at h
  split at h
  · split at h
    · obtain ⟨_, -, h⟩ := bind_eq_ok h
      obtain ⟨_, -, h⟩ := bind_eq_ok h
      obtain ⟨position, hposition, h⟩ := bind_eq_ok h
      obtain ⟨hvalid, h⟩ := check_eq_ok h
      cases h
      exact ⟨not_lt.mp fun hneg => hvalid (.inl hneg), le_max_of_parseI64 (elim_eq_ok hposition)⟩
    · cases h
  · obtain ⟨position, hposition, h⟩ := bind_eq_ok h
    obtain ⟨hvalid, h⟩ := check_eq_ok h
    cases h
    exact ⟨not_lt.mp hvalid, le_max_of_parseI64 (elim_eq_ok hposition)⟩

/-- What some text stands for is what its display stands for. -/
theorem cursor_displays_as_itself (c : ReplayCursor) :
    (∃ text, ReplayCursor.fromStr text = .ok c) ↔ ReplayCursor.fromStr c.display = .ok c := by
  constructor
  · rintro ⟨text, htext⟩
    obtain ⟨h0, h1⟩ := ReplayCursor.position_of_fromStr htext
    obtain ⟨_ | ⟨epoch, stream⟩, position⟩ := c
    · exact ReplayCursor.fromStr_postgres h0 h1
    · exact ReplayCursor.fromStr_display rfl h0 h1
  · intro h
    exact ⟨_, h⟩

theorem shows_committed {m : CommittedMessage E} (h0 : 0 ≤ m.position) (h1 : m.position ≤ maxRowid)
    (epoch : Bytes16) : Shows (m.toMessage epoch) m.durable where
  id := ⟨_, ReplayCursor.fromStr_sqlite epoch _ h0 h1, rfl⟩
  channel := rfl
  type := rfl
  data := rfl

theorem shows_postgres {m : PostgresMessage E} (h0 : 0 ≤ m.position) (h1 : m.position ≤ maxRowid) :
    Shows m.toMessage m.durable where
  id := ⟨_, ReplayCursor.fromStr_postgres h0 h1, rfl⟩
  channel := rfl
  type := rfl
  data := rfl

theorem since_committed_durable (log : List (CommittedMessage E)) (channel : String) (p : ℤ) :
    (durableCoordinates E).since (log.map CommittedMessage.durable) channel p =
      ((coordinates E).since log channel p).map CommittedMessage.durable := by
  apply Coordinates.since_map <;> exact fun _ => rfl

theorem since_postgres_durable (log : List (PostgresMessage E)) (channel : String) (p : ℤ) :
    (durableCoordinates E).since (log.map PostgresMessage.durable) channel p =
      ((postgresCoordinates E).since log channel p).map PostgresMessage.durable := by
  apply Coordinates.since_map <;> exact fun _ => rfl

theorem forall₂_map_take {α β γ : Type} {R : β → γ → Prop} {f : α → β} {g : α → γ} {l : List α}
    (h : ∀ a ∈ l, R (f a) (g a)) (n : ℕ) :
    List.Forall₂ R ((l.take n).map f) ((l.map g).take n) := by
  rw [← map_take, forall₂_map_left_iff, forall₂_map_right_iff, forall₂_same]
  intro a ha
  exact h a (mem_of_mem_take ha)

namespace ChannelStoreBackend
variable {b : ChannelStoreBackend} {log : List (DurableMessage E)}
theorem Backs.ordered (h : Backs b log) : (durableCoordinates E).Ordered log := by
  cases h with
  | sqlite h | postgres h => exact pairwise_map.mpr h.ordered

theorem Backs.le_last (h : Backs b log) {e : DurableMessage E} (he : e ∈ log) :
    e.position ≤ b.last := by
  cases h with
  | sqlite h | postgres h =>
    obtain ⟨m, hm, rfl⟩ := mem_map.mp he
    exact h.le_last m hm

theorem last_nonneg (b : ChannelStoreBackend) : 0 ≤ b.last := by
  cases b with
  | sqlite store => exact store.db.messages.last_nonneg
  | postgres _ tables => exact tables.messages.last_nonneg

theorem later_exec (call : StoreCall E) (b : ChannelStoreBackend) {e : DurableMessage E}
    (he : e ∈ (exec E call b).1) : b.last < e.position := by
  cases call with
  | sqlite call =>
    cases b with
    | sqlite store =>
      obtain ⟨m, hm, rfl⟩ := mem_map.mp he
      exact (SqliteChannelStore.extends_exec call store).later m hm
    | postgres => cases he
  | postgres call =>
    cases b with
    | sqlite => cases he
    | postgres _ tables =>
      obtain ⟨m, hm, rfl⟩ := mem_map.mp he
      exact (PostgresChannels.changes_exec call tables).later m hm

theorem last_le_exec (call : StoreCall E) (b : ChannelStoreBackend) :
    b.last ≤ (exec E call b).2.last := by
  cases call with
  | sqlite call =>
    cases b with
    | sqlite store => exact (SqliteChannelStore.extends_exec call store).last
    | postgres => exact le_refl _
  | postgres call =>
    cases b with
    | sqlite => exact le_refl _
    | postgres _ tables => exact (PostgresChannels.changes_exec call tables).last_le

/-- Either store follows the log that its calls commit. -/
theorem Backs.exec (h : Backs b log) (call : StoreCall E) :
    Backs (exec E call b).2 (log ++ (exec E call b).1) := by
  cases call with
  | sqlite call =>
    cases h with
    | @sqlite store log h hpos =>
      have hext := SqliteChannelStore.extends_exec call store
      have hall : ∀ m ∈ log ++ call.commits (store.exec E call).1, 0 < m.position := by
        intro m hm
        obtain hm | hm := mem_append.mp hm
        · exact hpos m hm
        · exact store.db.messages.last_nonneg.trans_lt (hext.later m hm)
      have hbacks := Backs.sqlite (hext.holds log h) hall
      rw [map_append] at hbacks
      exact hbacks
    | postgres h =>
      show Backs _ (_ ++ [])
      rw [append_nil]
      exact Backs.postgres h
  | postgres call =>
    cases h with
    | sqlite h hpos =>
      show Backs _ (_ ++ [])
      rw [append_nil]
      exact Backs.sqlite h hpos
    | @postgres appId tables log h =>
      have hbacks : Backs (.postgres appId (tables.exec E appId call).2)
          ((log ++ call.commits appId tables).map PostgresMessage.durable) :=
        Backs.postgres ((PostgresChannels.changes_exec call tables).holds h)
      rw [map_append] at hbacks
      exact hbacks

variable {after : Option ReplayCursor} {channel : String}
theorem Readable.exec (h : b.Readable channel after) (call : StoreCall E) :
    (ChannelStoreBackend.exec E call b).2.Readable channel after := by
  cases call <;> cases b <;> exact h

theorem Unpruned.exec (h : b.Unpruned channel after) {call : StoreCall E}
    (hcall : ∀ now, call ≠ .postgres (.prune now)) :
    (ChannelStoreBackend.exec E call b).2.Unpruned channel after := by
  cases call with
  | sqlite => cases b <;> exact h
  | postgres call =>
    cases b with
    | sqlite => exact h
    | postgres _ tables =>
      have hprune (now : ℤ) : call ≠ .prune now := by
        intro hcall'
        exact hcall now (by rw [hcall'])
      intro hnone
      rw [← h hnone]
      exact (PostgresChannels.changes_exec call tables).highestDeleted hprune channel

theorem Backs.readAfter (h : Backs b log) (hreadable : b.Readable channel after)
    (hunpruned : b.Unpruned channel after) (now : UnixMs) (limit : UInt32) :
    b.readAfter E now channel after limit = .error .staleCursor ∨
      ∃ ms, b.readAfter E now channel after limit = .ok ms ∧
        List.Forall₂ Shows ms (((durableCoordinates E).since log channel
          (cursorPosition after)).take limit.toNat) := by
  cases h with
  | @sqlite store log h hpos =>
    cases after with
    | none => exact absurd rfl hreadable
    | some c =>
      obtain hstale | hok := SqliteChannelStore.readAfter_eq h now channel c limit
      · exact .inl hstale
      · refine .inr ⟨_, hok, ?_⟩
        rw [since_committed_durable]
        apply forall₂_map_take
        intro m hm
        have hmem := (Coordinates.mem_since.mp hm).1
        exact shows_committed (hpos m hmem).le
          ((h.le_last m hmem).trans store.db.messages.last_le) _
  | @postgres appId tables log h =>
    have hshow (c : Option ℤ) (hc : c ≠ none ∨ tables.highestDeleted channel = 0) :
        tables.readAfter E appId channel c limit = .error .staleCursor ∨
          ∃ ms, tables.readAfter E appId channel c limit = .ok ms ∧
            List.Forall₂ Shows ms (((durableCoordinates E).since
              (log.map PostgresMessage.durable) channel (c.getD 0)).take limit.toNat) := by
      obtain hstale | hok := PostgresChannels.readAfter_eq h hreadable hc limit
      · exact .inl hstale
      · refine .inr ⟨_, hok, ?_⟩
        rw [since_postgres_durable]
        apply forall₂_map_take
        intro m hm
        have hmem := (Coordinates.mem_since.mp hm).1
        exact shows_postgres (h.pos m hmem).le ((h.le_last m hmem).trans tables.messages.last_le)
    cases after with
    | none => exact hshow none (.inr (hunpruned rfl))
    | some c =>
      by_cases hscope : c.scope.isSome
      · left
        show ((some <$> c.pgPosition) >>= _) = _
        rw [ReplayCursor.pgPosition, if_pos hscope]
        rfl
      · have hpg : c.pgPosition = .ok c.position := by
          rw [ReplayCursor.pgPosition, if_neg hscope]
        show ((some <$> c.pgPosition) >>= _) = _ ∨ ∃ ms, ((some <$> c.pgPosition) >>= _) = _ ∧ _
        rw [hpg]
        exact hshow (some c.position) (.inl (Option.some_ne_none _))

theorem Backs.replayCursor (h : Backs b log) {now : UnixMs} {requested after : Option ReplayCursor}
    (hok : b.replayCursor E now channel requested = .ok after) :
    b.Readable channel after ∧ cursorPosition after ≤ b.last := by
  cases h with
  | @sqlite store log h _ =>
    obtain ⟨limits, _, hok⟩ := bind_eq_ok hok
    obtain ⟨_, hcheck, hok⟩ := bind_eq_ok hok
    cases hok
    refine ⟨Option.some_ne_none _, ?_⟩
    cases requested with
    | none => exact h.head_le channel
    | some c =>
      -- a requested cursor was compared with the head of the stream
      obtain ⟨_, hvalid, _⟩ := bind_eq_ok hcheck
      unfold ChannelDb.validateCursor at hvalid
      split at hvalid
      · cases hvalid
      · split at hvalid
        · cases hvalid
        · rename_i hrange
          have hhead := h.head_le channel
          show c.position ≤ store.db.messages.last
          omega
  | @postgres appId tables log h =>
    obtain ⟨position, _, hok⟩ := bind_eq_ok hok
    obtain ⟨cursor, hcursor, hok⟩ := bind_eq_ok hok
    cases hok
    have hposition : cursorPosition (cursor.map ReplayCursor.postgres) = cursor.getD 0 := by
      cases cursor <;> rfl
    unfold PostgresChannels.replayCursor at hcursor
    split at hcursor
    · rename_i hnul
      refine ⟨hnul, ?_⟩
      rw [hposition]
      show cursor.getD 0 ≤ tables.messages.last
      have hhead := h.head_le channel
      have hfirst := tables.messages.last_nonneg
      have hvalue : (tables.head channel).getD 0 ≤ tables.latest channel := by
        unfold PostgresChannels.head
        split
        · rename_i hzero
          exact hzero.ge
        · exact le_refl _
      unfold resolveReplayCursor at hcursor
      cases position with
      | none =>
        rw [← Except.ok.inj hcursor]
        exact hvalue.trans hhead
      | some p =>
        simp only at hcursor
        split at hcursor
        · cases hcursor
        · rename_i hrange
          rw [← Except.ok.inj hcursor]
          cases hlatest : tables.head channel with
          | none => simp [hlatest] at hrange
          | some =>
            simp only [hlatest, Option.all_some, decide_eq_true_eq, Option.getD_some]
              at hrange hvalue ⊢
            omega
    · cases hcursor
end ChannelStoreBackend
end Tako.Channel
