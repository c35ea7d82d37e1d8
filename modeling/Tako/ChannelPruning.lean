import Tako.ChannelBudgets

/-! Background pruning and its readers. A read hides what a prune deletes. -/
namespace Tako.Channel
open Relational List
open Tako.Workflow (JsonLiteral)
variable {E : Crates}
def AgeCutoff.Covers (r : MessageRow) : AgeCutoff → Prop
  | .everything => True
  | .before created => r.createdAtUnixMs < created

instance (r : MessageRow) : ∀ cutoff : AgeCutoff, Decidable (cutoff.Covers r)
  | .everything => .isTrue trivial
  | .before _ => inferInstanceAs (Decidable (_ < _))

variable {db db' : ChannelDb} {r : MessageRow} {now : UnixMs}
namespace ChannelDb
variable {p q : MessageRow → Prop}
def Expired (db : ChannelDb) (now : UnixMs) (r : MessageRow) : Prop :=
  ∃ cutoff ∈ ageCutoff db.storeState.limits (db.streamLifecycle r.channel) now, cutoff.Covers r

instance (db : ChannelDb) (now : UnixMs) (r : MessageRow) : Decidable (db.Expired now r) := by
  unfold Expired
  infer_instance

theorem le_expiredFloor (hr : r ∈ db.messages.rows) (h : db.Expired now r) :
    r.id ≤ db.expiredFloor db.storeState.limits r.channel now := by
  obtain ⟨cutoff, hcutoff, hcovers⟩ := h
  unfold expiredFloor
  rw [hcutoff]
  cases cutoff with
  | everything => exact db.messages.le_maxId hr rfl
  | before => exact db.messages.le_maxId hr ⟨rfl, hcovers⟩

section
variable (db) (channel : String) (now : UnixMs)
theorem expiredFloor_cases :
    db.expiredFloor db.storeState.limits channel now = 0 ∨
      ∃ r ∈ db.messages.rows, r.channel = channel ∧ db.Expired now r ∧
        r.id = db.expiredFloor db.storeState.limits channel now := by
  unfold expiredFloor
  split
  · exact .inl rfl
  · rename_i hcutoff
    refine (db.messages.maxId_cases _).imp_right ?_
    rintro ⟨r, hr, rfl, hid⟩
    exact ⟨r, hr, rfl, ⟨_, hcutoff, trivial⟩, hid⟩
  · rename_i created hcutoff
    refine (db.messages.maxId_cases _).imp_right ?_
    rintro ⟨r, hr, ⟨rfl, hbefore⟩, hid⟩
    exact ⟨r, hr, rfl, ⟨_, hcutoff, hbefore⟩, hid⟩

theorem expiredFloor_nonneg : 0 ≤ db.expiredFloor db.storeState.limits channel now := by
  obtain hzero | ⟨r, hr, _, _, hid⟩ := expiredFloor_cases db channel now
  · exact hzero.ge
  · exact hid ▸ (db.messages.id_pos r hr).le
end

structure Prunes (p : MessageRow → Prop) (db db' : ChannelDb) : Prop where
  retires : db.Retires db'
  gone : ∀ r ∈ db'.messages.rows, ¬p r
  kept : ∀ r ∈ db.messages.rows, ¬p r → r ∈ db'.messages.rows
  raised : ∀ channel, db'.replayFloor channel = db.replayFloor channel ∨
    ∃ r ∈ db.messages.rows, p r ∧ r.channel = channel ∧ db'.replayFloor channel = r.id
  head : ∀ channel, db'.streamHead channel = db.streamHead channel
  lifecycle : ∀ channel, db'.streamLifecycle channel = db.streamLifecycle channel
  epoch : db'.replayEpoch = db.replayEpoch

namespace Prunes
theorem refl (h : ∀ r, ¬p r) (db : ChannelDb) : Prunes p db db :=
  ⟨.refl db, fun r _ => h r, fun _ hr _ => hr, fun _ => .inl rfl, fun _ => rfl, fun _ => rfl, rfl⟩

theorem trans {db'' : ChannelDb} (h : Prunes p db db') (h' : Prunes q db' db'') :
    Prunes (fun r => p r ∨ q r) db db'' where
  retires := h.retires.trans h'.retires
  gone r hr := not_or.mpr ⟨h.gone r (h'.retires.rows r hr), h'.gone r hr⟩
  kept r hr hno := h'.kept r (h.kept r hr (not_or.mp hno).1) (not_or.mp hno).2
  raised channel := by
    obtain hsame | ⟨r, hr, hq, hfloor⟩ := h'.raised channel
    · rw [hsame]
      exact (h.raised channel).imp_right fun ⟨r, hr, hp, hfloor⟩ => ⟨r, hr, .inl hp, hfloor⟩
    · exact .inr ⟨r, h.retires.rows r hr, .inr hq, hfloor⟩
  head channel := (h'.head channel).trans (h.head channel)
  lifecycle channel := (h'.lifecycle channel).trans (h.lifecycle channel)
  epoch := h'.epoch.trans h.epoch

theorem congr (h : Prunes p db db') (hpq : ∀ r ∈ db.messages.rows, (p r ↔ q r)) :
    Prunes q db db' where
  __ := h
  gone r hr := (not_congr (hpq r (h.retires.rows r hr))).mp (h.gone r hr)
  kept r hr hno := h.kept r hr ((not_congr (hpq r hr)).mpr hno)
  raised channel := (h.raised channel).imp_right
    fun ⟨r, hr, hp, hfloor⟩ => ⟨r, hr, (hpq r hr).mp hp, hfloor⟩
end Prunes

theorem prunes_deleteMessages (db : ChannelDb) (p : MessageRow → Prop) [DecidablePred p] :
    Prunes p db (db.deleteMessages p) := by
  have h := deleted_deleteMessages db p
  have hrow {r : MessageRow} : r ∈ (db.deleteMessages p).messages.rows ↔
      r ∈ db.messages.rows ∧ ¬p r := by
    rw [h.messages]
    exact db.messages.mem_deleteWhere
  refine ⟨retires_deleteMessages db p, fun r hr => (hrow.mp hr).2,
    fun r hr hno => hrow.mpr ⟨hr, hno⟩, ?_, h.head, h.lifecycle, h.epoch⟩
  intro channel
  obtain hsame | ⟨r, hr, hfloor⟩ := h.raised channel
  · exact .inl hsame
  · have hmem := db.messages.mem_select.mp hr
    exact .inr ⟨r, hmem.1, hmem.2, hfloor⟩

theorem prunes_pruneAge (db : ChannelDb) (limits : SqliteReplayLimits) (now : UnixMs) :
    Prunes (fun r => ∃ m ∈ db.metadata.rows.filter (fun m => 0 < m.messageCount),
        ∃ cutoff ∈ ageCutoff limits (some m.lifecycle) now, r.channel = m.channel ∧ cutoff.Covers r)
      db (db.pruneAge limits now) := by
  unfold pruneAge
  simp only
  generalize db.metadata.rows.filter (fun m => 0 < m.messageCount) = lifecycles
  induction lifecycles generalizing db with
  | nil => exact .refl (by simp) db
  | cons m _ ih =>
    rw [foldl_cons]
    refine Prunes.congr (Prunes.trans (p := fun r => ∃ cutoff ∈ ageCutoff limits (some m.lifecycle)
      now, r.channel = m.channel ∧ cutoff.Covers r) ?_ (ih _)) (by simp)
    cases ageCutoff limits (some m.lifecycle) now with
    | none => exact .refl (by simp) db
    | some cutoff =>
      cases cutoff with
      | everything | before => exact (prunes_deleteMessages db _).congr (by simp [AgeCutoff.Covers])

theorem listed_iff_expired (h : Counted db) (now : UnixMs) (hr : r ∈ db.messages.rows) :
    (∃ m ∈ db.metadata.rows.filter (fun m => 0 < m.messageCount),
      ∃ cutoff ∈ ageCutoff db.storeState.limits (some m.lifecycle) now,
        r.channel = m.channel ∧ cutoff.Covers r) ↔ db.Expired now r := by
  constructor
  · rintro ⟨m, hm, cutoff, hcutoff, hchannel, hcovers⟩
    have hget : db.metadata.get? r.channel = some m :=
      db.metadata.get?_eq_some.mpr ⟨(mem_filter.mp hm).1, hchannel.symm⟩
    refine ⟨cutoff, ?_, hcovers⟩
    rw [streamLifecycle, hget]
    exact hcutoff
  · rintro ⟨cutoff, hcutoff, hcovers⟩
    obtain ⟨m, hget⟩ := h.listed r hr
    obtain ⟨hm, hchannel⟩ := db.metadata.get?_eq_some.mp hget
    have hcount : m.messageCount = (db.stream r.channel).length :=
      congrArg Prod.fst (h.stream r.channel m hget)
    have hpos : 0 < (db.stream r.channel).length :=
      length_pos_of_mem (db.messages.mem_select.mpr ⟨hr, rfl⟩)
    refine ⟨m, mem_filter.mpr ⟨hm, decide_eq_true (by omega)⟩, cutoff, ?_, hchannel.symm, hcovers⟩
    rw [streamLifecycle, hget] at hcutoff
    exact hcutoff

/-- A store within its budgets loses exactly what has expired. -/
theorem prunes_pruneReplay (h : Balanced db) (now : UnixMs) :
    Prunes (db.Expired now) db (db.pruneReplay db.storeState.limits now) := by
  have hcounted := pruneAge_induction counted_step h.counted db.storeState.limits now
  have hsublist := pruneAge_induction (sublist_step db.messages.rows) (List.Sublist.refl _)
    db.storeState.limits now
  have hage := (prunes_pruneAge db db.storeState.limits now).congr
    fun r hr => listed_iff_expired h.counted now hr
  have hsame : db.pruneReplay db.storeState.limits now = db.pruneAge db.storeState.limits now := by
    unfold pruneReplay
    simp only
    rw [filter_eq_nil_iff.mpr, foldl_nil]
    · apply (storeBudgetLoop_budgetLoop h.limits).stop _ hcounted
      rw [select_true]
      exact (tally_le_of_sublist MessageRow.bytes_nonneg hsublist).trans h.fits.store
    · intro m hm
      have husage := hcounted.stream m.channel m ((Table.get?_eq_some _).mpr ⟨hm, rfl⟩)
      have hfits := (tally_stream_le hsublist m.channel).trans (h.fits.stream m.channel)
      rw [← husage] at hfits
      simpa using Prod.mk_le_mk.mp hfits
  rw [hsame]
  exact hage
end ChannelDb

namespace ChannelDb.Prunes
variable (h : Prunes (db.Expired now) db db')
include h
theorem expired_iff (r : MessageRow) :
    db'.Expired now r ↔ db.Expired now r := by
  unfold Expired
  rw [h.retires.limits, h.lifecycle]

theorem expiredFloor (channel : String) :
    db'.expiredFloor db'.storeState.limits channel now = 0 := by
  obtain hzero | ⟨r, hr, _, hexpired, _⟩ := expiredFloor_cases db' channel now
  · exact hzero
  · exact absurd ((h.expired_iff r).mp hexpired) (h.gone r hr)

theorem lt_floor_iff (channel : String) (position : ℤ) :
    position < db'.replayFloor channel ∨ position < 0 ↔ position < db.replayFloor channel ∨
        position < db.expiredFloor db.storeState.limits channel now := by
  have hmono := h.retires.floor channel
  have hbelow : db'.replayFloor channel ≤ max (db.replayFloor channel)
      (db.expiredFloor db.storeState.limits channel now) := by
    obtain hsame | ⟨r, hr, hexpired, rfl, hfloor⟩ := h.raised channel
    · exact hsame.le.trans (le_max_left _ _)
    · exact hfloor.le.trans ((le_expiredFloor hr hexpired).trans (le_max_right _ _))
  obtain _ | ⟨r, hr, rfl, hexpired, _⟩ := expiredFloor_cases db channel now
  · omega
  · have hpos := db.messages.id_pos r hr
    obtain hin | _ := h.retires.gone r hr
    · exact absurd hexpired (h.gone r hin)
    · omega

theorem select_eq {channel : String} {position position' : ℤ}
    (hfloor : db.expiredFloor db.storeState.limits channel now ≤ position)
    (hle : position' ≤ position)
    (hkept : ∀ r ∈ db.messages.rows, r.channel = channel → position' < r.id → r.id ≤ position →
      db.Expired now r) : db'.messages.select (fun r => r.channel = channel ∧ position' < r.id) =
      db.messages.select (fun r => r.channel = channel ∧ position < r.id) := by
  have : Std.Irrefl (fun a b : MessageRow => a.id < b.id) := ⟨fun a => lt_irrefl a.id⟩
  have : Std.Asymm (fun a b : MessageRow => a.id < b.id) := ⟨fun a b => lt_asymm⟩
  apply (db'.messages.increasing.filter _).eq_of_mem_iff (db.messages.increasing.filter _)
  intro r
  refine db'.messages.mem_select.trans (Iff.trans ?_ db.messages.mem_select.symm)
  constructor
  · rintro ⟨hr, hchannel, hlt⟩
    have hr' := h.retires.rows r hr
    refine ⟨hr', hchannel, ?_⟩
    by_contra hge
    exact h.gone r hr (hkept r hr' hchannel hlt (not_lt.mp hge))
  · rintro ⟨hr, rfl, hlt⟩
    refine ⟨h.kept r hr fun hexpired => ?_, rfl, hle.trans_lt hlt⟩
    have := le_expiredFloor hr hexpired
    omega
end ChannelDb.Prunes

namespace SqliteChannelStore
variable {s s' : SqliteChannelStore} {log : List (CommittedMessage E)} {rows : List MessageRow}
  (channel : String)
theorem exists_le_mem_take (hrows : rows.Pairwise fun a b => a.id < b.id) {limit : ℕ}
    (hlimit : limit ≠ 0) (hr : r ∈ rows) : ∃ x ∈ rows.take limit, x.id ≤ r.id := by
  obtain ⟨n, rfl⟩ := Nat.exists_eq_succ_of_ne_zero hlimit
  cases hrows with
  | nil => cases hr
  | @cons x rows hfirst _ =>
    refine ⟨x, mem_cons_self, ?_⟩
    obtain rfl | hr := mem_cons.mp hr
    · exact le_rfl
    · exact (hfirst r hr).le

section
variable (h : s.db.Prunes (s.db.Expired now) s'.db)
include h
theorem messageFromRow_pruned (hr : r ∈ s'.db.messages.rows) :
    s'.messageFromRow E channel r = s.messageFromRow E channel r := by
  unfold messageFromRow
  rw [h.epoch, h.retires.events r hr]

theorem checkRequested_pruned (requested : Option ReplayCursor) :
    s'.checkRequested E channel requested
        (s'.db.expiredFloor s'.db.storeState.limits channel now) =
      s.checkRequested E channel requested
        (s.db.expiredFloor s.db.storeState.limits channel now) := by
  cases requested with
  | none => rfl
  | some c =>
    have hfloor := h.lt_floor_iff channel c.position
    unfold checkRequested ChannelDb.validateCursor
    rw [h.expiredFloor, h.epoch, h.head]
    simp only
    split
    · rfl
    · show (if _ then _ else _ : Except ChannelError Unit).bind _ =
        (if _ then _ else _ : Except ChannelError Unit).bind _
      split <;> split
      all_goals simp only [Except.bind]
      all_goals grind

theorem mapM_pruned (rows : List MessageRow) (hrows : ∀ r ∈ rows, r ∈ s'.db.messages.rows) :
    rows.mapM (s'.messageFromRow E channel) = rows.mapM (s.messageFromRow E channel) := by
  induction rows with
  | nil => rfl
  | cons r _ ih =>
    rw [mapM_cons, mapM_cons, messageFromRow_pruned channel h (hrows r mem_cons_self),
      ih fun r' hr' => hrows r' (mem_cons_of_mem _ hr')]
end

variable (hs : Holds s.db log)
include hs
theorem readAfter_rows (after : Option ReplayCursor) (limit : UInt32) :
    s.readAfter E now channel after limit =
      (s.checkRequested E channel after (s.db.expiredFloor s.db.storeState.limits channel now)).bind
        fun _ => ((s.db.messages.select fun r => r.channel = channel ∧
          max (after.elim 0 ReplayCursor.position)
            (s.db.expiredFloor s.db.storeState.limits channel now) < r.id).take
          limit.toNat).mapM (s.messageFromRow E channel) := by
  unfold readAfter
  rw [hs.limits]
  rfl

theorem exists_page
    (hrows : ∀ r ∈ rows, r ∈ s.db.messages.rows ∧ r.channel = channel) :
    ∃ page, rows.mapM (s.messageFromRow E channel) = .ok page ∧
      page.map (fun m => (ReplayCursor.fromStr m.id).toOption.map ReplayCursor.position) =
        (rows.map MessageRow.id).map some := by
  induction rows with
  | nil => exact ⟨[], rfl, rfl⟩
  | cons r _ ih =>
    obtain ⟨hr, rfl⟩ := hrows r mem_cons_self
    obtain ⟨page, hpage, hids⟩ := ih fun r' hr' => hrows r' (mem_cons_of_mem _ hr')
    obtain ⟨m, _, hstores⟩ := hs.retains.row r hr
    have hpos := s.db.messages.id_pos r hr
    have hle := (s.db.messages.le_last r hr).trans s.db.messages.last_le
    refine ⟨m.toMessage s.db.replayEpoch :: page, ?_, ?_⟩
    · rw [mapM_cons, messageFromRow_eq s hstores, hpage]
      rfl
    · rw [map_cons, hids, CommittedMessage.toMessage, ← hstores.channel, ← hstores.id,
        ReplayCursor.fromStr_sqlite _ _ hpos.le hle]
      rfl

theorem ids_eq_of_mapM_eq {rows' : List MessageRow}
    (hrows : ∀ r ∈ rows, r ∈ s.db.messages.rows ∧ r.channel = channel)
    (hrows' : ∀ r ∈ rows', r ∈ s.db.messages.rows ∧ r.channel = channel)
    (heq : rows.mapM (s.messageFromRow E channel) = rows'.mapM (s.messageFromRow E channel)) :
    rows.map MessageRow.id = rows'.map MessageRow.id := by
  obtain ⟨_, hpage, hids⟩ := exists_page channel hs hrows
  obtain ⟨_, hpage', hids'⟩ := exists_page channel hs hrows'
  rw [hpage, hpage', Except.ok.injEq] at heq
  rw [heq, hids'] at hids
  exact (map_injective_iff.mpr (Option.some_injective ℤ) hids).symm

theorem exec_prune :
    (exec E (.prune now) s).2.db = s.db.pruneReplay s.db.storeState.limits now := by
  show (s.commit _ ((prune s.db now).map _)).2.db = _
  rw [prune, hs.limits]
  rfl

variable (h : s.db.Prunes (s.db.Expired now) s'.db)
include h
theorem replayCursor_pruned (requested : Option ReplayCursor) :
    s'.replayCursor E now channel requested = s.replayCursor E now channel requested := by
  unfold replayCursor
  rw [hs.limits, (hs.retire h.retires).limits, h.epoch, h.head]
  show (s'.checkRequested E channel requested _).bind _ =
    (s.checkRequested E channel requested _).bind _
  rw [checkRequested_pruned channel h]

theorem readAfter_pruned_iff (after : Option ReplayCursor) (limit : UInt32) :
    s'.readAfter E now channel after limit = s.readAfter E now channel after limit ↔
      (after = none → limit ≠ 0 → ∀ r ∈ s.db.messages.rows, r.channel = channel →
        r.id ≤ s.db.expiredFloor s.db.storeState.limits channel now → s.db.Expired now r) := by
  rw [readAfter_rows channel hs, readAfter_rows channel (hs.retire h.retires),
    checkRequested_pruned channel h, h.expiredFloor]
  have hnonneg := s.db.expiredFloor_nonneg channel now
  set floor := s.db.expiredFloor s.db.storeState.limits channel now with hfloor
  have hpage (position : ℤ) := mapM_pruned (E := E) channel h
    ((s'.db.messages.select fun r => r.channel = channel ∧ position < r.id).take limit.toNat)
    fun r hr => (s'.db.messages.mem_select.mp (mem_of_mem_take hr)).1
  rw [hpage]
  cases after with
  | some c =>
    refine iff_of_true ?_ nofun
    obtain hstale | ⟨hok, _, hle⟩ := checkRequested_cases (E := E) s channel c floor
    · rw [hstale]
      rfl
    · -- a cursor that is let in stands at the floor or above
      rw [hok, h.select_eq (le_max_right _ _) (max_le_max le_rfl hnonneg)]
      intro r _ _ hlt hge
      simp only [Option.elim_some] at hlt hge
      omega
  | none =>
    show mapM _ (take _ _) = mapM _ (take _ _) ↔ _
    by_cases hlimit : limit = 0
    · simp [hlimit]
    constructor
    · intro heq _ _ r hr hchannel hle
      by_contra hexpired
      have hpos := s.db.messages.id_pos r hr
      have hshown : r ∈ s'.db.messages.select fun r => r.channel = channel ∧ 0 < r.id :=
        s'.db.messages.mem_select.mpr ⟨h.kept r hr hexpired, hchannel, hpos⟩
      obtain ⟨_, hx, _⟩ := exists_le_mem_take (s'.db.messages.increasing.filter _)
        (mt (UInt32.toNat_inj (b := 0)).mp hlimit) hshown
      have hids := ids_eq_of_mapM_eq channel hs ?_ ?_ heq
      · obtain ⟨y, hy, _⟩ := mem_map.mp (hids ▸ mem_map_of_mem hx)
        have hlt : max 0 floor < y.id := (s.db.messages.mem_select.mp (mem_of_mem_take hy)).2.2
        omega
      · intro r hr
        have := s'.db.messages.mem_select.mp (mem_of_mem_take hr)
        exact ⟨h.retires.rows r this.1, this.2.1⟩
      · intro r hr
        have := s.db.messages.mem_select.mp (mem_of_mem_take hr)
        exact ⟨this.1, this.2.1⟩
    · intro hall
      rw [h.select_eq (le_max_right _ _) (max_le_max le_rfl hnonneg)]
      intro r hr hchannel _ hle
      exact hall rfl hlimit r hr hchannel (hle.trans (max_eq_right hnonneg).le)
end SqliteChannelStore

theorem pruning_invisible_iff {limits : Option SqliteReplayLimits} {opened : UnixMs}
    {epoch : Bytes16} {s : SqliteChannelStore}
    (hopen : SqliteChannelStore.openFile none limits opened epoch = .ok s)
    (calls : List (ChannelCall E)) (now : UnixMs) (channel : String) :
    let t := s.after E calls
    let t' := (SqliteChannelStore.exec E (.prune now) t).2
    (∀ requested, t'.replayCursor E now channel requested =
      t.replayCursor E now channel requested) ∧
    ∀ after limit, t'.readAfter E now channel after limit = t.readAfter E now channel after limit ↔
      (after = none → limit ≠ 0 → ∀ r ∈ t.db.messages.rows, r.channel = channel →
        r.id ≤ t.db.expiredFloor t.db.storeState.limits channel now → t.db.Expired now r) := by
  intro t t'
  have hs := SqliteChannelStore.holds_after hopen calls
  have hprunes : t.db.Prunes (t.db.Expired now) t'.db := by
    rw [SqliteChannelStore.exec_prune hs]
    exact ChannelDb.prunes_pruneReplay (SqliteChannelStore.balanced_after hopen calls) now
  exact ⟨SqliteChannelStore.replayCursor_pruned channel hs hprunes,
    SqliteChannelStore.readAfter_pruned_iff channel hs hprunes⟩

def noteStamped (now : UnixMs) : ChannelCall Crates.literals :=
  .publish now "room" ⟨"note", JsonLiteral.true, true_parsed⟩ false

/-- At 1500000 the first note has expired, and the second one has not. -/
def agedNote : SqliteChannelStore :=
  twoPerStream.after Crates.literals
    [noteStamped ⟨500000, by decide, by decide⟩, noteStamped ⟨1000000, by decide, by decide⟩]

theorem pruning_invisible_agedNote :
    SqliteChannelStore.openFile none (some ⟨2, 1000, 1000, 1000, 0⟩) .epoch zeroEpoch =
        .ok twoPerStream ∧
      let now : UnixMs := ⟨1500000, by decide, by decide⟩
      let pruned := (agedNote.exec Crates.literals (.prune now)).2
      agedNote.db.messages.rows.map (·.id) = [1, 2] ∧ pruned.db.messages.rows.map (·.id) = [2] ∧
      (∀ requested, pruned.replayCursor Crates.literals now "room" requested =
        agedNote.replayCursor Crates.literals now "room" requested) ∧
      pruned.readAfter Crates.literals now "room" none 10 =
        agedNote.readAfter Crates.literals now "room" none 10 := by
  have hopen : SqliteChannelStore.openFile none (some ⟨2, 1000, 1000, 1000, 0⟩) .epoch zeroEpoch =
      .ok twoPerStream := rfl
  have hpruned := pruning_invisible_iff hopen [noteStamped ⟨500000, by decide, by decide⟩,
    noteStamped ⟨1000000, by decide, by decide⟩] ⟨1500000, by decide, by decide⟩ "room"
  refine ⟨hopen, by decide +kernel, by decide +kernel, hpruned.1, (hpruned.2 none 10).mpr ?_⟩
  intro _ _
  decide +kernel

def clockBack : SqliteChannelStore :=
  twoPerStream.after Crates.literals
    [noteStamped ⟨1000000, by decide, by decide⟩, noteStamped ⟨100000, by decide, by decide⟩]

/-- The older note is alive and the newer one has expired: the older one shows up
when the newer one is pruned. -/
theorem pruning_visible_clockBack :
    SqliteChannelStore.openFile none (some ⟨2, 1000, 1000, 1000, 0⟩) .epoch zeroEpoch =
        .ok twoPerStream ∧
    let now : UnixMs := ⟨1500000, by decide, by decide⟩
    let pruned := (clockBack.exec Crates.literals (.prune now)).2
    (clockBack.readAfter Crates.literals now "room" none 10).toOption.map List.length = some 0 ∧
      (pruned.readAfter Crates.literals now "room" none 10).toOption.map List.length = some 1 :=
  ⟨rfl, by decide +kernel⟩

end Tako.Channel
