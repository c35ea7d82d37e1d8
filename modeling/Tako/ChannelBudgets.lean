import Tako.ChannelCounters
import Tako.ChannelIngest

/-! The replay budgets, and the loops that delete the oldest rows until they hold. -/
namespace Tako.Channel
open Relational Fallible List
open Tako.Workflow (i64Max JsonLiteral)
variable {E : Crates} {event : ChannelEvent E} {message : ChannelMessage E} {epoch : Bytes16}
  {now : UnixMs} {s : SqliteChannelStore} {db db' db₁ db₂ : ChannelDb}
  {limits limits' : SqliteReplayLimits}
namespace SqliteReplayLimits
def perStream (l : SqliteReplayLimits) : ℤ × ℤ := (l.maxMessagesPerStream, l.maxBytesPerStream)

def overall (l : SqliteReplayLimits) : ℤ × ℤ := (l.maxMessages, l.maxBytes)

theorem pos_of_validate (h : limits.validate = .ok limits') :
    0 < limits.maxMessagesPerStream ∧ 0 < limits.maxMessages := by
  unfold validate at h
  simp only at h
  split at h
  · cases h
  · rename_i hbounds
    simp at hbounds
    omega
end SqliteReplayLimits

variable {file : Option ChannelDb}
namespace ChannelDb
/-- Some of the oldest rows with `p` are gone, but not the newest one if it fits
into `maxBytes`. -/
structure Evicts (p : MessageRow → Prop) [DecidablePred p] (maxBytes : ℤ) (db db' : ChannelDb) :
    Prop where
  oldest : ∃ a, db'.messages.rows = db.messages.rows.filter (fun r => ¬(p r ∧ r.id ≤ a))
  newest : ∀ r ∈ db.messages.rows, p r → (∀ r' ∈ db.messages.rows, p r' → r'.id ≤ r.id) →
    r.bytes ≤ maxBytes → r ∈ db'.messages.rows

namespace Evicts
variable {p : MessageRow → Prop} [DecidablePred p] {maxBytes : ℤ}
theorem refl (db : ChannelDb) : Evicts p maxBytes db db where
  oldest := by
    refine ⟨0, (filter_eq_self.mpr ?_).symm⟩
    intro r hr
    have hpos := db.messages.id_pos r hr
    apply decide_eq_true
    intro h
    omega
  newest r hr _ _ _ := hr

theorem sublist (h : Evicts p maxBytes db db₁) : db₁.messages.rows.Sublist db.messages.rows := by
  obtain ⟨a, ha⟩ := h.oldest
  rw [ha]
  exact filter_sublist

theorem trans (h : Evicts p maxBytes db db₁) (h' : Evicts p maxBytes db₁ db₂) :
    Evicts p maxBytes db db₂ where
  oldest := by
    obtain ⟨a, ha⟩ := h.oldest
    obtain ⟨b, hb⟩ := h'.oldest
    refine ⟨max a b, ?_⟩
    rw [hb, ha, filter_filter]
    apply filter_congr
    intro r _
    rw [Bool.eq_iff_iff]
    simp only [Bool.and_eq_true, decide_eq_true_eq, le_max_iff]
    tauto
  newest r hr hp hnewest hbytes := by
    have hr₁ := h.newest r hr hp hnewest hbytes
    exact h'.newest r hr₁ hp (fun r' hr' => hnewest r' (h.sublist.subset hr')) hbytes
end Evicts

theorem exists_deleteOldest (db : ChannelDb) (p : MessageRow → Prop) [DecidablePred p]
    {limit : ℤ × ℤ} (hcount : 0 < limit.1) (hbytes : 0 ≤ limit.2)
    (hover : ¬tally MessageRow.bytes (db.messages.select p) ≤ limit) : ∃ db₁, db.deleteOldest p
        (max ((tally MessageRow.bytes (db.messages.select p)).1 - limit.1) 1).toNat = some db₁ ∧
      Evicts p limit.2 db db₁ ∧ (db₁.messages.select p).length < (db.messages.select p).length := by
  set rows := db.messages.select p with hrows
  set n := (max ((tally MessageRow.bytes rows).1 - limit.1) 1).toNat with hn
  have hlength : (tally MessageRow.bytes rows).1 = rows.length := rfl
  have hsome : rows ≠ [] := by
    intro hnil
    apply hover
    rw [hnil, tally_nil]
    exact ⟨hcount.le, hbytes⟩
  have htake : rows.take n ≠ [] := by
    intro hnil
    obtain _ | hempty := take_eq_nil_iff.mp hnil
    · omega
    · exact hsome hempty
  have hdelete : db.deleteOldest p n =
      some (db.deleteMessages (fun r => r.id ∈ (rows.take n).map MessageRow.id)) := by
    unfold deleteOldest
    simp only [← hrows, map_eq_nil_iff, if_neg htake]
  obtain ⟨a, ha, hnewest⟩ := db.messages.exists_oldest p n htake
  refine ⟨_, hdelete, ⟨⟨a, ?_⟩, ?_⟩, ?_⟩
  · rw [rows_deleteMessages]
    apply filter_congr
    intro r hr
    rw [decide_eq_decide]
    exact not_congr (ha r hr)
  · intro r hr hp hlast hfits
    -- either more rows than the limit are there, or the newest is not alone
    have hleft : n < rows.length := by
      by_contra hall
      have hpos := length_pos_iff.mpr hsome
      have hone : rows.length = 1 := by omega
      obtain ⟨_, hr'⟩ := length_eq_one_iff.mp hone
      have hmem : r ∈ rows := db.messages.mem_select.mpr ⟨hr, hp⟩
      rw [hr'] at hmem
      apply hover
      rw [hr', ← mem_singleton.mp hmem, tally_singleton]
      exact ⟨hcount, hfits⟩
    have hlt := hnewest hleft r hr hp hlast
    rw [rows_deleteMessages]
    apply mem_filter.mpr
    refine ⟨hr, decide_eq_true ?_⟩
    rw [ha r hr]
    omega
  · rw [AutoTable.select, rows_deleteMessages, filter_comm]
    apply length_filter_lt_length_iff_exists.mpr
    obtain ⟨r, hr⟩ := exists_mem_of_ne_nil _ htake
    refine ⟨r, mem_of_mem_take hr, ?_⟩
    have hid : r.id ∈ (rows.take n).map MessageRow.id := mem_map_of_mem hr
    simpa using hid

theorem counted_step (db : ChannelDb) (p : MessageRow → Prop) [DecidablePred p] (h : Counted db) :
    Counted (db.deleteMessages p) := h.deleteMessages p

/-- A loop that stops within its limit and otherwise deletes what is over it. -/
structure BudgetLoop (p : MessageRow → Prop) [DecidablePred p] (limit : ℤ × ℤ)
    (loop : ℕ → ChannelDb → ChannelDb) : Prop where
  count_pos : 0 < limit.1
  bytes_nonneg : 0 ≤ limit.2
  stop : ∀ db, Counted db → tally MessageRow.bytes (db.messages.select p) ≤ limit →
    ∀ rounds, loop rounds db = db
  next : ∀ db db₁, Counted db → ¬tally MessageRow.bytes (db.messages.select p) ≤ limit →
    db.deleteOldest p
      (max ((tally MessageRow.bytes (db.messages.select p)).1 - limit.1) 1).toNat = some db₁ →
    ∀ rounds, loop (rounds + 1) db = loop rounds db₁

namespace BudgetLoop
variable {p : MessageRow → Prop} [DecidablePred p] {limit : ℤ × ℤ}
  {loop : ℕ → ChannelDb → ChannelDb}

/-- The loop deletes until the tally fits; a further round changes nothing. -/
theorem ends (h : BudgetLoop p limit loop) (rounds : ℕ) (db : ChannelDb) (hcounted : Counted db)
    (hrounds : (db.messages.select p).length ≤ rounds) :
    Counted (loop rounds db) ∧ Evicts p limit.2 db (loop rounds db) ∧
      tally MessageRow.bytes ((loop rounds db).messages.select p) ≤ limit ∧
      loop (rounds + 1) db = loop rounds db := by
  induction rounds generalizing db with
  | zero =>
    have hfits : tally MessageRow.bytes (db.messages.select p) ≤ limit := by
      have hnil : db.messages.select p = [] := length_eq_zero_iff.mp (by omega)
      rw [hnil, tally_nil]
      exact ⟨h.count_pos.le, h.bytes_nonneg⟩
    rw [h.stop db hcounted hfits, h.stop db hcounted hfits]
    exact ⟨hcounted, Evicts.refl db, hfits, rfl⟩
  | succ _ ih =>
    by_cases hfits : tally MessageRow.bytes (db.messages.select p) ≤ limit
    · rw [h.stop db hcounted hfits, h.stop db hcounted hfits]
      exact ⟨hcounted, Evicts.refl db, hfits, rfl⟩
    · obtain ⟨db₁, hdelete, hevicts, _⟩ :=
        exists_deleteOldest db p h.count_pos h.bytes_nonneg hfits
      have hcounted₁ := deleteOldest_induction counted_step hcounted hdelete
      obtain ⟨hc, he, hf, hstable⟩ := ih db₁ hcounted₁ (by omega)
      rw [h.next db db₁ hcounted hfits hdelete, h.next db db₁ hcounted hfits hdelete]
      exact ⟨hc, hevicts.trans he, hf, hstable⟩

/-- More rounds than rows change nothing: the loop has come to its own end. -/
theorem stable (h : BudgetLoop p limit loop) (hcounted : Counted db) {n m : ℕ}
    (hn : (db.messages.select p).length ≤ n) (hm : n ≤ m) : loop m db = loop n db := by
  induction m, hm using Nat.le_induction with
  | base => rfl
  | succ m hm ih =>
    rw [← ih]
    exact (h.ends m db hcounted (hn.trans hm)).2.2.2
end BudgetLoop

theorem select_true (db : ChannelDb) : db.messages.select (fun _ => True) = db.messages.rows := by
  simp [AutoTable.select]

structure Fits (limits : SqliteReplayLimits) (db : ChannelDb) : Prop where
  stream : ∀ channel, tally MessageRow.bytes (db.stream channel) ≤ limits.perStream
  store : tally MessageRow.bytes db.messages.rows ≤ limits.overall

theorem tally_stream_le (h : db'.messages.rows.Sublist db.messages.rows) (channel : String) :
    tally MessageRow.bytes (db'.stream channel) ≤ tally MessageRow.bytes (db.stream channel) :=
  tally_le_of_sublist MessageRow.bytes_nonneg (h.filter _)

theorem sublist_step (rows : List MessageRow) (db : ChannelDb) (p : MessageRow → Prop)
    [DecidablePred p] (h : db.messages.rows.Sublist rows) :
    (db.deleteMessages p).messages.rows.Sublist rows := by
  rw [rows_deleteMessages]
  exact filter_sublist.trans h

section
variable (hlimits : limits.validate = .ok limits')
include hlimits
theorem streamBudgetLoop_budgetLoop (channel : String) :
    BudgetLoop (fun r => r.channel = channel) limits.perStream
      (streamBudgetLoop limits channel) where
  count_pos := by
    have hpos := (SqliteReplayLimits.pos_of_validate hlimits).1
    exact Int.natCast_pos.mpr hpos
  bytes_nonneg := Int.natCast_nonneg _
  stop db hcounted hfits rounds := by
    cases rounds with
    | zero => rfl
    | succ rounds =>
      unfold streamBudgetLoop
      split
      · rfl
      · rename_i m hget
        have husage : m.usage ≤ limits.perStream := by
          rw [hcounted.stream channel m hget]
          exact hfits
        simp only
        rw [if_pos ⟨sub_nonpos.mpr husage.1, husage.2⟩]
  next db db₁ hcounted hover hdelete rounds := by
    cases hget : db.metadata.get? channel with
    | none =>
      have hnil : db.messages.select (fun r => r.channel = channel) = [] :=
        hcounted.stream_eq_nil hget
      rw [hnil, tally_nil] at hover
      exact absurd ⟨Int.natCast_nonneg _, Int.natCast_nonneg _⟩ hover
    | some m =>
      have husage : m.usage = tally MessageRow.bytes
          (db.messages.select (fun r => r.channel = channel)) := hcounted.stream channel m hget
      rw [← husage] at hover hdelete
      rw [streamBudgetLoop, hget]
      simp only
      rw [if_neg]
      · have hdelete' : db.deleteOldest (fun r => r.channel = channel)
            (max (m.messageCount - limits.maxMessagesPerStream) 1).toNat = some db₁ := hdelete
        rw [hdelete']
      · intro hwithin
        exact hover ⟨sub_nonpos.mp hwithin.1, hwithin.2⟩

theorem storeBudgetLoop_budgetLoop :
    BudgetLoop (fun _ => True) limits.overall (storeBudgetLoop limits) where
  count_pos := by
    have hpos := (SqliteReplayLimits.pos_of_validate hlimits).2
    exact Int.natCast_pos.mpr hpos
  bytes_nonneg := Int.natCast_nonneg _
  stop db hcounted hfits rounds := by
    cases rounds with
    | zero => rfl
    | succ =>
      have husage : db.storeState.usage ≤ limits.overall := by
        rw [hcounted.store, ← select_true]
        exact hfits
      unfold storeBudgetLoop
      simp only
      rw [if_pos ⟨sub_nonpos.mpr husage.1, husage.2⟩]
  next db db₁ hcounted hover hdelete rounds := by
    rw [select_true, ← hcounted.store] at hover hdelete
    rw [storeBudgetLoop, if_neg]
    · have hdelete' : db.deleteOldest (fun _ => True)
          (max (db.storeState.messageCount - limits.maxMessages) 1).toNat = some db₁ := hdelete
      rw [hdelete']
    · intro hwithin
      exact hover ⟨sub_nonpos.mp hwithin.1, hwithin.2⟩

variable (hcounted : Counted db)
include hcounted
theorem enforceStreamBudget_spec (channel : String) :
    Counted (db.enforceStreamBudget limits channel) ∧
      Evicts (fun r => r.channel = channel) limits.maxBytesPerStream db
        (db.enforceStreamBudget limits channel) ∧
      tally MessageRow.bytes ((db.enforceStreamBudget limits channel).stream channel) ≤
        limits.perStream := by
  have hloop := streamBudgetLoop_budgetLoop hlimits channel
  obtain ⟨hc, he, hf, _⟩ := hloop.ends db.messages.rows.length db hcounted
    (length_filter_le _ _)
  exact ⟨hc, he, hf⟩

theorem enforceStoreBudget_spec : Counted (db.enforceStoreBudget limits) ∧
      Evicts (fun _ => True) limits.maxBytes db (db.enforceStoreBudget limits) ∧
      tally MessageRow.bytes (db.enforceStoreBudget limits).messages.rows ≤ limits.overall := by
  have hloop := storeBudgetLoop_budgetLoop hlimits
  obtain ⟨hc, he, hf, _⟩ := hloop.ends db.messages.rows.length db hcounted
    (length_filter_le _ _)
  rw [select_true] at hf
  exact ⟨hc, he, hf⟩

theorem enforceStreamBudgets_spec (l : List ChannelMetadata) : ∀ m ∈ l, tally MessageRow.bytes
      ((l.foldl (fun db m => db.enforceStreamBudget limits m.channel) db).stream m.channel) ≤
        limits.perStream := by
  induction l generalizing db with
  | nil =>
    intro m hm
    cases hm
  | cons m l ih =>
    obtain ⟨hcounted', _, hfits⟩ := enforceStreamBudget_spec hlimits hcounted m.channel
    intro m' hm'
    obtain rfl | hm' := mem_cons.mp hm'
    · have hrest := enforceStreamBudgets_induction
        (sublist_step (db.enforceStreamBudget limits m'.channel).messages.rows)
        (List.Sublist.refl _) limits l
      exact (tally_stream_le hrest m'.channel).trans hfits
    · exact ih hcounted' m' hm'

/-- After a pruning the store is within its budgets. -/
theorem pruneReplay_spec (now : UnixMs) : Counted (db.pruneReplay limits now) ∧
    Fits limits (db.pruneReplay limits now) := by
  have hage := pruneAge_induction counted_step hcounted limits now
  set aged := db.pruneAge limits now with haged
  set exceeding := aged.metadata.rows.filter (fun m =>
    (limits.maxMessagesPerStream : ℤ) < m.messageCount ∨
      (limits.maxBytesPerStream : ℤ) < m.messageBytes) with hexceeding
  set budgeted := exceeding.foldl (fun db m => db.enforceStreamBudget limits m.channel) aged
    with hbudgeted
  have hcounted₁ : Counted budgeted :=
    enforceStreamBudgets_induction counted_step hage limits exceeding
  have hshrinks : budgeted.messages.rows.Sublist aged.messages.rows :=
    enforceStreamBudgets_induction (sublist_step aged.messages.rows) (List.Sublist.refl _) limits
      exceeding
  -- a stream that is not in the list has no counters or fits already
  have hstreams (channel : String) :
      tally MessageRow.bytes (budgeted.stream channel) ≤ limits.perStream := by
    cases hget : aged.metadata.get? channel with
    | none =>
      have hle := tally_stream_le hshrinks channel
      rw [hage.stream_eq_nil hget, tally_nil] at hle
      exact hle.trans ⟨Int.natCast_nonneg _, Int.natCast_nonneg _⟩
    | some m =>
      have hkey := aged.metadata.get?_key hget
      by_cases hm : m ∈ exceeding
      · rw [← hkey]
        exact enforceStreamBudgets_spec hlimits hage exceeding m hm
      · have hmem : m ∈ aged.metadata.rows := (aged.metadata.get?_eq_some.mp hget).1
        have hfits : m.usage ≤ limits.perStream := by
          have hnot : ¬((limits.maxMessagesPerStream : ℤ) < m.messageCount ∨
              (limits.maxBytesPerStream : ℤ) < m.messageBytes) := by
            intro hexceeds
            exact hm (mem_filter.mpr ⟨hmem, decide_eq_true hexceeds⟩)
          rw [not_or, not_lt, not_lt] at hnot
          exact hnot
        rw [hage.stream channel m hget] at hfits
        exact (tally_stream_le hshrinks channel).trans hfits
  obtain ⟨hcounted₂, hevicts, hstore⟩ := enforceStoreBudget_spec hlimits hcounted₁
  refine ⟨hcounted₂, ?_, hstore⟩
  intro channel
  exact (tally_stream_le hevicts.sublist channel).trans (hstreams channel)
end

structure Balanced (db : ChannelDb) : Prop where
  counted : Counted db
  fits : Fits db.storeState.limits db
  limits : db.storeState.limits.validate = .ok db.storeState.limits

/-- The store after a durable append: the new row is there, what went were the
oldest rows of its stream or of the store, and all budgets hold. -/
structure AppendsWithin (event : ChannelEvent E) (db db' : ChannelDb) : Prop where
  retained : ∃ row ∈ db'.messages.rows, row.id = db.messages.last + 1 ∧
    row.channel = event.channel ∧ row.type = event.payload.type ∧
    row.dataJson = E.json.toStr event.payload.data ∧
    ∃ a b, db'.messages.rows = (db.messages.rows ++ [row]).filter
      (fun r => ¬(r.channel = event.channel ∧ r.id ≤ a) ∧ ¬r.id ≤ b)
  fits : Fits db.storeState.limits db'

theorem AppendsWithin.of_eq (h : AppendsWithin event db₁ db₂)
    (hmessages : db₁.messages = db.messages) (hstore : db₁.storeState = db.storeState)
    (hmessages' : db'.messages = db₂.messages) : AppendsWithin event db db' := by
  cases db
  cases db'
  cases hmessages
  cases hstore
  cases hmessages'
  exact ⟨h.retained, h.fits.stream, h.fits.store⟩

theorem appendsWithin_enforceBudgets
    (hlimits : db.storeState.limits.validate = .ok limits) (hfits : Fits db.storeState.limits db)
    {row : MessageRow} (happ : Appends db db₁ row event.id) (hcounted : Counted db₁)
    (hchannel : row.channel = event.channel) (htype : row.type = event.payload.type)
    (hdata : row.dataJson = E.json.toStr event.payload.data)
    (hbytes : row.bytes ≤ db.storeState.limits.maxBytesPerStream ∧
      row.bytes ≤ db.storeState.limits.maxBytes) :
    Counted ((db₁.enforceStreamBudget db.storeState.limits event.channel).enforceStoreBudget
      db.storeState.limits) ∧
    AppendsWithin event db
      ((db₁.enforceStreamBudget db.storeState.limits event.channel).enforceStoreBudget
      db.storeState.limits) := by
  obtain ⟨hcounted₂, hevicts₂, hstream⟩ := enforceStreamBudget_spec hlimits hcounted event.channel
  set db₂ := db₁.enforceStreamBudget db.storeState.limits event.channel with hdb₂
  obtain ⟨hcounted₃, hevicts₃, hstore⟩ := enforceStoreBudget_spec hlimits hcounted₂
  set db₃ := db₂.enforceStoreBudget db.storeState.limits with hdb₃
  -- the new row has the largest id, so both loops keep it
  have hnewest : ∀ r ∈ db₁.messages.rows, r.id ≤ row.id := by
    intro r hr
    have hle := db₁.messages.le_last r hr
    rw [happ.last] at hle
    rw [happ.id]
    exact hle
  have hrow₁ : row ∈ db₁.messages.rows := by
    rw [happ.rows]
    exact mem_append_right _ (mem_singleton_self row)
  have hrow₂ : row ∈ db₂.messages.rows :=
    hevicts₂.newest row hrow₁ hchannel (fun r hr _ => hnewest r hr) hbytes.1
  have hrow₃ : row ∈ db₃.messages.rows :=
    hevicts₃.newest row hrow₂ trivial (fun r hr _ => hnewest r (hevicts₂.sublist.subset hr))
      hbytes.2
  obtain ⟨a, ha⟩ := hevicts₂.oldest
  obtain ⟨b, hb⟩ := hevicts₃.oldest
  refine ⟨hcounted₃, ⟨row, hrow₃, happ.id, hchannel, htype, hdata, a, b, ?_⟩, ?_, hstore⟩
  · rw [hb, ha, happ.rows, filter_filter]
    apply filter_congr
    intro r _
    rw [Bool.eq_iff_iff]
    simp only [Bool.and_eq_true, decide_eq_true_eq]
    tauto
  · intro channel
    refine (tally_stream_le hevicts₃.sublist channel).trans ?_
    by_cases hc : channel = event.channel
    · rw [hc]
      exact hstream
    · -- another stream has no new row
      have hother : db₁.stream channel = db.stream channel := by
        have hne : ¬row.channel = channel := fun h => hc (h.symm.trans hchannel)
        rw [stream, AutoTable.select, happ.rows, filter_append]
        simp [hne, stream, AutoTable.select]
      have hle := tally_stream_le hevicts₂.sublist channel
      rw [hother] at hle
      exact hle.trans (hfits.stream channel)

theorem revealGap_kept (db : ChannelDb) (id : ChannelEventId) (epoch : Bytes16) :
    (db.revealGap id epoch).messages = db.messages ∧
      (db.revealGap id epoch).storeState = db.storeState := by
  unfold revealGap
  split <;> exact ⟨rfl, rfl⟩

theorem limits_appendEvent (h : db.appendEvent E epoch event now = .ok (message, db')) :
    db'.storeState.limits = db.storeState.limits := by
  obtain ⟨_, rfl, _⟩ | ⟨_, _, _, hretires, happ⟩ := appendEvent_eq_ok h
  · rfl
  · exact hretires.limits.trans happ.limits

theorem appendsWithin_appendEvent (h : Balanced db)
    (hok : db.appendEvent E epoch event now = .ok (message, db'))
    (hdurable : event.ephemeral = false) : Counted db' ∧ AppendsWithin event db db' := by
  unfold appendEvent at hok
  rw [hdurable] at hok
  simp only [Bool.false_eq_true, if_false] at hok
  obtain ⟨limits, hload, hok⟩ := bind_eq_ok hok
  obtain rfl := validate_eq_ok hload
  split at hok
  · cases hok
  · rename_i hsize
    obtain ⟨⟨_, _⟩, hmessage, hok⟩ := bind_eq_ok hok
    obtain ⟨_, hevent, hok⟩ := bind_eq_ok hok
    obtain ⟨_, rfl⟩ := ok_pair_inj hok
    refine appendsWithin_enforceBudgets hload h.fits (appends_of_ok hmessage hevent)
      (counted_of_ok h.counted hmessage hevent) rfl rfl rfl ?_
    unfold MessageRow.bytes
    simp only at hsize ⊢
    omega

theorem balanced_appendEvent (h : Balanced db)
    (hok : db.appendEvent E epoch event now = .ok (message, db')) : Balanced db' := by
  have hlimits := limits_appendEvent hok
  cases hephemeral : event.ephemeral with
  | true =>
    obtain ⟨_, rfl, _⟩ | ⟨hdurable, _⟩ := appendEvent_eq_ok hok
    · exact h
    · rw [hephemeral] at hdurable
      cases hdurable
  | false =>
    obtain ⟨hcounted, hwithin⟩ := appendsWithin_appendEvent h hok hephemeral
    refine ⟨hcounted, ?_, ?_⟩
    · rw [hlimits]
      exact hwithin.fits
    · rw [hlimits]
      exact h.limits

theorem balanced_pruneReplay (hcounted : Counted db) (hload : db.loadLimits = .ok limits)
    (now : UnixMs) : Balanced (db.pruneReplay limits now) := by
  obtain rfl := validate_eq_ok hload
  have hlimits := (retires_pruneReplay db db.storeState.limits now).limits
  obtain ⟨hcounted', hfits⟩ := pruneReplay_spec hload hcounted now
  refine ⟨hcounted', ?_, ?_⟩
  · rw [hlimits]
    exact hfits
  · rw [hlimits]
    exact hload

theorem balanced_initConnection (hfile : ∀ db ∈ file, Counted db)
    {limits : Option SqliteReplayLimits} (h : initConnection file limits now epoch = .ok db) :
    Balanced db := by
  obtain ⟨_, hload, h⟩ := bind_eq_ok h
  rw [← Except.ok.inj h]
  have hstart : Counted (file.getD (created epoch)) := by
    cases file with
    | none => exact Counted.created epoch
    | some db => exact hfile db rfl
  have hcounted := hstart.raiseLatest.ensureBudgetCounters
  cases limits with
  | none => exact balanced_pruneReplay hcounted hload now
  | some limits =>
    have hset : Counted ((file.getD (created epoch)).raiseLatest.ensureBudgetCounters.setLimits
        limits) := hcounted.of_eq rfl rfl fun _ => rfl
    exact balanced_pruneReplay hset hload now
end ChannelDb

variable {result : ChannelResult E} {s' : SqliteChannelStore} {call : ChannelCall E}
namespace SqliteChannelStore
variable {limits : Option SqliteReplayLimits}
theorem balanced_openFile (hfile : ∀ db ∈ file, db.Counted)
    (h : openFile file limits now epoch = .ok s) : s.db.Balanced := by
  obtain ⟨_, _, h⟩ := bind_eq_ok h
  obtain ⟨_, hinit, h⟩ := bind_eq_ok h
  cases h
  exact ChannelDb.balanced_initConnection hfile hinit

theorem balanced_nextSequence (h : db.Balanced) :
    ChannelDb.Balanced { db with eventSequence := db.eventSequence + 1 } :=
  ⟨{ h.counted with }, { h.fits with }, h.limits⟩

theorem balanced_revealGap (h : db.Balanced) (id : ChannelEventId) (epoch : Bytes16) :
    (db.revealGap id epoch).Balanced := by
  unfold ChannelDb.revealGap
  split
  · exact ⟨{ h.counted with }, { h.fits with }, h.limits⟩
  · exact h

theorem Does.balanced (hdoes : Does s call result s') (h : s.db.Balanced) : s'.db.Balanced := by
  cases hdoes with
  | fails | ignores | reads | resumes => exact h
  | publishes _ happend => exact ChannelDb.balanced_appendEvent (balanced_nextSequence h) happend
  | @ingests _ event epoch _ _ hingests =>
    obtain ⟨_, _, happend, rfl, _⟩ := hingests.appends
    have happended := ChannelDb.balanced_appendEvent (balanced_revealGap h event.id epoch) happend
    exact ⟨{ happended.counted with }, { happended.fits with }, happended.limits⟩
  | syncs now channel auth =>
    exact ⟨h.counted.syncChannel now channel auth, ⟨h.fits.stream, h.fits.store⟩, h.limits⟩
  | @prunes now _ hload => exact ChannelDb.balanced_pruneReplay h.counted hload now
  | rotates => exact ⟨{ h.counted with }, { h.fits with }, h.limits⟩
  | reopens hopen =>
    refine balanced_openFile (fun db hdb => ?_) hopen
    rw [← Option.some.inj hdb]
    exact h.counted

theorem balanced_after (h : openFile none limits now epoch = .ok s) (calls : List (ChannelCall E)) :
    (after E s calls).db.Balanced := by
  have hopened : s.db.Balanced := balanced_openFile (fun db hdb => by cases hdb) h
  exact Execution.after_induction (P := fun s => s.db.Balanced) (exec E) s calls hopened
    fun call _ s hs => (does_exec call s).balanced hs

def exceeds (E : Crates) (s : SqliteChannelStore) (channel : String)
    (payload : ChannelPublishPayload E) : Prop :=
  let bytes := channel.utf8ByteSize + payload.type.utf8ByteSize +
    (E.json.toStr payload.data).utf8ByteSize
  s.db.storeState.limits.maxBytes < bytes ∨ s.db.storeState.limits.maxBytesPerStream < bytes

theorem appendEvent_exceeds (hlimits : db.storeState.limits = s.db.storeState.limits)
    (hdurable : event.ephemeral = false)
    (hexceeds : s.exceeds E event.channel event.payload) {p : ChannelMessage E × ChannelDb} :
    db.appendEvent E epoch event now ≠ .ok p := by
  intro hok
  unfold ChannelDb.appendEvent at hok
  rw [hdurable] at hok
  simp only [Bool.false_eq_true, if_false] at hok
  obtain ⟨limits, hload, hok⟩ := bind_eq_ok hok
  obtain rfl := validate_eq_ok hload
  rw [hlimits] at hok
  split at hok
  · cases hok
  · rename_i hfits
    exact hfits hexceeds
end SqliteChannelStore

inductive Appended : ChannelCall E → ChannelResult E → ChannelEvent E → Prop
  | publish {now : UnixMs} {channel : String} {payload : ChannelPublishPayload E}
      {message : ChannelMessage E} {event : ChannelEvent E} :
      Appended (.publish now channel payload false) (.ok (.published message event)) event
  | ingestRemote {now : UnixMs} {event : ChannelEvent E} {epoch : Bytes16}
      {message : ChannelMessage E} (hdurable : event.ephemeral = false) :
      Appended (.ingestRemote now event epoch) (.ok (.ingested (some message))) event

structure BudgetsHold (s : SqliteChannelStore) (calls : List (ChannelCall E)) : Prop where
  counted : (s.after E calls).db.Counted
  appended : ∀ call event,
    Appended call (SqliteChannelStore.exec E call (s.after E calls)).1 event →
    ChannelDb.AppendsWithin event (s.after E calls).db
      (SqliteChannelStore.exec E call (s.after E calls)).2.db
  publish_exceeding : ∀ now channel payload, (s.after E calls).exceeds E channel payload →
    ∃ e, SqliteChannelStore.exec E (.publish now channel payload false) (s.after E calls) =
      (.error e, s.after E calls)
  ingest_exceeding : ∀ now event epoch, event.ephemeral = false →
    (s.after E calls).exceeds E event.channel event.payload →
    (∃ e, SqliteChannelStore.exec E (.ingestRemote now event epoch) (s.after E calls) =
        (.error e, s.after E calls)) ∨
      SqliteChannelStore.exec E (.ingestRemote now event epoch) (s.after E calls) =
        (.ok (.ingested none), s.after E calls)

namespace SqliteChannelStore
theorem Does.appendsWithin (hdoes : Does s call result s') (h : s.db.Balanced)
    (happended : Appended call result event) :
    ChannelDb.AppendsWithin event s.db s'.db := by
  cases happended with
  | publish =>
    cases hdoes with
    | publishes hevent happend =>
      have hdurable : event.ephemeral = false := by rw [hevent]
      have hwithin := ChannelDb.appendsWithin_appendEvent (balanced_nextSequence h) happend hdurable
      exact hwithin.2.of_eq rfl rfl rfl
  | @ingestRemote _ _ epoch _ hdurable =>
    cases hdoes with
    | ingests hingests =>
      obtain ⟨_, _, happend, rfl, _⟩ := hingests.appends
      have hwithin := ChannelDb.appendsWithin_appendEvent
        (balanced_revealGap h event.id epoch) happend hdurable
      obtain ⟨hmessages, hstore⟩ := ChannelDb.revealGap_kept s.db event.id epoch
      exact hwithin.2.of_eq hmessages hstore rfl

theorem publish_exceeds {channel : String} {payload : ChannelPublishPayload E}
    (hexceeds : s.exceeds E channel payload) (now : UnixMs) :
    ∃ e, exec E (.publish now channel payload false) s = (.error e, s) := by
  rw [exec]
  cases hp : s.publish E now channel payload false with
  | error e => exact ⟨e, rfl⟩
  | ok p =>
    obtain ⟨⟨_, _⟩, db⟩ := p
    obtain ⟨rfl, happend⟩ := publish_eq_ok hp
    have hlimits : ({ s.db with eventSequence := s.db.eventSequence + 1 } :
        ChannelDb).storeState.limits = s.db.storeState.limits := rfl
    exact absurd happend (appendEvent_exceeds hlimits rfl hexceeds)

theorem ingestRemote_exceeds (hdurable : event.ephemeral = false)
    (hexceeds : s.exceeds E event.channel event.payload) (now : UnixMs) (epoch : Bytes16) :
    (∃ e, exec E (.ingestRemote now event epoch) s = (.error e, s)) ∨
      exec E (.ingestRemote now event epoch) s = (.ok (.ingested none), s) := by
  rw [exec]
  cases hp : s.ingestRemote E now event epoch with
  | error e => exact .inl ⟨e, rfl⟩
  | ok p =>
    obtain ⟨_, db⟩ := p
    obtain ⟨rfl, rfl⟩ | ⟨m, rfl, hingests⟩ := ingestRemote_eq_ok hp
    · exact .inr rfl
    · obtain ⟨_, _, happend, _⟩ := hingests.appends
      have hlimits := congrArg StoreState.limits (ChannelDb.revealGap_kept s.db event.id epoch).2
      exact absurd happend (appendEvent_exceeds hlimits hdurable hexceeds)
end SqliteChannelStore

/-- Whatever was published, ingested and pruned under whatever valid limits: the
counters are exact, a durable append ends within every budget with its own row
still there, a message that cannot fit is refused without a trace, and the two
loops end by themselves, since more rounds than there are rows change nothing. -/
theorem replay_budgets_hold {limits : Option SqliteReplayLimits} {now : UnixMs} {epoch : Bytes16}
    {s : SqliteChannelStore} (hopen : SqliteChannelStore.openFile none limits now epoch = .ok s)
    (calls : List (ChannelCall E)) :
    BudgetsHold s calls ∧
      ∀ db : ChannelDb, db.Counted → ∀ limits : SqliteReplayLimits, limits.validate = .ok limits →
        ∀ channel rounds, db.messages.rows.length ≤ rounds →
          ChannelDb.streamBudgetLoop limits channel rounds db =
              db.enforceStreamBudget limits channel ∧
            ChannelDb.storeBudgetLoop limits rounds db = db.enforceStoreBudget limits := by
  have hbalanced := SqliteChannelStore.balanced_after (E := E) hopen calls
  refine ⟨⟨hbalanced.counted, ?_, ?_, ?_⟩, ?_⟩
  · intro _ event happended
    exact (SqliteChannelStore.does_exec _ _).appendsWithin hbalanced happended
  · intro now channel _ hexceeds
    exact SqliteChannelStore.publish_exceeds hexceeds now
  · intro now _ epoch hdurable hexceeds
    exact SqliteChannelStore.ingestRemote_exceeds hdurable hexceeds now epoch
  · intro _ hcounted _ hlimits channel _ hrounds
    have hstream := ChannelDb.streamBudgetLoop_budgetLoop hlimits channel
    have hstore := ChannelDb.storeBudgetLoop_budgetLoop hlimits
    refine ⟨hstream.stable hcounted ?_ hrounds, hstore.stable hcounted ?_ hrounds⟩
    · exact length_filter_le _ _
    · exact length_filter_le _ _

theorem replay_budgets_hold_twoPerStream :
    SqliteChannelStore.openFile none (some ⟨2, 1000, 1000, 1000, 0⟩) .epoch zeroEpoch =
        .ok twoPerStream ∧
      BudgetsHold twoPerStream [note, note, note] := by
  have hopen : SqliteChannelStore.openFile none (some ⟨2, 1000, 1000, 1000, 0⟩) .epoch zeroEpoch =
      .ok twoPerStream := rfl
  exact ⟨hopen, (replay_budgets_hold hopen [note, note, note]).1⟩

end Tako.Channel
