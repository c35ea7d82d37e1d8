import Tako.WorkflowPostgres
import Tako.WorkflowSqliteRefinement

/-! The Postgres backend on one app's rows. Under the queue's invariant each
operation does there what the SQLite backend does, and leaves the other apps
alone. -/
namespace Tako.Workflow
open Relational List
variable {J : JsonCodec}
def Call.texts : Call J → List String
  | .enqueue _ nanoid name _ opts => [opts.id.getD nanoid, name]
  | .claim _ workerId names _ => workerId :: names
  | .heartbeat _ id workerId _ => [id, workerId]
  | .saveStep _ runId workerId stepName _ => [runId, workerId, stepName]
  | .complete _ id workerId => [id, workerId]
  | .cancel _ id workerId reason => [id, workerId] ++ reason.toList
  | .fail _ id workerId error _ _ => [id, workerId, error]
  | .defer id workerId _ => [id, workerId]
  | .waitForEvent runId workerId stepName eventName _ => [runId, workerId, stepName, eventName]
  | .signal _ eventName _ => [eventName]
  | .replaceSchedules _ specs => specs.map ScheduleSpec.name ++ specs.map ScheduleSpec.cron
  | .setScheduleLastRunAt name _ => [name]
  | _ => []

/-- The calls that Postgres turns down before it looks at the run. -/
def postgresRejects (appId : String) (c : Call J) (e : RunsDbError) : Prop :=
  (e = nulByteError ∧ ¬NulFree (appId :: c.texts)) ∨
    match c with
    | .fail _ _ _ _ none false =>
      e = .unsupportedBackend "fail(finalize=false) requires next_run_at_ms"
    | _ => False

namespace PostgresTables
variable (pg : PostgresTables) (appId : String)
def view : SqliteRunsDb :=
  ⟨pg.runs.part appId, pg.steps.part appId, pg.eventWaiters.part appId, pg.schedules.part appId⟩

/-- `out` does to the rows of `appId` what `sql` does, and nothing else. -/
structure ActsOn (pg : PostgresTables) (appId : String) (out : Result J × PostgresTables)
    (sql : Result J × SqliteRunsDb) : Prop where
  reply : out.1 = sql.1
  app : out.2.view appId = sql.2
  others : ∀ b, b ≠ appId → out.2.view b = pg.view b

/-- The server either turns the texts down or the operation goes through. -/
def Outcome (c : Call J) (out : Result J × PostgresTables) (sql : Result J × SqliteRunsDb) : Prop :=
  (out = (.error nulByteError, pg) ∧ ¬NulFree (appId :: c.texts)) ∨ pg.ActsOn appId out sql

structure Sets (pg : PostgresTables) (appId : String) (db : SqliteRunsDb) (pg' : PostgresTables) :
    Prop where
  runs : pg.runs.PartSet appId db.runs pg'.runs
  steps : pg.steps.PartSet appId db.steps pg'.steps
  eventWaiters : pg.eventWaiters.PartSet appId db.eventWaiters pg'.eventWaiters
  schedules : pg.schedules.PartSet appId db.schedules pg'.schedules

variable {c : Call J}
theorem bind_outcome {pg : PostgresTables} {appId : String} {params : List String}
    {rest : Result J × PostgresTables} {sql : Result J × SqliteRunsDb}
    (hp : ∀ s ∈ params, s ∈ appId :: c.texts ∨ ∃ v, s = J.toStr v)
    (h : pg.Outcome appId c rest sql) : pg.Outcome appId c (pg.bind params rest) sql := by
  unfold bind
  split
  · exact h
  · rename_i hn
    refine .inl ⟨rfl, fun ht => hn fun s hs => ?_⟩
    obtain hs | ⟨v, rfl⟩ := hp s hs
    · exact ht s hs
    -- a printed value is the one text that no caller chooses
    · exact J.nul_not_mem_toStr v

theorem read_outcome {pg : PostgresTables} {appId : String} {r s : Result J} (h : r = s) :
    pg.Outcome appId c (r, pg) (s, pg.view appId) :=
  .inr ⟨h, rfl, fun _ _ => rfl⟩

section
variable {pg pg' : PostgresTables} {appId : String} {db : SqliteRunsDb} (h : pg.Sets appId db pg')
include h
theorem Sets.views : db = pg'.view appId ∧ ∀ b, b ≠ appId → pg'.view b = pg.view b := by
  refine ⟨?_, fun b hb => ?_⟩
  · rw [view, h.runs.own, h.steps.own, h.eventWaiters.own, h.schedules.own]
  · rw [view, h.runs.others b hb, h.steps.others b hb, h.eventWaiters.others b hb,
      h.schedules.others b hb, view]

theorem Sets.outcome {r : Result J} : pg.Outcome appId c (r, pg') (r, db) :=
  .inr ⟨rfl, h.views.1.symm, h.views.2⟩
end

theorem updateRunning_outcome (id workerId : String) (texts : List String) (f : Run → Run)
    (hf : ∀ r, (f r).id = r.id) (hp : [appId, id, workerId] ++ texts ⊆ appId :: c.texts) :
    pg.Outcome appId c (pg.updateRunning appId id workerId texts f hf)
      ((pg.view appId).updateOwned id workerId f hf) := by
  refine bind_outcome (fun _ hs => .inl (hp hs)) ?_
  have hcount := pg.runs.count_part appId (fun r => r.id = id ∧ r.OwnedBy workerId)
  unfold SqliteRunsDb.updateOwned
  by_cases hz : (pg.runs.part appId).count (fun r => r.id = id ∧ r.OwnedBy workerId) = 0
  · rw [if_pos (hcount.trans hz), if_pos (by exact hz)]
    exact read_outcome rfl
  · rw [if_neg (fun h => hz (hcount.symm.trans h)), if_neg (by exact hz)]
    exact Sets.outcome ⟨.updateWhere .refl _ f hf, .refl, .refl, .refl⟩

variable (now : ClockMs)
theorem enqueue_outcome (nanoid name : String) (payload : J.Value) (opts : EnqueueOpts) :
    pg.Outcome appId (.enqueue now nanoid name payload opts)
      (pg.enqueue appId now nanoid name payload opts)
      ((pg.view appId).enqueue now nanoid name payload opts) := by
  refine bind_outcome ?_ ?_
  · simp [Call.texts]
  · have hget := pg.runs.get?_part appId (opts.id.getD nanoid)
    unfold SqliteRunsDb.enqueue
    cases hg : pg.runs.get? (appId, opts.id.getD nanoid) with
    | none =>
      rw [hg, Option.map_none] at hget
      simp only [view, hget]
      exact Sets.outcome ⟨.insertIgnore .refl _, .refl, .refl, .refl⟩
    | some existing =>
      rw [hg, Option.map_some] at hget
      simp only [view, hget]
      cases checkExistingRun J (opts.id.getD nanoid) name payload existing.row.name
        existing.row.payload with
      | error | ok => exact read_outcome rfl

theorem partSet_materializeExpired (waiters : List EventWaiter)
    (steps : Table (Tagged.tagKey (τ := String) StepRow.key)) :
    steps.PartSet appId (SqliteRunsDb.materializeExpired now (steps.part appId) waiters)
      (materializeExpired appId now steps waiters) :=
  .foldl .refl (fun w _ _ h => h.insertIgnore ⟨w.runId, w.stepName, "null", now.ms⟩) waiters

variable (plan : Planner)
theorem claim_outcome (workerId : String) (names : List String) (leaseMs : ℕ) :
    pg.Outcome (J := J) appId (.claim now workerId names leaseMs)
      (pg.claim plan appId now workerId names leaseMs)
      ((pg.view appId).claim plan now workerId names leaseMs) := by
  unfold claim SqliteRunsDb.claim
  by_cases hn : names = []
  · rw [if_pos hn, if_pos hn]
    exact read_outcome rfl
  · rw [if_neg hn, if_neg hn]
    refine bind_outcome (fun _ => .inl) ?_
    rw [pg.runs.selectPart_eq]
    simp only [view]
    cases hh : (plan.runs.orderByLimit Run.runAt 1
      ((pg.runs.part appId).rows.filter (fun r => r.Claimable now names))).head? with
    | none => exact read_outcome rfl
    | some candidate =>
      dsimp only
      have hsteps := partSet_materializeExpired appId now
        (pg.eventWaiters.selectPart appId (fun w => w.runId = candidate.id ∧ w.Expired now))
          pg.steps
      rw [Table.selectPart_eq] at hsteps
      rw [Table.selectPart_eq, Table.selectPart_eq, hsteps.own]
      exact Sets.outcome ⟨.updateWhere .refl _ _ (SqliteRunsDb.claimRun_id _ _), hsteps,
        .deleteWhere .refl _, .refl⟩

theorem saveStep_outcome (runId workerId stepName : String) (result : J.Value) :
    pg.Outcome appId (.saveStep now runId workerId stepName result)
      (pg.saveStep appId now runId workerId stepName result)
      ((pg.view appId).saveStep now runId workerId stepName result) := by
  rw [SqliteRunsDb.saveStep_eq]
  refine bind_outcome ?_ ?_
  · simp [Call.texts]
  · have hcount := pg.runs.count_part appId (fun r => r.id = runId ∧ r.OwnedBy workerId)
    by_cases hz : (pg.runs.part appId).count (fun r => r.id = runId ∧ r.OwnedBy workerId) = 0
    · rw [if_pos (hcount.trans hz), if_pos (by exact hz)]
      exact read_outcome rfl
    · rw [if_neg (fun h => hz (hcount.symm.trans h)), if_neg (by exact hz)]
      refine bind_outcome ?_ (Sets.outcome ⟨.refl, .insertIgnore .refl _, .refl, .refl⟩)
      simp [Call.texts]

theorem prune_outcome (cutoffMs : ℤ) (limit : ℕ) :
    pg.Outcome (J := J) appId (.pruneFinishedBefore cutoffMs limit)
      (pg.pruneFinishedBefore plan appId cutoffMs limit)
      ((pg.view appId).pruneFinishedBefore plan cutoffMs limit) := by
  refine bind_outcome (by simp) ?_
  rw [pg.runs.selectPart_eq]
  dsimp only
  generalize hpick : plan.runs.orderByLimit (fun r => r.finishedAt.getD 0) limit
    ((pg.runs.part appId).rows.filter (fun r => r.Prunable cutoffMs)) = picked
  rw [(pg.view appId).pruneFinishedBefore_eq plan cutoffMs limit hpick]
  by_cases he : picked.map Run.id = []
  · rw [if_pos he]
    have hnil : picked = [] := map_eq_nil_iff.mp he
    refine .inr ⟨by simp [hnil], ?_, fun _ _ => rfl⟩
    simp only [view]
    congr 1
    · exact (Table.deleteWhere_eq_self _ _ (by simp [he])).symm
    · exact (Table.deleteWhere_eq_self _ _ (by simp [he])).symm
    · exact (Table.deleteWhere_eq_self _ _ (by simp [he])).symm
  · rw [if_neg he, length_map]
    exact Sets.outcome
      ⟨.deleteWhere .refl _, .deleteWhere .refl _, .deleteWhere .refl _, .refl⟩

theorem reclaimExpired_outcome :
    pg.Outcome (J := J) appId (.reclaimExpired now) (pg.reclaimExpired appId now)
      ((pg.view appId).reclaimExpired now) := by
  refine bind_outcome (by simp) ?_
  rw [pg.runs.count_part]
  exact Sets.outcome ⟨.updateWhere .refl _ _ SqliteRunsDb.releaseLease_id, .refl, .refl, .refl⟩

theorem inFlight_outcome :
    pg.Outcome (J := J) appId .inFlightByWorker (pg.inFlightByWorker plan appId)
      ((pg.view appId).inFlightByWorker plan) := by
  refine bind_outcome (by simp) ?_
  rw [pg.runs.selectPart_eq]
  exact read_outcome rfl

theorem signalWaiter_view (eventName payloadJson : String) (n : ℕ) {w : EventWaiter}
    (hw : w ∈ (pg.eventWaiters.part appId).rows) (he : w.eventName = eventName)
    (hr : (pg.runs.part appId).get? w.runId ≠ none) :
    ∃ pg', signalWaiter appId now eventName payloadJson (pg, n) w = (pg', n + 1) ∧
      SqliteRunsDb.signalWaiter now payloadJson (pg.view appId, n) w = .ok (pg'.view appId, n + 1) ∧
      ∀ b, b ≠ appId → pg'.view b = pg.view b := by
  have hz : ¬pg.eventWaiters.count (fun v => v.tag = appId ∧ v.row.runId = w.runId ∧
      v.row.stepName = w.stepName ∧ v.row.eventName = eventName) = 0 := by
    rw [pg.eventWaiters.count_part appId (fun v => v.runId = w.runId ∧ v.stepName = w.stepName ∧
      v.eventName = eventName), Table.count, length_eq_zero_iff, filter_eq_nil_iff]
    intro hn
    exact hn w hw (by simp [he])
  -- the key alone already names the one waiter that is deleted
  have hkey : ∀ v ∈ (pg.view appId).eventWaiters.rows,
      (v.runId = w.runId ∧ v.stepName = w.stepName ∧ v.eventName = eventName) ↔
        (v.runId = w.runId ∧ v.stepName = w.stepName) := by
    intro v hv
    constructor
    · rintro ⟨hi, hs, -⟩
      exact ⟨hi, hs⟩
    · rintro ⟨hi, hs⟩
      have hvw : v = w := Table.key_injOn _ hv hw (by simp only [EventWaiter.key, hi, hs])
      exact ⟨hi, hs, by rw [hvw, he]⟩
  have hfk : ¬((pg.view appId).steps.get? (w.runId, w.stepName) = none ∧
      (pg.view appId).runs.get? w.runId = none) := fun hn => hr hn.2
  simp only [signalWaiter, SqliteRunsDb.signalWaiter, if_neg hz, if_neg hfk]
  refine ⟨_, rfl, ?_⟩
  rw [← Table.deleteWhere_congr _ hkey, Except.ok.injEq, Prod.mk.injEq, eq_self, and_true]
  exact Sets.views ⟨.updateWhere .refl _ _ (by exact fun _ => rfl), .insertIgnore .refl _,
    .deleteWhere .refl _, .refl⟩

/-- The whole loop. The waiters still to come keep their rows and their runs,
because a turn deletes under its own key and no run. -/
theorem foldl_signalWaiter_view (eventName payloadJson : String) (ws : List EventWaiter)
    (pg : PostgresTables) (n : ℕ) (hn : (ws.map EventWaiter.key).Nodup)
    (hw : ∀ w ∈ ws, w ∈ (pg.eventWaiters.part appId).rows ∧ w.eventName = eventName ∧
      (pg.runs.part appId).get? w.runId ≠ none) :
    ws.foldlM (SqliteRunsDb.signalWaiter now payloadJson) (pg.view appId, n) =
        .ok ((ws.foldl (signalWaiter appId now eventName payloadJson) (pg, n)).1.view appId,
          (ws.foldl (signalWaiter appId now eventName payloadJson) (pg, n)).2) ∧ ∀ b, b ≠ appId →
        (ws.foldl (signalWaiter appId now eventName payloadJson) (pg, n)).1.view b = pg.view b := by
  induction ws generalizing pg n with
  | nil => exact ⟨rfl, fun _ _ => rfl⟩
  | cons w ws ih =>
    obtain ⟨hmem, he, hr⟩ := hw w mem_cons_self
    obtain ⟨pg', hpg, hstep, hothers⟩ :=
      pg.signalWaiter_view appId now eventName payloadJson n hmem he hr
    rw [map_cons, nodup_cons] at hn
    have hrest : ∀ v ∈ ws, v ∈ (pg'.eventWaiters.part appId).rows ∧ v.eventName = eventName ∧
        (pg'.runs.part appId).get? v.runId ≠ none := by
      intro v hv
      obtain ⟨hvm, hve, hvr⟩ := hw v (mem_cons_of_mem _ hv)
      have hkeep : ¬(v.runId = w.runId ∧ v.stepName = w.stepName) := by
        rintro ⟨hi, hs⟩
        apply hn.1
        rw [show w.key = v.key by simp only [EventWaiter.key, hi, hs]]
        exact mem_map_of_mem hv
      have hdb := hstep
      simp only [SqliteRunsDb.signalWaiter] at hdb
      rw [if_neg (fun h => hr h.2)] at hdb
      have hview := congrArg Prod.fst (Except.ok.inj hdb)
      dsimp only at hview
      refine ⟨?_, hve, ?_⟩
      · have hwt := congrArg (fun db : SqliteRunsDb => db.eventWaiters.rows) hview
        simp only [view] at hwt
        rw [← hwt]
        exact mem_filter.mpr ⟨hvm, decide_eq_true hkeep⟩
      · have hrt := congrArg (fun db : SqliteRunsDb => db.runs.get? v.runId) hview
        simp only [view, Table.get?_updateWhere] at hrt
        rw [← hrt]
        simpa using hvr
    obtain ⟨hfold, hframe⟩ := ih pg' (n + 1) hn.2 hrest
    rw [foldlM_cons, hstep, foldl_cons, hpg]
    exact ⟨hfold, fun b hb => (hframe b hb).trans (hothers b hb)⟩

theorem hasRunnableWork_outcome :
    pg.Outcome (J := J) appId (.hasRunnableWork now) (pg.hasRunnableWork appId now)
      ((pg.view appId).hasRunnableWork now) := by
  refine bind_outcome (by simp) (read_outcome ?_)
  congr 2
  simp only [view, Table.part, any_map, any_filter]
  congr 1
  funext r
  simp [Bool.decide_and]

theorem replaceSchedules_outcome (specs : List ScheduleSpec) :
    pg.Outcome (J := J) appId (.replaceSchedules now specs) (pg.replaceSchedules appId now specs)
      ((pg.view appId).replaceSchedules now specs) := by
  refine bind_outcome (fun _ => .inl) ?_
  dsimp only
  -- the statement for an empty list deletes what the other one would
  set kept := if specs.map ScheduleSpec.name = [] then
      pg.schedules.deleteWhere (fun r => r.tag = appId)
    else pg.schedules.deleteWhere
      (fun r => r.tag = appId ∧ r.row.name ∉ specs.map ScheduleSpec.name) with hkept
  have hdel : kept = pg.schedules.deleteWhere
      (fun r => r.tag = appId ∧ r.row.name ∉ specs.map ScheduleSpec.name) := by
    rw [hkept]
    split
    · rename_i he
      apply Table.deleteWhere_congr
      intro r _
      simp [he]
    · rfl
  rw [hdel]
  exact Sets.outcome ⟨.refl, .refl, .refl,
    .foldl (.deleteWhere .refl _) (fun s _ _ h => h.upsert ⟨s.name, s.cron, some now.ms⟩
      (fun r => { r with cron := s.cron }) (fun _ => rfl)) specs⟩

theorem listSchedules_outcome :
    pg.Outcome (J := J) appId .listSchedules (pg.listSchedules plan appId)
      ((pg.view appId).listSchedules plan) := by
  refine bind_outcome (by simp) (read_outcome ?_)
  rw [Table.selectPart_eq]
  simp [view]

theorem setScheduleLastRunAt_outcome (name : String) (ts : ℤ) :
    pg.Outcome (J := J) appId (.setScheduleLastRunAt name ts)
      (pg.setScheduleLastRunAt appId name ts) ((pg.view appId).setScheduleLastRunAt name ts) := by
  refine bind_outcome (fun _ => .inl) ?_
  exact Sets.outcome ⟨.refl, .refl, .refl, .updateWhere .refl _ _ (by exact fun _ => rfl)⟩

theorem exec_rejected {e : RunsDbError} (hc : sqliteRejects c e) :
    ∃ e', pg.exec plan appId c = (.error e', pg) ∧ postgresRejects appId c e' ∧
      e'.message = e.message := by
  obtain ⟨rfl, _, _, _, _, rfl⟩ := sqliteRejects_cases hc
  exact ⟨_, rfl, .inr rfl, rfl⟩

variable (h : (pg.view appId).abs.Inv)
include h
theorem waitForEvent_outcome (runId workerId stepName eventName : String) (timeoutAtMs : Option ℤ) :
    pg.Outcome (J := J) appId (.waitForEvent runId workerId stepName eventName timeoutAtMs)
      (pg.waitForEvent appId runId workerId stepName eventName timeoutAtMs)
      ((pg.view appId).waitForEvent runId workerId stepName eventName timeoutAtMs) := by
  have hu := pg.updateRunning_outcome appId runId workerId []
    (SqliteRunsDb.parkRun timeoutAtMs) (SqliteRunsDb.parkRun_id timeoutAtMs)
    (c := .waitForEvent (J := J) runId workerId stepName eventName timeoutAtMs)
    (by simp [Call.texts])
  have hcases := (pg.view appId).updateOwned_cases (J := J) runId workerId
    (SqliteRunsDb.parkRun timeoutAtMs) (SqliteRunsDb.parkRun_id timeoutAtMs)
  unfold waitForEvent SqliteRunsDb.waitForEvent
  generalize pg.updateRunning (J := J) appId runId workerId [] _ _ = out at hu ⊢
  rcases hu with ⟨he, hn⟩ | ⟨hreply, happ, hothers⟩
  · rw [he]
    exact .inl ⟨rfl, hn⟩
  · obtain ⟨_, pg'⟩ := out
    rcases hcases with ⟨-, he⟩ | ⟨r, db', hr, ho, he, -, hw⟩
    · rw [he] at hreply happ ⊢
      dsimp only at hreply happ
      subst hreply
      exact read_outcome rfl
    · rw [he] at hreply happ ⊢
      dsimp only at hreply happ hothers
      subst hreply
      dsimp only
      have hset := Table.PartSet.refl (t := pg'.eventWaiters) (a := appId) |>.upsert
        ⟨runId, stepName, eventName, timeoutAtMs⟩
        (fun w => { w with eventName := eventName, expiresAt := timeoutAtMs }) (fun _ => rfl)
      refine bind_outcome (by simp [Call.texts]) (.inr ⟨rfl, ?_, ?_⟩)
      · have hnone : db'.eventWaiters.get? (runId, stepName) = none := by
          rw [hw]
          exact h.no_waiter_of_owned hr ho stepName
        rw [Table.replaceRow_of_get?_eq_none _ hnone, ← happ]
        rw [← happ] at hnone
        simp only [view] at hnone ⊢
        congr 1
        exact hset.own.trans (if_pos hnone)
      · intro b hb
        rw [← hothers b hb]
        simp only [view]
        congr 1
        exact hset.others b hb

theorem reclaimWithWorkers_outcome :
    pg.Outcome (J := J) appId (.reclaimExpiredWithWorkers now)
      (pg.reclaimExpiredWithWorkers plan appId now)
      ((pg.view appId).reclaimExpiredWithWorkers plan now) := by
  have hfilter : (pg.runs.part appId).rows.filter
      (fun r => r.LeaseExpired now ∧ r.workerId ≠ none) =
      (pg.runs.part appId).rows.filter (fun r => r.LeaseExpired now) := by
    apply filter_congr
    intro r hr
    have hw : r.LeaseExpired now → r.workerId ≠ none := fun hx =>
      (h.run_wellFormed r.id r (Table.mem_rows _ |>.mp hr)).running_iff_worker.mp hx.1
    simp only [decide_eq_decide, and_iff_left_iff_imp]
    exact hw
  have hmem (r : Run) (hr : r ∈ (pg.runs.part appId).rows) :
      r.id ∈ (plan.runs.visit ((pg.runs.part appId).rows.filter
        (fun r => r.LeaseExpired now))).map Run.id ↔ r.LeaseExpired now := by
    simp only [mem_map, ScanOrder.mem_visit, mem_filter, decide_eq_true_eq]
    constructor
    · rintro ⟨s, ⟨hs, hx⟩, hid⟩
      rw [← Table.key_injOn _ hs hr hid]
      exact hx
    · intro hx
      exact ⟨r, ⟨hr, hx⟩, rfl⟩
  refine bind_outcome (by simp) ?_
  rw [pg.runs.selectPart_eq]
  dsimp only
  simp only [SqliteRunsDb.reclaimExpiredWithWorkers, view, hfilter,
    ← Table.updateWhere_congr _ _ SqliteRunsDb.releaseLease_id hmem]
  exact Sets.outcome ⟨.updateWhere .refl _ _ SqliteRunsDb.releaseLease_id, .refl, .refl, .refl⟩

theorem signal_outcome (eventName : String) (payload : J.Value) :
    pg.Outcome appId (.signal now eventName payload)
      (pg.signal plan appId now eventName payload)
      ((pg.view appId).signal plan now eventName payload) := by
  refine bind_outcome ?_ ?_
  · simp [Call.texts]
  · rw [pg.eventWaiters.selectPart_eq]
    set ws := plan.eventWaiters.visit
      ((pg.eventWaiters.part appId).rows.filter (fun w => w.eventName = eventName)) with hws
    have hperm := plan.eventWaiters.perm
      ((pg.eventWaiters.part appId).rows.filter (fun w => w.eventName = eventName))
    have hnodup : (ws.map EventWaiter.key).Nodup := by
      rw [hws, (hperm.map _).nodup_iff]
      exact (filter_sublist.map _).nodup (pg.eventWaiters.part appId).nodup_keys
    have hmem : ∀ w ∈ ws, w ∈ (pg.eventWaiters.part appId).rows ∧ w.eventName = eventName ∧
        (pg.runs.part appId).get? w.runId ≠ none := by
      intro w hw
      rw [hws, ScanOrder.mem_visit, mem_filter, decide_eq_true_eq] at hw
      obtain ⟨r, hr, -⟩ := h.waiter_run w.key w (Table.mem_rows _ |>.mp hw.1)
      have hg : (pg.runs.part appId).get? w.runId = some r := hr
      exact ⟨hw.1, hw.2, by simp [hg]⟩
    obtain ⟨hfold, hothers⟩ :=
      foldl_signalWaiter_view appId now eventName (J.toStr payload) ws pg 0 hnodup hmem
    have hs : (pg.view appId).signal plan now eventName payload =
        (.ok (.count (ws.foldl (signalWaiter appId now eventName (J.toStr payload)) (pg, 0)).2),
          (ws.foldl (signalWaiter appId now eventName (J.toStr payload)) (pg, 0)).1.view
            appId) := by
      simp only [SqliteRunsDb.signal]
      have hfold' : (plan.eventWaiters.visit ((pg.view appId).eventWaiters.rows.filter
          (fun w => w.eventName = eventName))).foldlM
          (SqliteRunsDb.signalWaiter now (J.toStr payload)) (pg.view appId, 0) = _ := hfold
      rw [hfold']
    rw [hs]
    exact .inr ⟨rfl, rfl, hothers⟩

/-- The tables of one application do what its own SQLite store would. -/
theorem exec_outcome (c : Call J) (hc : ∀ e, ¬sqliteRejects c e) :
    pg.Outcome appId c (pg.exec plan appId c) ((pg.view appId).exec plan c) := by
  cases c with
  | enqueue now nanoid name payload opts =>
    exact pg.enqueue_outcome appId now nanoid name payload opts
  | claim now workerId names leaseMs => exact pg.claim_outcome appId now plan workerId names leaseMs
  | heartbeat now id workerId leaseMs | complete now id workerId
  | cancel | defer =>
    exact pg.updateRunning_outcome _ _ _ _ _ _ (.refl _)
  | saveStep now runId workerId stepName result =>
    exact pg.saveStep_outcome appId now runId workerId stepName result
  | fail _ _ _ _ next finalize =>
    cases finalize with
    | true => exact pg.updateRunning_outcome _ _ _ _ _ _ (.refl _)
    | false =>
      cases next with
      | none => exact absurd rfl (hc _)
      | some => exact pg.updateRunning_outcome _ _ _ _ _ _ (.refl _)
  | pruneFinishedBefore cutoffMs limit => exact pg.prune_outcome appId plan cutoffMs limit
  | reclaimExpired now => exact pg.reclaimExpired_outcome appId now
  | reclaimExpiredWithWorkers now => exact pg.reclaimWithWorkers_outcome appId now plan h
  | inFlightByWorker => exact pg.inFlight_outcome appId plan
  | waitForEvent runId workerId stepName eventName timeoutAtMs =>
    exact pg.waitForEvent_outcome appId h runId workerId stepName eventName timeoutAtMs
  | signal now eventName payload => exact pg.signal_outcome appId now plan h eventName payload
  | pendingCount =>
    refine bind_outcome (by simp) (read_outcome ?_)
    rw [pg.runs.count_part appId (fun r => r.status = .pending)]
    rfl
  | hasRunnableWork now => exact pg.hasRunnableWork_outcome appId now
  | replaceSchedules now specs => exact pg.replaceSchedules_outcome appId now specs
  | listSchedules => exact pg.listSchedules_outcome appId plan
  | setScheduleLastRunAt name ts => exact pg.setScheduleLastRunAt_outcome appId name ts

theorem exec_others (c : Call J) {b : String} (hb : b ≠ appId) :
    (pg.exec plan appId c).2.view b = pg.view b := by
  by_cases hc : ∃ e, sqliteRejects c e
  · obtain ⟨e, he⟩ := hc
    obtain ⟨_, hx, -⟩ := pg.exec_rejected appId plan he
    rw [hx]
  · rcases pg.exec_outcome appId plan h c (fun e he => hc ⟨e, he⟩) with ⟨hx, -⟩ | hact
    · rw [hx]
    · exact hact.others b hb

/-- On the rows of one app, Postgres refines the same queue as SQLite. -/
theorem exec_refines (c : Call J) :
    Step (postgresRejects appId) (pg.view appId).abs c (pg.exec plan appId c).1
      ((pg.exec plan appId c).2.view appId).abs := by
  by_cases hc : ∃ e, sqliteRejects c e
  · obtain ⟨e, he⟩ := hc
    obtain ⟨_, hx, hr, -⟩ := pg.exec_rejected appId plan he
    rw [hx]
    exact .rejected hr
  · have hn : ∀ e, ¬sqliteRejects c e := fun e he => hc ⟨e, he⟩
    rcases pg.exec_outcome appId plan h c hn with ⟨hx, ht⟩ | hact
    · rw [hx]
      exact .rejected (.inl ⟨rfl, ht⟩)
    · rw [hact.reply, hact.app]
      exact ((pg.view appId).exec_refines h plan c).mono fun e he => absurd he (hn e)
end PostgresTables
end Tako.Workflow
