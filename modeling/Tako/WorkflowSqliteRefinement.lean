import Tako.Executions
import Tako.WorkflowQueueInvariant
import Tako.WorkflowSqlite

/-! The SQLite backend stays within the queue: each operation's statements,
read key by key, do what the queue allows. -/
namespace Tako.Workflow
open Relational List Function
open scoped Classical
variable {J : JsonCodec}
def SqliteRunsDb.abs (db : SqliteRunsDb) : Queue :=
  ⟨db.runs.get?, db.steps.get?, db.eventWaiters.get?, db.schedules.get?⟩

/-- The one call that SQLite turns down before it looks at the run. -/
def sqliteRejects : Call J → RunsDbError → Prop
  | .fail _ _ _ _ none false, e => e = .storage "fail(finalize=false) requires next_run_at_ms"
  | _, _ => False

theorem sqliteRejects_cases {c : Call J} {e : RunsDbError} (h : sqliteRejects c e) :
    e = .storage "fail(finalize=false) requires next_run_at_ms" ∧
      ∃ now id workerId error, c = .fail now id workerId error none false := by
  unfold sqliteRejects at h
  split at h
  · exact ⟨h, _, _, _, _, rfl⟩
  · exact h.elim

namespace SqliteRunsDb
abbrev Refines (db : SqliteRunsDb) (c : Call J) (out : Result J × SqliteRunsDb) : Prop :=
  Step sqliteRejects db.abs c out.1 out.2.abs

theorem refines_of_abs {db db' : SqliteRunsDb} {c : Call J} {reply : Result J} {q : Queue}
    (ha : db'.abs = q) (h : Step sqliteRejects db.abs c reply q) : db.Refines c (reply, db') := by
  subst ha
  exact h

variable {db : SqliteRunsDb} {r : Run}
theorem run_id {id : String} (h : db.abs.run id = some r) : r.id = id :=
  db.runs.get?_key h

theorem count_eq_ncard (db : SqliteRunsDb) (p : Run → Prop) [DecidablePred p] :
    db.runs.count p = (db.abs.runsWith p).ncard :=
  db.runs.count_eq_ncard p id injective_id fun r _ _ => ⟨r.id, rfl⟩

theorem mem_runs : r ∈ db.runs.rows ↔ db.abs.run r.id = some r := db.runs.mem_rows

theorem count_owned_eq_zero (db : SqliteRunsDb) (id owner : String) :
    db.runs.count (fun r => r.id = id ∧ r.OwnedBy owner) = 0 ↔ ¬db.abs.Owns id owner := by
  rw [Table.count, length_eq_zero_iff, filter_eq_nil_iff]
  constructor
  · rintro hn ⟨r, hr, ho⟩
    have hm : r ∈ db.runs.rows := (db.runs.get?_eq_some.mp hr).1
    exact hn r hm (by simpa using ⟨run_id hr, ho⟩)
  · intro hn r hr hp
    simp only [decide_eq_true_eq] at hp
    refine hn ⟨r, ?_, hp.2⟩
    rw [← hp.1]
    exact mem_runs.mp hr

theorem get?_updateWhere_key (hr : db.abs.run r.id = some r) (p : Run → Prop) [DecidablePred p]
    (f : Run → Run) (hf : ∀ s, (f s).id = s.id) (hp : p r) (hkey : ∀ s, p s → s.id = r.id) :
    (db.runs.updateWhere p f hf).get? = Function.update db.abs.run r.id (some (f r)) := by
  funext k
  rw [Table.get?_updateWhere]
  by_cases hk : k = r.id
  · subst hk
    have hg : db.runs.get? r.id = some r := hr
    simp [hg, hp]
  · rw [update_of_ne hk]
    change (db.runs.get? k).map _ = db.runs.get? k
    cases hg : db.runs.get? k with
    | none => rfl
    | some s =>
      have hs : ¬p s := fun h => hk ((db.runs.get?_key hg).symm.trans (hkey s h))
      simp [hs]

variable (db)
theorem updateOwned_cases (id owner : String) (f : Run → Run) (hf : ∀ r, (f r).id = r.id) :
    (¬db.abs.Owns id owner ∧ db.updateOwned (J := J) id owner f hf = (.error .staleWorker, db)) ∨
    ∃ r db', db.abs.run id = some r ∧ r.OwnedBy owner ∧
      db.updateOwned (J := J) id owner f hf = (.ok .done, db') ∧
      db'.abs = db.abs.setRun (f r) ∧ db'.eventWaiters = db.eventWaiters := by
  unfold updateOwned
  by_cases ho : db.abs.Owns id owner
  · right
    obtain ⟨r, hr, hro⟩ := ho
    have hid := run_id hr
    have hz : db.runs.count (fun r => r.id = id ∧ r.OwnedBy owner) ≠ 0 := fun h =>
      (db.count_owned_eq_zero id owner).mp h ⟨r, hr, hro⟩
    rw [if_neg hz]
    subst hid
    refine ⟨r, _, hr, hro, rfl, ?_, rfl⟩
    have hu := get?_updateWhere_key hr (fun s => s.id = r.id ∧ s.OwnedBy owner) f hf ⟨rfl, hro⟩
      (fun s hs => hs.1)
    simp only [abs, Queue.setRun, hu, hf]
  · left
    exact ⟨ho, by rw [if_pos ((db.count_owned_eq_zero id owner).mpr ho)]⟩

theorem updateOwned_refines {c : Call J} {id owner : String} {f : Run → Run}
    (hf : ∀ r, (f r).id = r.id) (hc : c.caller = some (id, owner)) (hw : c.write = some f) :
    db.Refines c (db.updateOwned (J := J) id owner f hf) := by
  rcases db.updateOwned_cases (J := J) id owner f hf with ⟨hn, he⟩ | ⟨r, db', hr, ho, he, ha, -⟩
  · rw [he]
    exact .stale hc hn
  · rw [he]
    exact refines_of_abs ha (.written hc hw hr ho)

theorem enqueue_refines (now : ClockMs) (nanoid name : String) (payload : J.Value)
    (opts : EnqueueOpts) : db.Refines (.enqueue now nanoid name payload opts)
      (db.enqueue now nanoid name payload opts) := by
  cases hg : db.runs.get? (opts.id.getD nanoid) with
  | none =>
    have he : db.enqueue now nanoid name payload opts =
        (.ok (.enqueued ⟨opts.id.getD nanoid, false⟩), { db with
          runs :=
            db.runs.insertIgnore (Queue.newRun now nanoid name (J.toStr payload) opts) }) := by
      simp only [enqueue, hg]
      rfl
    have ha : { db with
        runs := db.runs.insertIgnore (Queue.newRun now nanoid name (J.toStr payload) opts) }.abs =
        db.abs.setRun (Queue.newRun now nanoid name (J.toStr payload) opts) := by
      refine Queue.ext ?_ rfl rfl rfl
      funext k
      simp only [abs, Queue.setRun, Table.get?_insertIgnore]
      by_cases hk : k = opts.id.getD nanoid
      · subst hk
        simp [hg, Queue.newRun]
      · have hk' : ¬opts.id.getD nanoid = k := fun h => hk h.symm
        simp [Queue.newRun, hk, hk']
    rw [he]
    exact refines_of_abs ha (.enqueueNew hg)
  | some r =>
    have he : db.enqueue now nanoid name payload opts =
        ((checkExistingRun J (opts.id.getD nanoid) name payload r.name r.payload).map
          (fun _ => Reply.enqueued ⟨opts.id.getD nanoid, true⟩), db) := by
      simp only [enqueue, hg]
      cases checkExistingRun J (opts.id.getD nanoid) name payload r.name r.payload <;> rfl
    rw [he]
    exact .enqueueKnown hg

variable (now : ClockMs) (plan : Planner)
theorem get?_materializeExpired (steps : Table StepRow.key) (waiters : List EventWaiter)
    (k : String × String) : (materializeExpired now steps waiters).get? k = (steps.get? k).or
      (if ∃ w ∈ waiters, w.key = k then some ⟨k.1, k.2, "null", now.ms⟩ else none) := by
  induction waiters generalizing steps with
  | nil => simp [materializeExpired]
  | cons w _ ih =>
    have hi := ih (steps.insertIgnore ⟨w.runId, w.stepName, "null", now.ms⟩)
    rw [materializeExpired] at hi ⊢
    rw [foldl_cons, hi, Table.get?_insertIgnore]
    by_cases hk : w.key = k
    · subst hk
      cases hg : steps.get? w.key <;> simp [StepRow.key, EventWaiter.key]
    · have hk' : ¬StepRow.key ⟨w.runId, w.stepName, "null", now.ms⟩ = k := hk
      simp [hk, hk']

theorem hydrate_eq (J : JsonCodec) (rows : List StepRow) (name : String) :
    (∃ r ∈ rows, r.name = name ∧ hydrate J rows name = some (J.fromStrOrNull r.result)) ∨
      ((∀ r ∈ rows, r.name ≠ name) ∧ hydrate J rows name = none) := by
  have gen (rows : List StepRow) (m : String → Option J.Value) :
      let h := rows.foldl (fun (m : String → Option J.Value) r =>
        Function.update m r.name (some (J.fromStrOrNull r.result))) m
      (∃ r ∈ rows, r.name = name ∧ h name = some (J.fromStrOrNull r.result)) ∨
        ((∀ r ∈ rows, r.name ≠ name) ∧ h name = m name) := by
    induction rows generalizing m with
    | nil => simp
    | cons r _ ih =>
      rcases ih (Function.update m r.name (some (J.fromStrOrNull r.result))) with
        ⟨s, hs, hn, hv⟩ | ⟨hn, hv⟩
      · exact .inl ⟨s, mem_cons_of_mem _ hs, hn, hv⟩
      · by_cases hr : r.name = name
        · refine .inl ⟨r, mem_cons_self, hr, ?_⟩
          rw [foldl_cons, hv, hr, update_self]
        · refine .inr ⟨?_, ?_⟩
          · intro s hs
            rcases mem_cons.mp hs with rfl | hs
            · exact hr
            · exact hn s hs
          · rw [foldl_cons, hv, update_of_ne (fun h => hr h.symm)]
  exact gen rows fun _ => none

theorem hydrate_stored (id : String) :
    hydrate J (plan.steps.visit (db.steps.rows.filter (fun r => r.runId = id))) =
      db.abs.stepState J id := by
  funext name
  have hmem (r : StepRow) : r ∈ plan.steps.visit (db.steps.rows.filter (fun r => r.runId = id)) ↔
      r ∈ db.steps.rows ∧ r.runId = id := by
    simp
  rcases hydrate_eq J (plan.steps.visit (db.steps.rows.filter (fun r => r.runId = id))) name with
    ⟨r, hr, hn, hv⟩ | ⟨hn, hv⟩
  · obtain ⟨hr, hid⟩ := (hmem r).mp hr
    have hg : db.steps.get? (id, name) = some r :=
      db.steps.get?_eq_some.mpr ⟨hr, by rw [StepRow.key, hid, hn]⟩
    rw [hv]
    simp [Queue.stepState, abs, hg]
  · have hg : db.steps.get? (id, name) = none := by
      rw [Table.get?_eq_none]
      intro r hr hk
      exact hn r ((hmem r).mpr ⟨hr, congrArg Prod.fst hk⟩) (congrArg Prod.snd hk)
    rw [hv]
    simp [Queue.stepState, abs, hg]

def claimTables (now : ClockMs) (owner : String) (leaseUntil : ℤ) (r : Run) :
    SqliteRunsDb :=
  { db with
    runs := db.runs.updateWhere (fun s => s.id = r.id) (claimRun owner leaseUntil)
      (claimRun_id owner leaseUntil)
    steps := materializeExpired now db.steps
      (db.eventWaiters.rows.filter (fun w => w.runId = r.id ∧ w.Expired now))
    eventWaiters := db.eventWaiters.deleteWhere (fun w => w.runId = r.id ∧ w.Expired now) }

theorem abs_claimTables (owner : String) (leaseUntil : ℤ) (hr : db.abs.run r.id = some r) :
    (db.claimTables now owner leaseUntil r).abs =
      db.abs.claim now (r.claimedBy owner leaseUntil) := by
  refine Queue.ext ?_ ?_ ?_ rfl
  · exact get?_updateWhere_key hr (fun s => s.id = r.id) (claimRun owner leaseUntil)
      (claimRun_id owner leaseUntil) rfl (fun s hs => hs)
  · funext k
    have hiff : (∃ w ∈ db.eventWaiters.rows.filter (fun w => w.runId = r.id ∧ w.Expired now),
        w.key = k) ↔ k.1 = r.id ∧ ∃ w, db.eventWaiters.get? k = some w ∧ w.Expired now := by
      simp only [mem_filter, decide_eq_true_eq, Table.get?_eq_some]
      constructor
      · rintro ⟨w, ⟨hw, hid, hx⟩, rfl⟩
        exact ⟨hid, w, ⟨hw, rfl⟩, hx⟩
      · rintro ⟨hid, w, ⟨hw, hk⟩, hx⟩
        exact ⟨w, ⟨hw, by rw [← hid, ← hk, EventWaiter.key], hx⟩, hk⟩
    simp only [abs, claimTables, get?_materializeExpired, hiff, Queue.claim, Run.claimedBy]
    congr
  · funext k
    simp only [abs, claimTables, Table.get?_deleteWhere, Queue.claim, Run.claimedBy]
    cases hg : db.eventWaiters.get? k with
    | none => rfl
    | some w =>
      have hk : w.runId = k.1 := congrArg Prod.fst (db.eventWaiters.get?_key hg)
      simp [Option.filter_some, hk]

theorem claim_refines (owner : String) (names : List String) (leaseMs : ℕ) :
    db.Refines (.claim now owner names leaseMs)
      (db.claim (J := J) plan now owner names leaseMs) := by
  by_cases hnames : names = []
  · have he : db.claim (J := J) plan now owner names leaseMs = (.ok (.claimed none), db) := by
      simp only [claim, hnames, ↓reduceIte]
    rw [he]
    apply Step.claimNothing
    intro id r _ hc
    simpa [hnames] using hc.2.2
  set candidates := db.runs.rows.filter (fun r => r.Claimable now names) with hcand
  have hmem (r : Run) : r ∈ candidates ↔ db.abs.run r.id = some r ∧ r.Claimable now names := by
    rw [hcand, mem_filter, mem_runs, decide_eq_true_eq]
  obtain ⟨hnone, hsome⟩ := plan.runs.head?_orderByLimit_one Run.runAt candidates
  cases hh : (plan.runs.orderByLimit Run.runAt 1 candidates).head? with
  | none =>
    have he : db.claim (J := J) plan now owner names leaseMs = (.ok (.claimed none), db) := by
      simp only [claim, hnames, ↓reduceIte, ← hcand, hh]
    rw [he]
    apply Step.claimNothing
    intro id r hr hc
    have hm := (hmem r).mpr ⟨by rw [run_id hr]; exact hr, hc⟩
    rw [hnone.mp hh] at hm
    cases hm
  | some r =>
    obtain ⟨hrm, hleast⟩ := hsome r hh
    obtain ⟨hr, hc⟩ := (hmem r).mp hrm
    set lease := saturatingAdd now.ms (clampLeaseMs leaseMs) with hlease
    have he : db.claim (J := J) plan now owner names leaseMs =
        (.ok (.claimed (some ((db.claimTables now owner lease r).abs.payloadOf J owner
          (r.claimedBy owner lease)))), db.claimTables now owner lease r) := by
      simp only [claim, hnames, ↓reduceIte, ← hcand, hh]
      refine Prod.ext ?_ rfl
      simp only [runPayload, Queue.payloadOf, Except.ok.injEq, Reply.claimed.injEq,
        Option.some.injEq]
      have hs := hydrate_stored (J := J) (db.claimTables now owner lease r) plan r.id
      simp only [claimTables] at hs
      rw [hs]
      rfl
    rw [he, abs_claimTables db now owner lease hr]
    refine refines_of_abs (abs_claimTables db now owner lease hr) (.claimNext ⟨hr, hc, ?_⟩ rfl)
    intro _ b hb hbc
    exact hleast b ((hmem b).mpr ⟨by rw [run_id hb]; exact hb, hbc⟩)

theorem saveStepProbe_eq (id owner : String) : saveStepProbe (J := J) db id owner =
      if db.runs.count (fun r => r.id = id ∧ r.OwnedBy owner) = 0 then .error .staleWorker
      else .ok .done := by
  by_cases ho : db.abs.Owns id owner
  · have hz := mt (db.count_owned_eq_zero id owner).mp (not_not.mpr ho)
    obtain ⟨r, hr, hw, hs⟩ := ho
    have hg : db.runs.get? id = some r := hr
    simp [saveStepProbe, hg, hw, hs, hz]
  · have hz := (db.count_owned_eq_zero id owner).mpr ho
    rw [if_pos hz]
    unfold saveStepProbe
    cases hg : db.runs.get? id with
    | none => rfl
    | some r =>
      by_cases hs : r.status = .running
      · have hw : r.workerId ≠ some owner := fun hw => ho ⟨r, hg, hw, hs⟩
        simp [hs, hw]
      · simp [hs]

theorem saveStep_eq (id owner name : String) (result : J.Value) :
    db.saveStep now id owner name result =
      if db.runs.count (fun r => r.id = id ∧ r.OwnedBy owner) = 0 then (.error .staleWorker, db)
      else (.ok .done,
        { db with steps := db.steps.insertIgnore ⟨id, name, J.toStr result, now.ms⟩ }) := by
  by_cases hz : db.runs.count (fun r => r.id = id ∧ r.OwnedBy owner) = 0
  · simp [saveStep, saveStepInsert, saveStepProbe_eq, hz]
  · by_cases hg : db.steps.get? (id, name) = none
    · simp [saveStep, saveStepInsert, hz, hg]
    · -- the insert was ignored; the probe finds the caller to be the owner
      have hi : db.steps.insertIgnore ⟨id, name, J.toStr result, now.ms⟩ = db.steps := dif_neg hg
      simp [saveStep, saveStepInsert, saveStepProbe_eq, hz, hg, hi]

theorem saveStep_refines (id owner name : String) (result : J.Value) :
    db.Refines (.saveStep now id owner name result) (db.saveStep now id owner name result) := by
  rw [saveStep_eq]
  by_cases ho : db.abs.Owns id owner
  · have hz := mt (db.count_owned_eq_zero id owner).mp (not_not.mpr ho)
    have ha : { db with steps := db.steps.insertIgnore ⟨id, name, J.toStr result, now.ms⟩ }.abs =
        db.abs.saveStep ⟨id, name, J.toStr result, now.ms⟩ := by
      refine Queue.ext rfl ?_ rfl rfl
      funext k
      simp only [abs, Queue.saveStep, Table.get?_insertIgnore]
    rw [if_neg hz]
    exact refines_of_abs ha (.saved ho)
  · rw [if_pos ((db.count_owned_eq_zero id owner).mpr ho)]
    exact .stale rfl ho

theorem waitForEvent_refines (id owner stepName eventName : String) (timeoutAtMs : Option ℤ) :
    db.Refines (.waitForEvent id owner stepName eventName timeoutAtMs)
      (db.waitForEvent (J := J) id owner stepName eventName timeoutAtMs) := by
  rcases db.updateOwned_cases (J := J) id owner (parkRun timeoutAtMs) (parkRun_id timeoutAtMs) with
    ⟨hn, he⟩ | ⟨r, db', hr, ho, he, ha, -⟩
  · rw [waitForEvent, he]
    exact .stale rfl hn
  · have ha' : { db' with
        eventWaiters := db'.eventWaiters.replaceRow ⟨id, stepName, eventName, timeoutAtMs⟩ }.abs =
        db'.abs.setWaiter ⟨id, stepName, eventName, timeoutAtMs⟩ := by
      simp only [abs, Queue.setWaiter, Table.get?_replaceRow]
    rw [ha] at ha'
    rw [waitForEvent, he]
    exact refines_of_abs ha' (.waiting hr ho)

theorem pruneFinishedBefore_eq (cutoffMs : ℤ) (limit : ℕ) {picked : List Run}
    (hp : plan.runs.orderByLimit (fun r => r.finishedAt.getD 0) limit
      (db.runs.rows.filter (fun r => r.Prunable cutoffMs)) = picked) :
    db.pruneFinishedBefore (J := J) plan cutoffMs limit = (.ok (.count picked.length),
      { db with
        runs := db.runs.deleteWhere (fun r => r.id ∈ picked.map Run.id)
        steps := db.steps.deleteWhere (fun r => r.runId ∈ picked.map Run.id)
        eventWaiters := db.eventWaiters.deleteWhere (fun w => w.runId ∈ picked.map Run.id) }) := by
  subst hp
  rw [← db.runs.count_mem_keys (fun r hr =>
    (mem_filter.mp (plan.runs.mem_of_mem_orderByLimit hr)).1)
    (plan.runs.nodup_orderByLimit _ _ (db.runs.nodup_rows.filter _))]
  rfl

theorem prune_refines (cutoffMs : ℤ) (limit : ℕ) :
    db.Refines (.pruneFinishedBefore cutoffMs limit)
      (db.pruneFinishedBefore (J := J) plan cutoffMs limit) := by
  set finished := db.runs.rows.filter (fun r => r.Prunable cutoffMs) with hfin
  set picked := plan.runs.orderByLimit (fun r => r.finishedAt.getD 0) limit finished with hpick
  obtain ⟨gone, hgone⟩ : ∃ gone : Set String, ∀ id, id ∈ gone ↔ id ∈ picked.map Run.id :=
    ⟨{id | id ∈ picked.map Run.id}, fun _ => Iff.rfl⟩
  have hpicked (r : Run) (hr : r ∈ picked) :
      db.abs.run r.id = some r ∧ r.Prunable cutoffMs := by
    have hm := plan.runs.mem_of_mem_orderByLimit hr
    rw [hfin, mem_filter, mem_runs, decide_eq_true_eq] at hm
    exact hm
  have hnodup : (picked.map Run.id).Nodup := by
    apply List.Nodup.map_on
    · intro a ha b hb hab
      have hra := (hpicked a ha).1
      rw [hab, (hpicked b hb).1] at hra
      exact (Option.some.inj hra).symm
    · exact plan.runs.nodup_orderByLimit _ _ (db.runs.nodup_rows.filter _)
  have hlist : gone = ((picked.map Run.id).toFinset : Set String) := by
    ext id
    simp [hgone]
  have hcard : gone.ncard = picked.length := by
    rw [hlist, Set.ncard_coe_finset, toFinset_card_of_nodup hnodup, length_map]
  have hold : db.abs.Oldest cutoffMs limit gone := by
    refine ⟨?_, ?_, ?_, ?_⟩
    · intro id hm
      obtain ⟨r, hr, rfl⟩ := mem_map.mp ((hgone id).mp hm)
      exact ⟨r, hpicked r hr⟩
    · rw [hlist]
      exact Finset.finite_toSet _
    · rw [hcard, hpick, plan.runs.length_orderByLimit, ← db.count_eq_ncard]
      rfl
    · intro i hi j hj a b ha hb hbp
      obtain ⟨a', ha', rfl⟩ := mem_map.mp ((hgone i).mp hi)
      rw [(hpicked a' ha').1] at ha
      cases ha
      have hbf : b ∈ finished := by
        rw [hfin, mem_filter, mem_runs, decide_eq_true_eq, run_id hb]
        exact ⟨hb, hbp⟩
      apply plan.runs.le_of_not_mem_orderByLimit ha' hbf
      intro hbm
      apply hj
      rw [hgone, ← run_id hb]
      exact mem_map_of_mem hbm
  have ha : { db with
      runs := db.runs.deleteWhere (fun r => r.id ∈ picked.map Run.id)
      steps := db.steps.deleteWhere (fun r => r.runId ∈ picked.map Run.id)
      eventWaiters := db.eventWaiters.deleteWhere (fun w => w.runId ∈ picked.map Run.id) }.abs =
      db.abs.remove gone := by
    have hr (id : String) (r : Run) (hg : db.runs.get? id = some r) :
        r.id ∈ picked.map Run.id ↔ id ∈ gone := by
      rw [hgone, db.runs.get?_key hg]
    have hs (k : String × String) (s : StepRow) (hg : db.steps.get? k = some s) :
        s.runId ∈ picked.map Run.id ↔ k.1 ∈ gone := by
      rw [hgone, ← db.steps.get?_key hg]
      rfl
    have hw (k : String × String) (w : EventWaiter) (hg : db.eventWaiters.get? k = some w) :
        w.runId ∈ picked.map Run.id ↔ k.1 ∈ gone := by
      rw [hgone, ← db.eventWaiters.get?_key hg]
      rfl
    refine Queue.ext ?_ ?_ ?_ rfl
    · funext id
      exact db.runs.get?_deleteWhere_of_iff _ (hr id)
    · funext k
      exact db.steps.get?_deleteWhere_of_iff _ (hs k)
    · funext k
      exact db.eventWaiters.get?_deleteWhere_of_iff _ (hw k)
  rw [db.pruneFinishedBefore_eq plan cutoffMs limit hpick.symm, ← hcard]
  exact refines_of_abs ha (.pruned hold)

theorem abs_reclaim :
    { db with
      runs := db.runs.updateWhere (Run.LeaseExpired now) releaseLease releaseLease_id }.abs =
      db.abs.reclaim now := by
  refine Queue.ext ?_ rfl rfl rfl
  funext id
  simp only [abs, Queue.reclaim]
  rw [Table.get?_updateWhere]
  rfl

theorem reclaim_refines : db.Refines (.reclaimExpired now) (db.reclaimExpired (J := J) now) := by
  apply refines_of_abs (abs_reclaim db now)
  rw [db.count_eq_ncard]
  exact .reclaimed

theorem count_owners (p : Run → Prop) [DecidablePred p] (o : String) :
    ((plan.runs.visit (db.runs.rows.filter (fun r => p r ∧ r.workerId ≠ none))).filterMap
      Run.workerId).count o = (db.abs.runsWith fun r => p r ∧ r.workerId = some o).ncard := by
  have hp := (plan.runs.perm (db.runs.rows.filter
    (fun r => p r ∧ r.workerId ≠ none))).filterMap Run.workerId
  rw [hp.count_eq, ← db.count_eq_ncard, Table.count, List.count, countP_filterMap,
    countP_filter, countP_eq_length_filter]
  congr 1
  apply filter_congr
  intro r _
  cases hw : r.workerId with
  | none => simp
  | some w => by_cases hp : p r <;> by_cases ho : w = o <;> simp [hp, ho]

theorem reclaimWithWorkers_refines :
    db.Refines (.reclaimExpiredWithWorkers now)
      (db.reclaimExpiredWithWorkers (J := J) plan now) := by
  apply refines_of_abs (abs_reclaim db now)
  apply Step.reclaimedFrom
  intro o
  exact count_owners db plan (Run.LeaseExpired now) o

theorem mem_groupCount (owners : List String) (o : String) (n : ℕ) :
    (o, n) ∈ groupCount owners ↔ owners.count o ≠ 0 ∧ n = asU32 (owners.count o) := by
  simp only [groupCount, mem_map, mem_dedup, Prod.mk.injEq, ne_eq,
    count_eq_zero, not_not]
  constructor
  · rintro ⟨w, hw, rfl, rfl⟩
    exact ⟨hw, rfl⟩
  · rintro ⟨ho, rfl⟩
    exact ⟨o, ho, rfl, rfl⟩

theorem inFlight_refines :
    db.Refines .inFlightByWorker (db.inFlightByWorker (J := J) plan) := by
  apply Step.inFlight
  · rw [groupCount, map_map]
    exact (map_id _).symm ▸ nodup_dedup _
  · intro o n
    have hset : (db.abs.runsWith fun r => r.status = .running ∧ r.workerId = some o) =
        db.abs.runsWith (Run.OwnedBy o) := by
      ext id
      constructor
      · rintro ⟨r, hr, hs, hw⟩
        exact ⟨r, hr, hw, hs⟩
      · rintro ⟨r, hr, hw, hs⟩
        exact ⟨r, hr, hs, hw⟩
    rw [mem_groupCount, count_owners db plan (fun r => r.status = .running), hset]

noncomputable def wakeKeys (q : Queue) (now : ClockMs) (payloadJson : String)
    (keys : List (String × String)) : Queue where
  run id := (q.run id).map (fun r =>
    if r.status = .pending ∧ ∃ k ∈ keys, k.1 = id then { r with runAt := now.ms } else r)
  step k := (q.step k).or (if k ∈ keys then some ⟨k.1, k.2, payloadJson, now.ms⟩ else none)
  waiter k := if k ∈ keys then none else q.waiter k
  schedule := q.schedule

theorem wakeKeys_nil (q : Queue) (now : ClockMs) (payloadJson : String) :
    wakeKeys q now payloadJson [] = q := by
  refine Queue.ext ?_ ?_ ?_ rfl <;> funext k <;> simp [wakeKeys]

theorem wakeKeys_cons (q : Queue) (now : ClockMs) (payloadJson : String) (k : String × String)
    (keys : List (String × String)) :
    wakeKeys (wakeKeys q now payloadJson [k]) now payloadJson keys =
      wakeKeys q now payloadJson (k :: keys) := by
  refine Queue.ext ?_ ?_ ?_ rfl
  · funext id
    cases hr : q.run id with
    | none => simp [wakeKeys, hr]
    | some r =>
      by_cases hp : r.status = .pending <;> by_cases hk : k.1 = id <;>
        by_cases hl : ∃ n, (id, n) ∈ keys <;> simp [wakeKeys, hr, hp, hk, hl]
  · funext j
    by_cases hk : j = k <;> by_cases hl : j ∈ keys <;> cases hs : q.step j <;>
      simp [wakeKeys, hk, hl, hs]
  · funext j
    by_cases hk : j = k <;> by_cases hl : j ∈ keys <;> simp [wakeKeys, hk, hl]

theorem signalWaiter_spec (payloadJson : String) (n : ℕ) (w : EventWaiter)
    (hr : db.abs.run w.runId = some r) :
    ∃ db', signalWaiter now payloadJson (db, n) w = .ok (db', n + 1) ∧
      db'.abs = wakeKeys db.abs now payloadJson [w.key] := by
  have hg : db.runs.get? w.runId = some r := hr
  have he : signalWaiter now payloadJson (db, n) w = .ok ({ db with
      steps := db.steps.insertIgnore ⟨w.runId, w.stepName, payloadJson, now.ms⟩
      runs := db.runs.updateWhere (fun r => r.id = w.runId ∧ r.status = .pending)
        (fun r => { r with status := .pending, runAt := now.ms }) (fun _ => rfl)
      eventWaiters := db.eventWaiters.deleteWhere
        (fun v => v.runId = w.runId ∧ v.stepName = w.stepName) }, n + 1) := by
    simp [signalWaiter, hg]
  refine ⟨_, he, Queue.ext ?_ ?_ ?_ rfl⟩
  · funext id
    simp only [abs, wakeKeys, Table.get?_updateWhere]
    cases hi : db.runs.get? id with
    | none => rfl
    | some s =>
      have hid : s.id = id := db.runs.get?_key hi
      by_cases hk : id = w.runId
      · by_cases hp : s.status = .pending
        · simp [hid, hk, hp, EventWaiter.key]
        · simp [hid, hk, hp]
      · have hk' : ¬w.runId = id := fun h => hk h.symm
        simp [hid, hk, hk', EventWaiter.key]
  · funext k
    simp only [abs, wakeKeys, Table.get?_insertIgnore, mem_singleton]
    by_cases hk : k = w.key
    · subst hk
      simp [StepRow.key, EventWaiter.key]
    · have hk' : ¬StepRow.key ⟨w.runId, w.stepName, payloadJson, now.ms⟩ = k := fun h => hk h.symm
      simp [hk, hk']
  · funext k
    have hiff (v : EventWaiter) (hv : db.eventWaiters.get? k = some v) :
        (v.runId = w.runId ∧ v.stepName = w.stepName) ↔ k ∈ [w.key] := by
      rw [mem_singleton, ← db.eventWaiters.get?_key hv, EventWaiter.key, EventWaiter.key,
        Prod.mk.injEq]
    exact (db.eventWaiters.get?_deleteWhere_of_iff _ hiff).trans (if_congr Iff.rfl rfl rfl)

theorem foldlM_signalWaiter (payloadJson : String) (waiters : List EventWaiter) :
    ∀ (db : SqliteRunsDb) (n : ℕ), (∀ w ∈ waiters, ∃ r, db.abs.run w.runId = some r) →
      ∃ db', waiters.foldlM (signalWaiter now payloadJson) (db, n) = .ok (db', n + waiters.length) ∧
        db'.abs = wakeKeys db.abs now payloadJson (waiters.map EventWaiter.key) := by
  induction waiters with
  | nil =>
    intro db n _
    exact ⟨db, rfl, (wakeKeys_nil ..).symm⟩
  | cons w ws ih =>
    intro db n hruns
    obtain ⟨r, hr⟩ := hruns w mem_cons_self
    obtain ⟨db₁, he₁, ha₁⟩ := signalWaiter_spec db now payloadJson n w hr
    have hkeep : ∀ v ∈ ws, ∃ r, db₁.abs.run v.runId = some r := by
      intro v hv
      obtain ⟨s, hs⟩ := hruns v (mem_cons_of_mem _ hv)
      rw [ha₁]
      exact ⟨_, congrArg (Option.map _) hs⟩
    obtain ⟨db₂, he₂, ha₂⟩ := ih db₁ (n + 1) hkeep
    refine ⟨db₂, ?_, ?_⟩
    · rw [foldlM_cons, he₁]
      change ws.foldlM (signalWaiter now payloadJson) (db₁, n + 1) = _
      rw [he₂, length_cons, add_assoc, Nat.add_comm 1]
    · rw [ha₂, ha₁, wakeKeys_cons, map_cons]

theorem signal_refines (h : db.abs.Inv) (eventName : String) (payload : J.Value) :
    db.Refines (.signal now eventName payload) (db.signal plan now eventName payload) := by
  set waiters := plan.eventWaiters.visit
    (db.eventWaiters.rows.filter (fun w => w.eventName = eventName)) with hw
  have hmem (w : EventWaiter) :
      w ∈ waiters ↔ db.abs.waiter w.key = some w ∧ w.eventName = eventName := by
    rw [hw, ScanOrder.mem_visit, mem_filter, Table.mem_rows, decide_eq_true_eq]
    rfl
  have hkeys (k : String × String) : k ∈ waiters.map EventWaiter.key ↔
      db.abs.Waits eventName k := by
    rw [mem_map]
    constructor
    · rintro ⟨w, hwm, rfl⟩
      exact ⟨w, (hmem w).mp hwm⟩
    · rintro ⟨w, hk, he⟩
      have hkey := h.waiter_key k w hk
      exact ⟨w, (hmem w).mpr ⟨by rw [hkey]; exact hk, he⟩, hkey⟩
  obtain ⟨db', he, ha⟩ := foldlM_signalWaiter now (J.toStr payload) waiters db 0 (by
    intro w hwm
    obtain ⟨r, hr, -⟩ := h.waiter_run _ w ((hmem w).mp hwm).1
    exact ⟨r, hr⟩)
  have hlen : waiters.length = {k | db.abs.Waits eventName k}.ncard := by
    have hc := db.eventWaiters.count_eq_ncard (fun w => w.eventName = eventName) id
      injective_id (fun w _ _ => ⟨w.key, rfl⟩)
    rw [hw, (plan.eventWaiters.perm _).length_eq]
    exact hc
  have habs : db'.abs = db.abs.signal now eventName (J.toStr payload) := by
    rw [ha]
    refine Queue.ext ?_ ?_ ?_ rfl
    · funext id
      have hex : (∃ k ∈ waiters.map EventWaiter.key, k.1 = id) ↔
          ∃ n, db.abs.Waits eventName (id, n) := by
        constructor
        · rintro ⟨k, hk, rfl⟩
          exact ⟨k.2, (hkeys k).mp hk⟩
        · rintro ⟨n, hn⟩
          exact ⟨(id, n), (hkeys _).mpr hn, rfl⟩
      simp only [wakeKeys, Queue.signal, hex]
    · funext k
      simp only [wakeKeys, Queue.signal, hkeys]
    · funext k
      simp only [wakeKeys, Queue.signal, hkeys]
      cases hk : db.abs.waiter k with
      | none => simp
      | some w =>
        by_cases hn : w.eventName = eventName <;> simp [Queue.Waits, hk, hn, Option.filter_some]
  have hs : db.signal plan now eventName payload = (.ok (.count waiters.length), db') := by
    simp only [signal, ← hw, he, zero_add]
  rw [hs, hlen]
  exact refines_of_abs habs .signalled

theorem registerSchedule_get? (t : Table ScheduleRow.name) (s : ScheduleSpec) :
    (registerSchedule now t s).get? = Queue.register now t.get? s := by
  funext n
  rw [registerSchedule, Table.get?_upsert]
  by_cases hn : n = s.name
  · subst hn
    cases hg : t.get? s.name with
    | none => simp [Queue.register, hg]
    | some r =>
      have hr : r.name = s.name := t.get?_key hg
      simp [Queue.register, hg, hr]
  · have hn' : ¬s.name = n := fun h => hn h.symm
    simp [Queue.register, hn, hn']

theorem replaceSchedules_refines (specs : List ScheduleSpec) :
    db.Refines (.replaceSchedules now specs) (db.replaceSchedules (J := J) now specs) := by
  have hfold (specs : List ScheduleSpec) (t : Table ScheduleRow.name) :
      (specs.foldl (registerSchedule now) t).get? = specs.foldl (Queue.register now) t.get? := by
    induction specs generalizing t with
    | nil => rfl
    | cons _ _ ih => rw [foldl_cons, foldl_cons, ih, registerSchedule_get?]
  have hkept : (db.schedules.deleteWhere (fun r => r.name ∉ specs.map ScheduleSpec.name)).get? =
      fun n => if n ∈ specs.map ScheduleSpec.name then db.schedules.get? n else none := by
    funext n
    have hiff (r : ScheduleRow) (hr : db.schedules.get? n = some r) :
        r.name ∉ specs.map ScheduleSpec.name ↔ n ∉ specs.map ScheduleSpec.name := by
      rw [db.schedules.get?_key hr]
    rw [db.schedules.get?_deleteWhere_of_iff _ hiff, ite_not]
  have ha : (db.replaceSchedules (J := J) now specs).2.abs = db.abs.replaceSchedules now specs := by
    refine Queue.ext rfl rfl rfl ?_
    simp only [abs, replaceSchedules, Queue.replaceSchedules, hfold, hkept]
  exact refines_of_abs ha .replaceSchedules

theorem setScheduleLastRunAt_refines (name : String) (ts : ℤ) :
    db.Refines (.setScheduleLastRunAt name ts) (db.setScheduleLastRunAt (J := J) name ts) := by
  have ha : (db.setScheduleLastRunAt (J := J) name ts).2.abs = db.abs.setLastRunAt name ts := by
    refine Queue.ext rfl rfl rfl ?_
    funext n
    simp only [abs, setScheduleLastRunAt, Queue.setLastRunAt, Table.get?_updateWhere_key]
    by_cases hn : n = name
    · rw [if_pos hn, hn, update_self]
    · rw [if_neg hn, update_of_ne hn]
  exact refines_of_abs ha .setScheduleLastRunAt

theorem hasRunnableWork_refines :
    db.Refines (.hasRunnableWork now) (db.hasRunnableWork (J := J) now) := by
  apply Step.hasRunnableWork
  simp only [any_eq_true, decide_eq_true_eq]
  constructor
  · rintro ⟨r, hr, hp⟩
    exact ⟨r.id, r, mem_runs.mp hr, hp⟩
  · rintro ⟨_, r, hr, hp⟩
    exact ⟨r, (db.runs.get?_eq_some.mp hr).1, hp⟩

theorem listSchedules_refines :
    db.Refines .listSchedules (db.listSchedules (J := J) plan) := by
  apply Step.listSchedules
  · exact ((plan.schedules.perm _).map _).nodup_iff.mpr db.schedules.nodup_keys
  · intro r
    rw [ScanOrder.mem_visit, Table.mem_rows]
    rfl

/-- Each call of the SQLite store is a step of the queue. -/
theorem exec_refines (h : db.abs.Inv) (plan : Planner) (c : Call J) :
    Step sqliteRejects db.abs c (db.exec plan c).1 (db.exec plan c).2.abs := by
  cases c with
  | enqueue now nanoid name payload opts => exact db.enqueue_refines now nanoid name payload opts
  | claim now owner names leaseMs => exact db.claim_refines now plan owner names leaseMs
  | heartbeat now id owner leaseMs | complete now id owner | cancel now id owner reason
  | defer => exact db.updateOwned_refines _ rfl rfl
  | saveStep now id owner name result => exact db.saveStep_refines now id owner name result
  | fail _ _ _ _ next finalize =>
    cases finalize with
    | true => exact db.updateOwned_refines _ rfl rfl
    | false =>
      cases next with
      | none => exact .rejected rfl
      | some => exact db.updateOwned_refines _ rfl rfl
  | pruneFinishedBefore cutoffMs limit => exact db.prune_refines plan cutoffMs limit
  | reclaimExpired now => exact db.reclaim_refines now
  | reclaimExpiredWithWorkers now => exact db.reclaimWithWorkers_refines now plan
  | inFlightByWorker => exact db.inFlight_refines plan
  | waitForEvent id owner stepName eventName timeoutAtMs =>
    exact db.waitForEvent_refines id owner stepName eventName timeoutAtMs
  | signal now eventName payload => exact db.signal_refines now plan h eventName payload
  | pendingCount =>
    apply refines_of_abs rfl
    rw [db.count_eq_ncard]
    exact .pendingCount
  | hasRunnableWork now => exact db.hasRunnableWork_refines now
  | replaceSchedules now specs => exact db.replaceSchedules_refines now specs
  | listSchedules => exact db.listSchedules_refines plan
  | setScheduleLastRunAt name ts => exact db.setScheduleLastRunAt_refines name ts

structure RowInvariant : Prop where
  running_iff_worker : ∀ r ∈ db.runs.rows, r.status = .running ↔ r.workerId ≠ none
  running_iff_lease : ∀ r ∈ db.runs.rows, r.status = .running ↔ r.leaseUntil ≠ none
  terminal_iff_finished : ∀ r ∈ db.runs.rows, r.status.Terminal ↔ r.finishedAt ≠ none
  attempts_nonneg : ∀ r ∈ db.runs.rows, 0 ≤ r.attempts
  attempts_pos : ∀ r ∈ db.runs.rows, r.status = .running → 1 ≤ r.attempts
  step_run : ∀ s ∈ db.steps.rows, ∃ r ∈ db.runs.rows, r.id = s.runId
  waiter_run : ∀ w ∈ db.eventWaiters.rows, ∃ r ∈ db.runs.rows, r.id = w.runId
  no_waiter : ∀ r ∈ db.runs.rows, r.status = .running ∨ r.status.Terminal →
    ∀ w ∈ db.eventWaiters.rows, w.runId ≠ r.id
  one_waiter : ∀ r ∈ db.runs.rows, r.status = .pending → ∀ v ∈ db.eventWaiters.rows,
    ∀ w ∈ db.eventWaiters.rows, v.runId = r.id → w.runId = r.id → v = w
  waiter_due : ∀ r ∈ db.runs.rows, r.status = .pending → ∀ w ∈ db.eventWaiters.rows,
    w.runId = r.id → r.runAt = w.expiresAt.getD i64Max

variable {db}
/-- The invariant of the queue, row by row of the tables. -/
theorem rowInvariant_of_inv (h : db.abs.Inv) : db.RowInvariant := by
  have hrow (r : Run) (hr : r ∈ db.runs.rows) : r.WellFormed :=
    h.run_wellFormed r.id r (mem_runs.mp hr)
  have hwait (w : EventWaiter) (hw : w ∈ db.eventWaiters.rows) :
      ∃ r, db.abs.run w.runId = some r ∧ r.status = .pending ∧
        r.runAt = w.expiresAt.getD i64Max :=
    h.waiter_run w.key w (db.eventWaiters.mem_rows.mp hw)
  -- the run of a waiter, found again as a row with that id
  have hsame (r : Run) (hr : r ∈ db.runs.rows) (w : EventWaiter)
      (hw : w ∈ db.eventWaiters.rows) (hid : w.runId = r.id) :
      r.status = .pending ∧ r.runAt = w.expiresAt.getD i64Max := by
    obtain ⟨s, hs, hp, hdue⟩ := hwait w hw
    rw [hid, mem_runs.mp hr] at hs
    cases hs
    exact ⟨hp, hdue⟩
  refine ⟨fun r hr => (hrow r hr).running_iff_worker, fun r hr => (hrow r hr).running_iff_lease,
    fun r hr => (hrow r hr).terminal_iff_finished, fun r hr => (hrow r hr).attempts_nonneg,
    fun r hr => (hrow r hr).attempts_pos, ?_, ?_, ?_, ?_, ?_⟩
  · intro s hs
    obtain ⟨r, hr⟩ := h.step_run s.key s (db.steps.mem_rows.mp hs)
    exact ⟨r, (db.runs.get?_eq_some.mp hr).1, run_id hr⟩
  · intro w hw
    obtain ⟨r, hr, -⟩ := hwait w hw
    exact ⟨r, (db.runs.get?_eq_some.mp hr).1, run_id hr⟩
  · intro r hr hs w hw hid
    have hp := (hsame r hr w hw hid).1
    rcases hs with hs | hs
    · rw [hp] at hs
      exact absurd hs (by decide)
    · rw [hp] at hs
      exact absurd hs (by decide)
  · intro r _ _ v hv w hw hvr hwr
    have hvk := db.eventWaiters.mem_rows.mp hv
    have hwk := db.eventWaiters.mem_rows.mp hw
    apply db.eventWaiters.key_injOn hv hw
    have hname : v.stepName = w.stepName := by
      apply h.waiter_unique r.id v.stepName w.stepName v w
      · rw [← hvr]
        exact hvk
      · rw [← hwr]
        exact hwk
    rw [EventWaiter.key, EventWaiter.key, hvr, hwr, hname]
  · intro r hr _ w hw hid
    exact (hsame r hr w hw hid).2

theorem inv_after (calls : List (Planner × Call J)) :
    (Execution.after (fun pc db => exec pc.1 pc.2 db) empty calls).abs.Inv := by
  apply Execution.after_induction (P := fun db : SqliteRunsDb => db.abs.Inv)
  · exact Queue.inv_empty
  · intro pc _ db h
    exact (db.exec_refines h pc.1 pc.2).inv h

/-- Every history of calls on an empty database, whatever their arguments and
clock readings, keeps the rows in agreement. -/
theorem rowInvariant_after (calls : List (Planner × Call J)) :
    (Execution.after (fun pc db => exec pc.1 pc.2 db) empty calls).RowInvariant :=
  rowInvariant_of_inv (inv_after calls)
end SqliteRunsDb
end Tako.Workflow
