import Tako.WorkflowOwners
import Tako.WorkflowRunsDb

/-! The two backends agree: where no tie leaves the choice to the database, the queue allows one
outcome of a call only. -/
namespace Tako.Workflow
open scoped Classical
variable {J : JsonCodec} {rejects rejects' : Call J → RunsDbError → Prop}
/-- Replies that tell the caller the same: lists whose order means nothing are
compared up to order. -/
inductive Reply.Same : Reply J → Reply J → Prop where
  | refl (r : Reply J) : Same r r
  | workers {l l' : List String} (h : l.Perm l') : Same (.workers l) (.workers l')
  | inFlight {l l' : List (String × ℕ)} (h : l.Perm l') : Same (.inFlight l) (.inFlight l')
  | schedules {l l' : List ScheduleRow} (h : l.Perm l') : Same (.schedules l) (.schedules l')

def SameResult : Result J → Result J → Prop
  | .ok r, .ok s => r.Same s
  | .error e, .error f => e.message = f.message
  | _, _ => False

theorem SameResult.refl (r : Result J) : SameResult r r := by
  cases r with
  | ok reply => exact Reply.Same.refl reply
  | error => exact rfl

def Untied (q : Queue) : Call J → Prop
  | .claim now _ names _ => ∀ i j a b, q.run i = some a → q.run j = some b →
    a.Claimable now names → b.Claimable now names → a.runAt = b.runAt → i = j
  | .pruneFinishedBefore cutoffMs _ => ∀ i j a b, q.run i = some a → q.run j = some b →
    a.Prunable cutoffMs → b.Prunable cutoffMs → a.finishedAt = b.finishedAt → i = j
  | _ => True

variable {id owner : String} {db : SqliteRunsDb} {pg : PostgresTables} {q : Queue} {f : Run → Run}
theorem Queue.Next.unique {now : ClockMs} {names : List String} {leaseMs : ℕ}
    (hu : Untied q (.claim now owner names leaseMs : Call J)) {a b : Run} (ha : q.Next now names a)
    (hb : q.Next now names b) : a = b := by
  have hle := ha.least b.id b hb.stored hb.claimable
  have hge := hb.least a.id a ha.stored ha.claimable
  have htie : a.runAt = b.runAt := by omega
  have hid := hu a.id b.id a b ha.stored hb.stored ha.claimable hb.claimable htie
  have hst := ha.stored
  rw [hid, hb.stored] at hst
  exact (Option.some.inj hst).symm

variable {s t : Set String} {cutoffMs : ℤ}
theorem Queue.Oldest.subset {limit : ℕ}
    (hu : Untied q (.pruneFinishedBefore cutoffMs limit : Call J)) (hs : q.Oldest cutoffMs limit s)
    (ht : q.Oldest cutoffMs limit t) : s ⊆ t := by
  intro i hi
  by_contra hit
  have hcard : s.ncard = t.ncard := hs.ncard_eq.trans ht.ncard_eq.symm
  have hex : ∃ j ∈ t, j ∉ s := by
    by_contra hall
    have hsub : t ⊆ s := by
      intro j hj
      by_contra hjs
      exact hall ⟨j, hj, hjs⟩
    have heq : t = s := Set.eq_of_subset_of_ncard_le hsub hcard.le hs.finite
    rw [heq] at hit
    exact hit hi
  obtain ⟨j, hj, hjs⟩ := hex
  obtain ⟨a, ha, hap⟩ := hs.prunable hi
  obtain ⟨b, hb, hbp⟩ := ht.prunable hj
  have hle := hs.least i hi j hjs a b ha hb hbp
  have hge := ht.least j hj i hit b a hb ha hap
  obtain ⟨ta, hta, -⟩ := hap.2
  obtain ⟨tb, htb, -⟩ := hbp.2
  have hfin : a.finishedAt = b.finishedAt := by
    rw [Option.mem_def.mp hta, Option.mem_def.mp htb] at hle hge ⊢
    simp only [Option.getD_some] at hle hge
    have htie : ta = tb := by omega
    rw [htie]
  have hij := hu i j a b ha hb hap hbp hfin
  rw [hij] at hi
  exact hjs hi

theorem Queue.Oldest.unique {limit : ℕ}
    (hu : Untied q (.pruneFinishedBefore cutoffMs limit : Call J)) (hs : q.Oldest cutoffMs limit s)
    (ht : q.Oldest cutoffMs limit t) : s = t :=
  Set.Subset.antisymm (hs.subset hu ht) (ht.subset hu hs)

variable {c : Call J}
theorem Step.write_cases {q' : Queue} {r : Result J} (hs : Step (fun _ _ => False) q c r q')
    (hc : c.caller = some (id, owner)) (hw : c.write = some f) :
    (¬q.Owns id owner ∧ r = .error .staleWorker ∧ q' = q) ∨
      ∃ a, q.run id = some a ∧ a.OwnedBy owner ∧ r = .ok .done ∧ q' = q.setRun (f a) := by
  cases hs with
  | rejected hr => cases hr
  | @stale c id' owner' hc' ho =>
    rw [hc] at hc'
    cases hc'
    exact .inl ⟨ho, rfl, rfl⟩
  | @written c id' owner' g a hc' hw' ha ho =>
    rw [hc] at hc'
    cases hc'
    rw [hw] at hw'
    cases hw'
    exact .inr ⟨a, ha, ho, rfl, rfl⟩
  | _ => exact absurd hw (by simp [Call.write])

variable {q₁ q₂ : Queue} {r₁ r₂ : Result J}
theorem Step.write_unique (h₁ : Step (fun _ _ => False) q c r₁ q₁)
    (h₂ : Step (fun _ _ => False) q c r₂ q₂) (hc : c.caller = some (id, owner))
    (hw : c.write = some f) :
    SameResult r₁ r₂ ∧ q₁ = q₂ := by
  rcases h₁.write_cases hc hw with ⟨hno, hr₁, hq₁⟩ | ⟨a, ha, hoa, hr₁, hq₁⟩
  · rcases h₂.write_cases hc hw with ⟨-, hr₂, hq₂⟩ | ⟨b, hb, hob, -⟩
    · rw [hr₁, hr₂, hq₁, hq₂]
      exact ⟨.refl _, rfl⟩
    · exact absurd ⟨b, hb, hob⟩ hno
  · rcases h₂.write_cases hc hw with ⟨hno, -⟩ | ⟨b, hb, hob, hr₂, hq₂⟩
    · exact absurd ⟨a, ha, hoa⟩ hno
    · rw [ha] at hb
      cases hb
      rw [hr₁, hr₂, hq₁, hq₂]
      exact ⟨.refl _, rfl⟩

theorem perm_of_nodup_map {α β : Type} {f : α → β} {l l' : List α} (hl : (l.map f).Nodup)
    (hl' : (l'.map f).Nodup) (h : ∀ a, a ∈ l ↔ a ∈ l') : l.Perm l' :=
  (List.perm_ext_iff_of_nodup (hl.of_map f) (hl'.of_map f)).mpr h

/-- Without ties, a call has one outcome. -/
theorem Step.unique (h₁ : Step rejects q c r₁ q₁) (h₂ : Step rejects' q c r₂ q₂)
    (hn₁ : ∀ e, ¬rejects c e) (hn₂ : ∀ e, ¬rejects' c e) (hu : Untied q c) :
    SameResult r₁ r₂ ∧ q₁ = q₂ := by
  have hsame {r : Result J} {q' : Queue} : SameResult r r ∧ q' = q' := ⟨.refl r, rfl⟩
  replace h₁ : Step (fun _ _ => False) q c r₁ q₁ := h₁.mono hn₁
  replace h₂ : Step (fun _ _ => False) q c r₂ q₂ := h₂.mono hn₂
  cases h₁ with
  | rejected hr => cases hr
  | stale hc ha =>
    obtain ⟨hq, hr | ⟨_, _, hr⟩⟩ := h₂.fenced hc ha
    · rw [hq, hr]
      exact hsame
    · cases hr
  | written hc hw ha ho => exact Step.write_unique (.written hc hw ha ho) h₂ hc hw
  | enqueueNew ha =>
    cases h₂ with
    | rejected h | stale h | written h => cases h
    | enqueueNew => exact hsame
    | enqueueKnown hb => exact absurd (ha.symm.trans hb) (by simp)
  | enqueueKnown ha =>
    cases h₂ with
    | rejected h | stale h | written h => cases h
    | enqueueNew hb => exact absurd (hb.symm.trans ha) (by simp)
    | enqueueKnown hb =>
      rw [ha] at hb
      cases hb
      exact hsame
  | claimNothing ha =>
    cases h₂ with
    | rejected h | stale h | written h => cases h
    | claimNothing => exact hsame
    | claimNext hb => exact absurd hb.claimable (ha _ _ hb.stored)
  | claimNext ha hra =>
    cases h₂ with
    | rejected h | stale h | written h => cases h
    | claimNothing hb => exact absurd ha.claimable (hb _ _ ha.stored)
    | claimNext hb hrb =>
      rw [ha.unique hu hb] at hra
      rw [hra, hrb]
      exact hsame
  | saved ha =>
    cases h₂ with
    | rejected h | written _ h => cases h
    | stale hc hb =>
      cases hc
      exact absurd ha hb
    | saved => exact hsame
  | waiting ha hoa =>
    cases h₂ with
    | rejected h | written _ h => cases h
    | stale hc hb =>
      cases hc
      exact absurd ⟨_, ha, hoa⟩ hb
    | waiting hb =>
      rw [ha] at hb
      cases hb
      exact hsame
  | pruned ha =>
    cases h₂ with
    | rejected h | stale h | written h => cases h
    | pruned hb =>
      rw [ha.unique hu hb]
      exact hsame
  | reclaimedFrom ha =>
    cases h₂ with
    | rejected h | stale h | written h => cases h
    | reclaimedFrom hb =>
      exact ⟨.workers (List.perm_iff_count.mpr fun o => (ha o).trans (hb o).symm), rfl⟩
  | inFlight hna ha =>
    cases h₂ with
    | rejected h | stale h | written h => cases h
    | inFlight hnb hb =>
      exact ⟨.inFlight (perm_of_nodup_map hna hnb fun kv =>
        (ha kv.1 kv.2).trans (hb kv.1 kv.2).symm), rfl⟩
  | listSchedules hna ha =>
    cases h₂ with
    | rejected h | stale h | written h => cases h
    | listSchedules hnb hb =>
      exact ⟨.schedules (perm_of_nodup_map hna hnb fun r => (ha r).trans (hb r).symm), rfl⟩
  | hasRunnableWork ha =>
    cases h₂ with
    | rejected h | stale h | written h => cases h
    | hasRunnableWork hb =>
      rw [Bool.eq_iff_iff.mpr (ha.trans hb.symm)]
      exact hsame
  | _ =>
    -- what such a call replies and leaves is a function of the queue
    cases h₂ with
    | rejected h | stale h | written h => cases h
    | _ => exact hsame

/-- A call of one app, and the scan orders of the two databases when it runs. -/
structure AppCall (J : JsonCodec) where
  appId : String
  sqlitePlan : Planner
  postgresPlan : Planner
  call : Call J

def runSqlite (appId : String) : List (AppCall J) → SqliteRunsDb → List (Result J) × SqliteRunsDb
  | [], db => ([], db)
  | o :: rest, db =>
    if o.appId = appId then
      let (r, db') := db.exec o.sqlitePlan o.call
      let (rs, db'') := runSqlite appId rest db'
      (r :: rs, db'')
    else runSqlite appId rest db

/-- The Postgres tables run the calls of all apps; the results are those of
`appId`. -/
def runPostgres (appId : String) :
    List (AppCall J) → PostgresTables → List (Result J) × PostgresTables
  | [], pg => ([], pg)
  | o :: rest, pg =>
    let (r, pg') := pg.exec o.postgresPlan o.appId o.call
    let (rs, pg'') := runPostgres appId rest pg'
    (if o.appId = appId then r :: rs else rs, pg'')

/-- Along the run no call of `appId` meets a tie or sends a NUL character. -/
def Comparable (appId : String) : List (AppCall J) → SqliteRunsDb → Prop
  | [], _ => True
  | o :: rest, db =>
    if o.appId = appId then
      NulFree (appId :: o.call.texts) ∧ Untied db.abs o.call ∧
        Comparable appId rest (db.exec o.sqlitePlan o.call).2
    else Comparable appId rest db

theorem exec_agrees {appId : String} (habs : (pg.view appId).abs = db.abs) (h : db.abs.Inv)
    (plan plan' : Planner) (hnul : NulFree (appId :: c.texts)) (hu : Untied db.abs c) :
    SameResult (pg.exec plan' appId c).1 (db.exec plan c).1 ∧
      ((pg.exec plan' appId c).2.view appId).abs = (db.exec plan c).2.abs := by
  by_cases hc : ∃ e, sqliteRejects c e
  · obtain ⟨e, he⟩ := hc
    obtain ⟨_, hx, -, hmsg⟩ := pg.exec_rejected appId plan' he
    obtain ⟨rfl, _, _, _, _, rfl⟩ := sqliteRejects_cases he
    rw [hx]
    exact ⟨hmsg, habs⟩
  · have hn : ∀ e, ¬sqliteRejects c e := fun e he => hc ⟨e, he⟩
    have hv : (pg.view appId).abs.Inv := by
      rw [habs]
      exact h
    rcases pg.exec_outcome appId plan' hv c hn with ⟨-, ht⟩ | hact
    · exact absurd hnul ht
    · rw [hact.reply, hact.app]
      have hpg := (pg.view appId).exec_refines hv plan' c
      rw [habs] at hpg
      exact hpg.unique (db.exec_refines h plan c) hn hn hu

theorem runPostgres_inv (appId : String) (ops : List (AppCall J)) (h : ∀ a, (pg.view a).abs.Inv)
    (a : String) : ((runPostgres appId ops pg).2.view a).abs.Inv := by
  induction ops generalizing pg with
  | nil => exact h a
  | cons o _ ih => exact ih (RunsDb.pg_inv_exec h o.postgresPlan o.appId o.call)

/-- By induction on the calls, with the states equal as queues. -/
theorem runs_agree (appId : String) (ops : List (AppCall J)) (habs : (pg.view appId).abs = db.abs)
    (h : ∀ a, (pg.view a).abs.Inv) (hc : Comparable appId ops db) :
    List.Forall₂ SameResult (runPostgres appId ops pg).1 (runSqlite appId ops db).1 ∧
      ((runPostgres appId ops pg).2.view appId).abs = (runSqlite appId ops db).2.abs := by
  induction ops generalizing db pg with
  | nil => exact ⟨.nil, habs⟩
  | cons o _ ih =>
    have hdb : db.abs.Inv := by
      rw [← habs]
      exact h appId
    have hinv : ∀ a, ((pg.exec o.postgresPlan o.appId o.call).2.view a).abs.Inv :=
      RunsDb.pg_inv_exec h o.postgresPlan o.appId o.call
    simp only [runPostgres, runSqlite]
    simp only [Comparable] at hc
    by_cases ho : o.appId = appId
    · rw [if_pos ho] at hc
      rw [if_pos ho, if_pos ho]
      obtain ⟨hsame, habs'⟩ := exec_agrees habs hdb o.sqlitePlan o.postgresPlan hc.1 hc.2.1
      rw [ho] at hinv ⊢
      obtain ⟨hrest, hfin⟩ := ih habs' hinv hc.2.2
      exact ⟨.cons hsame hrest, hfin⟩
    · -- a call of another app: this app's rows and results stay as they are
      rw [if_neg ho] at hc
      rw [if_neg ho, if_neg ho]
      have hv := pg.exec_others o.appId o.postgresPlan (h o.appId) o.call (Ne.symm ho)
      exact ih (by rw [hv]; exact habs) hinv hc

/-- Calls of any apps, run one after another: for each app the Postgres tables
give the results that its own SQLite store gives and hold the same queue, and no
operation touches the rows of another app. -/
theorem backends_agree (appId : String) (ops : List (AppCall J)) :
    (Comparable appId ops .empty →
      List.Forall₂ SameResult (runPostgres appId ops .empty).1 (runSqlite appId ops .empty).1 ∧
      ((runPostgres appId ops .empty).2.view appId).abs = (runSqlite appId ops .empty).2.abs) ∧
    ∀ plan a (c : Call J) b, b ≠ a →
      ((runPostgres appId ops .empty).2.exec plan a c).2.view b =
        (runPostgres appId ops .empty).2.view b := by
  have hempty : (PostgresTables.empty.view appId).abs = SqliteRunsDb.empty.abs := rfl
  have hinv (a : String) : (PostgresTables.empty.view a).abs.Inv := Queue.inv_empty
  constructor
  · intro hc
    exact runs_agree appId ops hempty hinv hc
  · intro plan a c b hb
    exact PostgresTables.exec_others _ a plan (runPostgres_inv appId ops hinv a) c hb

/-- The queue can answer the calls with these replies, one after another. -/
inductive Queue.Runs (rejects : Call J → RunsDbError → Prop) :
    Queue → List (Call J) → List (Result J) → Queue → Prop where
  | nil {q : Queue} : Runs rejects q [] [] q
  | cons {q q' q'' : Queue} {c r calls replies} (hstep : Step rejects q c r q')
    (hrest : Runs rejects q' calls replies q'') :
    Runs rejects q (c :: calls) (r :: replies) q''

def callsOf (appId : String) : List (AppCall J) → List (Call J)
  | [] => []
  | o :: rest => if o.appId = appId then o.call :: callsOf appId rest else callsOf appId rest

theorem runPostgres_runs (appId : String) (ops : List (AppCall J)) (h : ∀ a, (pg.view a).abs.Inv) :
    Queue.Runs (postgresRejects appId) (pg.view appId).abs (callsOf appId ops)
      (runPostgres appId ops pg).1 ((runPostgres appId ops pg).2.view appId).abs := by
  induction ops generalizing pg with
  | nil => exact .nil
  | cons o _ ih =>
    have hrest := ih (RunsDb.pg_inv_exec h o.postgresPlan o.appId o.call)
    by_cases ho : o.appId = appId
    · subst ho
      simp only [callsOf, runPostgres, if_true]
      exact .cons (pg.exec_refines o.appId o.postgresPlan (h _) o.call) hrest
    · -- a call of another app leaves the rows of this one as they are
      rw [pg.exec_others o.appId o.postgresPlan (h _) o.call (Ne.symm ho)] at hrest
      simp only [callsOf, runPostgres, if_neg ho]
      exact hrest

theorem runSqlite_runs (appId : String) (ops : List (AppCall J)) (h : db.abs.Inv) :
    Queue.Runs sqliteRejects db.abs (callsOf appId ops)
      (runSqlite appId ops db).1 (runSqlite appId ops db).2.abs := by
  induction ops generalizing db with
  | nil => exact .nil
  | cons o _ ih =>
    by_cases ho : o.appId = appId
    · have hstep := db.exec_refines h o.sqlitePlan o.call
      simp only [callsOf, runSqlite, if_pos ho]
      exact .cons hstep (ih (hstep.inv h))
    · simp only [callsOf, runSqlite, if_neg ho]
      exact ih h

/-- What an app sees of the tables that it shares is a run of a queue of its own, and so is what
it sees of a database of its own. -/
theorem apps_run_their_own_queue (appId : String) (ops : List (AppCall J)) :
    Queue.Runs (postgresRejects appId) .empty (callsOf appId ops)
        (runPostgres appId ops .empty).1 ((runPostgres appId ops .empty).2.view appId).abs ∧
      Queue.Runs sqliteRejects .empty (callsOf appId ops) (runSqlite appId ops .empty).1
        (runSqlite appId ops .empty).2.abs := by
  have hpostgres (a : String) : (PostgresTables.empty.view a).abs.Inv := Queue.inv_empty
  have hsqlite : SqliteRunsDb.empty.abs.Inv := Queue.inv_empty
  exact ⟨runPostgres_runs appId ops hpostgres, runSqlite_runs appId ops hsqlite⟩

/-- Two apps enqueue under the same ID, and one of them signals an event. -/
def twoApps : List (AppCall JsonCodec.literals) :=
  [⟨"app", .stored, .stored, .enqueue .epoch "run" "work" JsonLiteral.null ⟨none, none, none⟩⟩,
    ⟨"other", .stored, .stored, .enqueue .epoch "run" "task" JsonLiteral.true ⟨none, none, none⟩⟩,
    ⟨"app", .stored, .stored, .signal .epoch "event" JsonLiteral.null⟩]

theorem backends_agree_twoApps :
    List.Forall₂ SameResult (runPostgres "app" twoApps .empty).1
      (runSqlite "app" twoApps .empty).1 :=
  ((backends_agree "app" twoApps).1 ⟨by decide, trivial, by decide, trivial, trivial⟩).1

def nulSignal : List (AppCall JsonCodec.literals) :=
  [⟨"app", .stored, .stored, .signal .epoch "\x00" JsonLiteral.null⟩]

/-- Two runs with different due times finish together, and a prune takes one. -/
def tiedPrune : List (AppCall JsonCodec.literals) :=
  let plan : Planner := ⟨.backward, .stored, .stored, .stored⟩
  [⟨"app", .stored, plan, .enqueue .epoch "a" "work" JsonLiteral.null ⟨some (-2), none, none⟩⟩,
    ⟨"app", .stored, plan, .enqueue .epoch "b" "work" JsonLiteral.null ⟨some (-1), none, none⟩⟩,
    ⟨"app", .stored, plan, .claim .epoch "one" ["work"] 1000⟩,
    ⟨"app", .stored, plan, .claim .epoch "two" ["work"] 1000⟩,
    ⟨"app", .stored, plan, .complete .epoch "a" "one"⟩,
    ⟨"app", .stored, plan, .complete .epoch "b" "two"⟩,
    ⟨"app", .stored, plan, .pruneFinishedBefore 0 1⟩]

/-- Postgres turns a NUL character down where SQLite stores it, and runs that
finished in the same millisecond are pruned in an order that each database
chooses. -/
theorem backends_differ :
    ¬List.Forall₂ SameResult (runPostgres "app" nulSignal .empty).1
      (runSqlite "app" nulSignal .empty).1 ∧
    ((runSqlite "app" tiedPrune .empty).2.abs.run "a").isSome = false ∧
    (((runPostgres "app" tiedPrune .empty).2.view "app").abs.run "a").isSome = true := by
  refine ⟨?_, by decide, by decide⟩
  intro h
  cases h with
  | cons hsame => exact hsame

end Tako.Workflow
