import Tako.WorkflowWorker
import Tako.WorkflowSteps

/-! The retry budget across the SDK and the queue, while the lease of a run does not expire. -/
namespace Tako.Workflow
open List Function Option
open scoped Classical
variable {J : JsonCodec} {rejects : Call J → RunsDbError → Prop}
structure Run.SameBudget (a b : Run) : Prop where
  status : b.status = a.status
  attempts : b.attempts = a.attempts
  maxAttempts : b.maxAttempts = a.maxAttempts
  workerId : b.workerId = a.workerId

theorem Run.SameBudget.refl (a : Run) : a.SameBudget a := ⟨rfl, rfl, rfl, rfl⟩

variable {id : String}
theorem Queue.run_setRun (q : Queue) {r : Run} (h : r.id = id) : (q.setRun r).run id = some r := by
  rw [Queue.setRun, ← h]
  exact update_self ..

/-- The call neither claims nor ends the claim of the run, and does not find its
lease expired. -/
def Call.Spares (q : Queue) (id : String) : Call J → Prop
  | .claim .. => False
  | .complete _ id' _ => id' ≠ id
  | .cancel _ id' _ _ => id' ≠ id
  | .fail _ id' _ _ _ _ => id' ≠ id
  | .defer id' _ _ => id' ≠ id
  | .waitForEvent id' _ _ _ _ => id' ≠ id
  | .reclaimExpired now => ∀ r, q.run id = some r → ¬r.LeaseExpired now
  | .reclaimExpiredWithWorkers now => ∀ r, q.run id = some r → ¬r.LeaseExpired now
  | _ => True

variable {q q' : Queue} {r : Result J} {c : Call J}
/-- A call that spares a run leaves its attempts and their limit. -/
theorem Step.spares (hs : Step rejects q c r q') (hq : q.Inv) (hc : c.Spares q id) {a : Run}
    (ha : q.run id = some a) (hlives : q'.run id ≠ none) :
    ∃ b, q'.run id = some b ∧ a.SameBudget b := by
  have hrow := hs.row hq id
  rw [ha] at hrow
  generalize q'.run id = b at hrow hlives ⊢
  cases hrow with
  | kept => exact ⟨a, rfl, .refl a⟩
  | claimed hcall =>
    subst hcall
    exact hc.elim
  | written hcaller hw =>
    cases c with
    | heartbeat =>
      cases hw
      exact ⟨_, rfl, ⟨rfl, rfl, rfl, rfl⟩⟩
    | complete | cancel | fail | defer =>
      cases hcaller
      exact absurd rfl hc
    | _ => simp [Call.write] at hw
  | parked hcall =>
    subst hcall
    exact absurd rfl hc
  | pruned => exact absurd rfl hlives
  | reclaimed hcall hexpired =>
    obtain rfl | rfl := hcall
    · exact absurd hexpired (hc a ha)
    · exact absurd hexpired (hc a ha)
  | signalled => exact ⟨_, rfl, ⟨rfl, rfl, rfl, rfl⟩⟩

variable {owner : String}
theorem Step.owner_write (hs : Step rejects q c r q') (hc : c.caller = some (id, owner))
    {f : Run → Run} (hw : c.write = some f) {a : Run} (ha : q.run id = some a)
    (ho : a.OwnedBy owner) (hn : ∀ e, ¬rejects c e) :
    r = .ok .done ∧ q' = q.setRun (f a) := by
  cases hs with
  | rejected hr => exact absurd hr (hn _)
  | stale hc' hn' =>
    rw [hc] at hc'
    cases hc'
    exact absurd ⟨a, ha, ho⟩ hn'
  | written hc' hw' hr =>
    rw [hc] at hc'
    cases hc'
    rw [hw] at hw'
    cases hw'
    rw [ha] at hr
    cases hr
    exact ⟨rfl, rfl⟩
  | saved | waiting => simp [Call.write] at hw
  | _ => exact absurd hc (by simp [Call.caller])

variable {now : ClockMs}
theorem Step.enqueued_new {nanoid name : String} {payload : J.Value} {opts : EnqueueOpts}
    (hs : Step rejects q (.enqueue now nanoid name payload opts) (.ok (.enqueued ⟨id, false⟩)) q') :
    (Queue.newRun now nanoid name (J.toStr payload) opts).id = id ∧
      q' = q.setRun (Queue.newRun now nanoid name (J.toStr payload) opts) := by
  generalize hr : (Except.ok (.enqueued ⟨id, false⟩) : Result J) = r at hs
  cases hs with
  | rejected => cases hr
  | enqueueNew =>
    cases hr
    exact ⟨rfl, rfl⟩
  | @enqueueKnown _ _ _ _ _ s h =>
    -- a run that was there already is reported as a duplicate
    revert hr
    cases checkExistingRun J (opts.id.getD nanoid) name payload s.name s.payload <;>
      simp [Except.map]
  | stale hc | written hc => cases hc

theorem Step.fail_refused {error : String}
    (hs : Step rejects q (.fail now id owner error none false : Call J) r q') : q' = q := by
  cases hs with
  | rejected | stale => rfl
  | written _ hw => simp [Call.write] at hw

theorem Step.owner_wait {stepName eventName : String} {timeoutAtMs : Option ℤ}
    (hs : Step rejects q (.waitForEvent id owner stepName eventName timeoutAtMs : Call J) r q')
    {a : Run} (ha : q.run id = some a) (ho : a.OwnedBy owner)
    (hn : ∀ e, ¬rejects (.waitForEvent id owner stepName eventName timeoutAtMs) e) :
    q'.run = (q.setRun (a.parked (timeoutAtMs.getD i64Max))).run := by
  cases hs with
  | rejected hr => exact absurd hr (hn _)
  | stale hc' hn' =>
    cases hc'
    exact absurd ⟨a, ha, ho⟩ hn'
  | written _ hw' => simp [Call.write] at hw'
  | waiting hr =>
    rw [ha] at hr
    cases hr
    rfl

theorem Step.other_caller (hs : Step rejects q c r q') (hq : q.Inv) {id' : String}
    (hc : c.caller = some (id', owner)) (hid : id' ≠ id) : q'.run id = q.run id := by
  cases hs with
  | rejected | stale | saved => rfl
  | @written c id₀ owner₀ f s hc' hw hr ho =>
    rw [hc] at hc'
    cases hc'
    have hkeep := (Call.write_wellFormed hw (hq.run_wellFormed id' s hr) ho).2
    rw [hq.run_id id' s hr] at hkeep
    exact update_of_ne (by rw [hkeep]; exact Ne.symm hid) ..
  | @waiting id₀ owner₀ stepName eventName timeoutAtMs s hr ho =>
    cases hc
    have hkeep : (s.parked (timeoutAtMs.getD i64Max)).id = id' := hq.run_id id' s hr
    exact update_of_ne (by rw [hkeep]; exact Ne.symm hid) ..
  | _ => exact absurd hc (by simp [Call.caller])

theorem Step.claim_cases {names : List String} {leaseMs : ℕ}
    (hs : Step rejects q (.claim now owner names leaseMs) r q') :
    (∃ a p, q.Next now names a ∧ r = .ok (.claimed (some p)) ∧
      q' = q.claim now (a.claimedBy owner (saturatingAdd now.ms (clampLeaseMs leaseMs))) ∧
      p = q'.payloadOf J owner (a.claimedBy owner (saturatingAdd now.ms (clampLeaseMs leaseMs)))) ∨
    q' = q ∧ ∀ p, r ≠ .ok (.claimed (some p)) := by
  cases hs with
  | rejected | claimNothing => exact .inr ⟨rfl, nofun⟩
  | @claimNext _ _ _ _ a a' hn hr =>
    subst hr
    exact .inl ⟨a, _, hn, rfl, rfl, rfl⟩
  | stale hc | written hc => cases hc

section
variable {α : Type} {p : α → Bool} {l : List α} {i : ℕ} {x : α}
theorem filter_eraseIdx_of_neg (h : l[i]? = some x) (hp : p x = false) :
    (l.eraseIdx i).filter p = l.filter p := by
  induction l generalizing i with
  | nil => rfl
  | cons y l ih =>
    cases i with
    | zero =>
      cases h
      rw [eraseIdx_cons_zero, filter_cons_of_neg (by simp [hp])]
    | succ =>
      rw [getElem?_cons_succ] at h
      rw [eraseIdx_cons_succ, filter_cons, filter_cons, ih h]

theorem filter_eraseIdx_of_single {y : α} (h : l[i]? = some x) (hp : p x = true)
    (hf : l.filter p = [y]) : x = y ∧ (l.eraseIdx i).filter p = [] := by
  induction l generalizing i with
  | nil => cases h
  | cons z l ih =>
    cases i with
    | zero =>
      cases h
      rw [filter_cons_of_pos hp, List.cons.injEq] at hf
      rw [eraseIdx_cons_zero]
      exact hf
    | succ =>
      rw [getElem?_cons_succ] at h
      by_cases hz : p z = true
      · -- a second element cannot pass the filter
        rw [filter_cons_of_pos hz, List.cons.injEq] at hf
        have hmem : x ∈ l.filter p := mem_filter.mpr ⟨mem_of_getElem? h, hp⟩
        rw [hf.2] at hmem
        exact absurd hmem not_mem_nil
      · rw [filter_cons_of_neg hz] at hf
        rw [eraseIdx_cons_succ, filter_cons_of_neg hz]
        exact ih h hf
end

def Outcome.throws : Outcome → Bool
  | .threw _ => true
  | _ => false

def Outcome.Ends : Outcome → Prop
  | .returned => True
  | .bail _ => True
  | .fail _ => True
  | _ => False

def throws (outs : List Outcome) : ℕ := outs.countP Outcome.throws

def RunsDb.IsSqlite : RunsDb → Prop
  | .sqlite _ => True
  | .postgres .. => False

namespace RunsDb
variable {db : RunsDb}
theorem IsSqlite.exec (h : db.IsSqlite) (e : StoreEvent J) : (db.exec e).2.IsSqlite := by
  cases db with
  | postgres => exact h.elim
  | sqlite =>
    cases e with
    | call =>
      simp only [RunsDb.exec, RunsDb.call]
      split <;> exact h
    | foreign => exact h

theorem IsSqlite.not_rejects (h : db.IsSqlite) {c : Call J} {k : String × String}
    (hc : c.caller = some k) (hf : ∀ now id owner error, c ≠ .fail now id owner error none false)
    (e : RunsDbError) : ¬db.rejects c e := by
  cases db with
  | postgres => exact h.elim
  | sqlite =>
    rintro (⟨-, i, hi, -⟩ | hr)
    · cases c <;> first | cases hi | cases hc
    · obtain ⟨-, now, id, owner, error, rfl⟩ := sqliteRejects_cases hr
      exact hf now id owner error rfl
end RunsDb

theorem outcomeCall_caller (run : ClientRun J) (now : ClockMs) (retryAt : JsDate) (o : Outcome) :
    (outcomeCall run now retryAt o).caller = some (run.id, run.workerId) := by
  cases o <;> rfl

theorem Worker.execute_caller {w : Worker} {run : ClientRun J} {retryAt : JsDate} {o : Outcome}
    (h : w.execute run now retryAt o = some c) : c.caller = some (run.id, run.workerId) := by
  unfold Worker.execute at h
  split at h
  · cases h
  · split at h
    · cases h
      rfl
    · cases h
      exact outcomeCall_caller ..

variable (x : Executing J) (plan : Planner) (now) (retryAt : JsDate) (o : Outcome) {db : RunsDb}
theorem Executing.finish_induction {P : RunsDb → Prop} (h0 : P db)
    (hcall : ∀ (c : Call J) db, c.caller = some (x.run.id, x.run.workerId) → P db →
      P (db.call plan c).2) : P (x.finish plan now retryAt o db) := by
  unfold Executing.finish
  cases hc : x.worker.execute x.run now retryAt o with
  | none => exact h0
  | some c =>
    have hfirst := hcall c db (Worker.execute_caller hc) h0
    dsimp only
    split
    · exact hfirst
    · cases hc' : Worker.afterReply x.run now retryAt o (db.call plan c).1 with
      | none => exact hfirst
      | some c' =>
        apply hcall c' _ _ hfirst
        unfold Worker.afterReply at hc'
        split at hc'
        · cases hc'
          rfl
        · cases hc'

theorem Executing.finish_other (h : db.Inv) (hid : x.run.id ≠ id) :
    (x.finish plan now retryAt o db).abs.run id = db.abs.run id := by
  have hboth : (x.finish plan now retryAt o db).Inv ∧
      (x.finish plan now retryAt o db).abs.run id = db.abs.run id := by
    apply x.finish_induction (P := fun db' => db'.Inv ∧ db'.abs.run id = db.abs.run id)
    · exact ⟨h, rfl⟩
    · intro c _ hc hdb'
      refine ⟨RunsDb.exec_inv hdb'.1 (.call plan c), ?_⟩
      rw [(RunsDb.call_refines hdb'.1 plan c).other_caller hdb'.1.abs hc hid]
      exact hdb'.2
  exact hboth.2

namespace WorkerSystem
variable (sys : WorkerSystem J)
def executionsOf (id : String) : List (Executing J) :=
  sys.executing.filter fun x => x.run.id = id

def outcome (id : String) : WorkerEvent J → Option Outcome
  | .finish i _ _ _ o => (sys.executing[i]?).bind fun x => if x.run.id = id then some o else none
  | _ => none

def outcomes (sys : WorkerSystem J) (id : String) : List (WorkerEvent J) → List Outcome
  | [] => []
  | e :: events => (sys.outcome id e).toList ++ outcomes (sys.exec e).2 id events

/-- The run is driven by workers: they alone claim it and end its claims, its
lease does not expire, and it is not pruned. -/
def Driven (sys : WorkerSystem J) (id : String) : List (WorkerEvent J) → Prop
  | [] => True
  | e :: events => (∀ plan c, e = .store (.call plan c) → c.Spares sys.store.abs id) ∧
    (sys.exec e).2.store.abs.run id ≠ none ∧ Driven (sys.exec e).2 id events

/-- Where a run with budget `n` stands after its executions ended with `outs`. -/
inductive Budget (id : String) (n : ℕ) (outs : List Outcome) (sys : WorkerSystem J) : Prop where
  | pending {r : Run} (row : sys.store.abs.run id = some r) (max : r.maxAttempts = n)
    (status : r.status = .pending) (attempts : r.attempts = throws outs) (room : throws outs < n)
    (goes : ∀ o ∈ outs, ¬o.Ends) (idle : sys.executionsOf id = [])
  | running {r : Run} {x : Executing J} (row : sys.store.abs.run id = some r)
    (max : r.maxAttempts = n) (owned : r.OwnedBy x.run.workerId)
    (attempts : r.attempts = throws outs + 1) (room : throws outs < n)
    (goes : ∀ o ∈ outs, ¬o.Ends) (one : sys.executionsOf id = [x])
    (shown : x.run.attempts = throws outs + 1) (retries : x.run.retries = n - 1)
    (known : x.run.name ∈ x.worker.registry) (owner : x.run.workerId ≠ "")
  /-- The time of the retry was not a valid date, and the queue turned it down. -/
  | stuck {r : Run} (row : sys.store.abs.run id = some r) (status : r.status = .running)
    (room : throws outs < n) (goes : ∀ o ∈ outs, ¬o.Ends) (idle : sys.executionsOf id = [])
  | ended {r : Run} (row : sys.store.abs.run id = some r) (status : r.status.Terminal)
    (dead : r.status = .dead ↔ throws outs = n ∨ ∃ m, .fail m ∈ outs) (le : throws outs ≤ n)
    (idle : sys.executionsOf id = [])

variable {sys : WorkerSystem J} {n : ℕ} {outs : List Outcome}
theorem Budget.of_same (hb : Budget id n outs sys) {sys' : WorkerSystem J}
    (hrow : ∀ a, sys.store.abs.run id = some a →
      ∃ b, sys'.store.abs.run id = some b ∧ a.SameBudget b)
    (hexec : sys'.executionsOf id = sys.executionsOf id) : Budget id n outs sys' := by
  cases hb with
  | pending row max status attempts room goes idle =>
    obtain ⟨b, hb, hs⟩ := hrow _ row
    exact .pending hb (hs.maxAttempts.trans max) (hs.status.trans status)
      (hs.attempts.trans attempts) room goes (hexec.trans idle)
  | running row max owned attempts room goes one shown retries known owner =>
    obtain ⟨b, hb, hs⟩ := hrow _ row
    exact .running hb (hs.maxAttempts.trans max)
      ⟨hs.workerId.trans owned.1, hs.status.trans owned.2⟩ (hs.attempts.trans attempts) room goes
      (hexec.trans one) shown retries known owner
  | stuck row status room goes idle =>
    obtain ⟨b, hb, hs⟩ := hrow _ row
    exact .stuck hb (hs.status.trans status) room goes (hexec.trans idle)
  | ended row status dead le idle =>
    obtain ⟨b, hb, hs⟩ := hrow _ row
    exact .ended hb (by rw [hs.status]; exact status) (by rw [hs.status]; exact dead) le
      (hexec.trans idle)

theorem Budget.of_eq (hb : Budget id n outs sys) {sys' : WorkerSystem J}
    (hrow : sys'.store.abs.run id = sys.store.abs.run id)
    (hexec : sys'.executionsOf id = sys.executionsOf id) : Budget id n outs sys' :=
  hb.of_same (fun a ha => ⟨a, hrow.trans ha, .refl a⟩) hexec

theorem executionsOf_append (x : Executing J) (store : RunsDb) :
    (⟨store, sys.executing ++ [x]⟩ : WorkerSystem J).executionsOf id =
      sys.executionsOf id ++ if x.run.id = id then [x] else [] := by
  simp only [executionsOf, filter_append]
  by_cases hx : x.run.id = id <;> simp [hx]

theorem newClaimOwner_ne_empty (workerId : String) (nanoid : Nanoid) :
    newClaimOwner workerId nanoid ≠ "" := by
  intro h
  have hlist := congrArg String.toList h
  simp [newClaimOwner, String.toList_append] at hlist

theorem asU32_of_lt {m : ℤ} {k : ℕ} (hm : m = k) (hk : k < 2 ^ 32) : asU32 m = k := by
  unfold asU32
  omega

theorem Budget.claim (hb : Budget id n outs sys) (h : sys.store.Inv) (hn : n < 2 ^ 32) (w : Worker)
    (plan : Planner) (now : ClockMs) (nanoid : Nanoid) :
    Budget id n outs (sys.exec (.claim w plan now nanoid)).2 ∧
      ∀ p, (sys.exec (.claim w plan now nanoid)).1 = some (.ok (.claimed (some p))) → p.id = id →
        p.attempts = throws outs + 1 ∧ throws outs < n ∧ ∀ o ∈ outs, ¬o.Ends := by
  have hstep := RunsDb.call_refines h plan (claimCall (J := J) w now nanoid)
  set out := sys.store.call plan (claimCall (J := J) w now nanoid) with hout
  have hreply : (sys.exec (.claim w plan now nanoid)).1 = some out.1 := rfl
  rcases Step.claim_cases hstep with ⟨a, p, hnext, hr, hq, hp⟩ | ⟨hq, hnone⟩
  · have hsys : (sys.exec (.claim w plan now nanoid)).2 =
        ⟨out.2, sys.executing ++ [⟨w, rawToRun p⟩]⟩ := by
      simp only [exec, ← hout, hr]
    rw [hsys, hreply, hr]
    set b := a.claimedBy (newClaimOwner w.workerId nanoid)
      (saturatingAdd now.ms (clampLeaseMs w.leaseMs)) with hbdef
    by_cases hid : a.id = id
    · -- the run was pending, so its last execution has ended
      have hrow {r : Run} (hr : sys.store.abs.run id = some r) : r = a := by
        rw [← hid, hnext.stored] at hr
        exact (Option.some.inj hr).symm
      have hpending := hnext.claimable.1
      cases hb with
      | pending row max status attempts room goes idle =>
        obtain rfl := hrow row
        have hattempts : p.attempts = throws outs + 1 := by
          rw [hp]
          exact asU32_of_lt (by simp [hbdef, Run.claimedBy, attempts]) (by omega)
        have hmax : p.maxAttempts = n := by
          rw [hp]
          exact asU32_of_lt max hn
        constructor
        · refine .running (r := b) (x := ⟨w, rawToRun p⟩) ?_ max ⟨?_, rfl⟩
            ?_ room goes ?_ ?_ ?_ ?_ ?_
          · rw [hq]
            show Function.update sys.store.abs.run b.id (some b) id = some b
            rw [← hid]
            exact update_self ..
          · rw [hp]
            rfl
          · simp [hbdef, Run.claimedBy, attempts]
          · have hpid : (rawToRun p).id = id := by
              rw [hp]
              exact hid
            rw [executionsOf_append, idle, if_pos hpid]
            rfl
          · simp [rawToRun, hattempts]
          · simp [rawToRun, hmax]
          · rw [hp]
            exact hnext.claimable.2.2
          · rw [hp]
            exact newClaimOwner_ne_empty _ _
        · intro p' hp' _
          cases hp'
          exact ⟨hattempts, room, goes⟩
      | running row _ owned =>
        rw [hrow row] at owned
        exact absurd (hpending.symm.trans owned.2) (by decide)
      | stuck row status =>
        rw [hrow row] at status
        exact absurd (hpending.symm.trans status) (by decide)
      | ended row status =>
        rw [hrow row, hpending] at status
        exact absurd status (by decide)
    · have hpid : p.id ≠ id := by
        rw [hp]
        exact hid
      constructor
      · apply hb.of_eq
        · rw [hq]
          exact update_of_ne (Ne.symm hid) ..
        · have hxid : ¬(rawToRun p).id = id := hpid
          rw [executionsOf_append, if_neg hxid, append_nil]
      · intro _ hp' hid'
        cases hp'
        exact absurd hid' hpid
  · have hsys : (sys.exec (.claim w plan now nanoid)).2 = ⟨out.2, sys.executing⟩ := by
      simp only [exec, ← hout]
    rw [hsys, hreply]
    constructor
    · exact hb.of_eq (congrArg (·.run id) hq) rfl
    · intro p hp
      exact absurd (Option.some.inj hp) (hnone p)

theorem throws_append (outs : List Outcome) (o : Outcome) :
    throws (outs ++ [o]) = throws outs + if o.throws then 1 else 0 := by
  simp [throws, countP_append, countP_singleton]

inductive FinalRow (x : Executing J) (retryAt : JsDate) (a : Run) : Outcome → Run → Prop where
  | returned {b} (h : b.status = .succeeded) : FinalRow x retryAt a .returned b
  | bail {reason b} (h : b.status = .cancelled) : FinalRow x retryAt a (.bail reason) b
  | fail {message b} (h : b.status = .dead) : FinalRow x retryAt a (.fail message) b
  | defer {wakeAt b} (h : b.status = .pending) (ha : b.attempts = a.attempts - 1)
    (hm : b.maxAttempts = a.maxAttempts) : FinalRow x retryAt a (.defer wakeAt) b
  | wait {stepName eventName timeoutAt b} (h : b.status = .pending)
    (ha : b.attempts = a.attempts - 1) (hm : b.maxAttempts = a.maxAttempts) :
    FinalRow x retryAt a (.wait stepName eventName timeoutAt) b
  | dead {message b} (hlast : x.run.attempts ≥ x.run.retries + 1) (h : b.status = .dead) :
    FinalRow x retryAt a (.threw message) b
  | retried {message b} (hmore : x.run.attempts < x.run.retries + 1) (h : b.status = .pending)
    (ha : b.attempts = a.attempts) (hm : b.maxAttempts = a.maxAttempts) :
    FinalRow x retryAt a (.threw message) b
  | refused {message} (hmore : x.run.attempts < x.run.retries + 1) (hdate : retryAt = none) :
    FinalRow x retryAt a (.threw message) a

theorem finish_row (h : db.Inv) (hsql : db.IsSqlite) {a : Run}
    (hrow : db.abs.run x.run.id = some a) (ho : a.OwnedBy x.run.workerId)
    (hname : x.run.name ∈ x.worker.registry) (howner : x.run.workerId ≠ "") :
    ∃ b, (x.finish plan now retryAt o db).abs.run x.run.id = some b ∧ FinalRow x retryAt a o b := by
  have hid := h.abs.run_id _ _ hrow
  -- an accepted write of the owner
  have hwrite (c : Call J) (f : Run → Run) (hc : c.caller = some (x.run.id, x.run.workerId))
      (hw : c.write = some f) (hf : ∀ now id owner error, c ≠ .fail now id owner error none false) :
      (db.call plan c).1 = .ok .done ∧ (db.call plan c).2.abs.run x.run.id = some (f a) := by
    obtain ⟨hr, hq⟩ := (RunsDb.call_refines h plan c).owner_write hc hw hrow ho
      (hsql.not_rejects hc hf)
    refine ⟨hr, ?_⟩
    rw [hq]
    apply Queue.run_setRun
    rw [(Call.write_wellFormed hw (h.abs.run_wellFormed _ _ hrow) ho).2, hid]
  have hfinish (hnone : Worker.afterReply x.run now retryAt o
      (db.call plan (outcomeCall x.run now retryAt o)).1 = none) :
      x.finish plan now retryAt o db = (db.call plan (outcomeCall x.run now retryAt o)).2 := by
    have hexec : x.worker.execute x.run now retryAt o =
        some (outcomeCall x.run now retryAt o) := by
      rw [Worker.execute, if_neg howner, if_neg (not_not.mpr hname)]
    unfold Executing.finish
    rw [hexec]
    dsimp only
    rw [if_neg (not_not.mpr hname), hnone]
  cases o with
  | returned =>
    obtain ⟨hr, hb⟩ := hwrite (.complete now x.run.id x.run.workerId) _ rfl rfl (by simp)
    -- the owner's `complete` is accepted, so the retry path is not taken
    have hnone : Worker.afterReply x.run now retryAt .returned
        (db.call plan (outcomeCall x.run now retryAt .returned)).1 = none := by
      simp only [outcomeCall, hr, Worker.afterReply]
    rw [hfinish hnone]
    exact ⟨_, hb, .returned rfl⟩
  | bail reason =>
    obtain ⟨-, hb⟩ := hwrite (.cancel now x.run.id x.run.workerId reason) _ rfl rfl (by simp)
    rw [hfinish rfl]
    exact ⟨_, hb, .bail rfl⟩
  | fail message =>
    obtain ⟨-, hb⟩ := hwrite (.fail now x.run.id x.run.workerId message none true) _ rfl rfl
      (by simp)
    rw [hfinish rfl]
    exact ⟨_, hb, .fail rfl⟩
  | defer wakeAt =>
    obtain ⟨-, hb⟩ := hwrite (.defer x.run.id x.run.workerId (timeOnWire wakeAt)) _ rfl rfl
      (by simp)
    rw [hfinish rfl]
    exact ⟨_, hb, .defer rfl rfl rfl⟩
  | wait stepName eventName timeoutAt =>
    have hc : (.waitForEvent x.run.id x.run.workerId stepName eventName (timeOnWire timeoutAt) :
        Call J).caller = some (x.run.id, x.run.workerId) := rfl
    have hq := (RunsDb.call_refines h plan _).owner_wait hrow ho (hsql.not_rejects hc (by simp))
    rw [hfinish rfl]
    refine ⟨a.parked ((timeOnWire timeoutAt).getD i64Max), ?_, .wait rfl rfl rfl⟩
    exact (congrFun hq x.run.id).trans (db.abs.run_setRun hid)
  | threw message =>
    rw [hfinish rfl]
    show ∃ b, (db.call plan (retryCall x.run now retryAt message)).2.abs.run x.run.id = some b ∧ _
    by_cases hlast : x.run.attempts ≥ x.run.retries + 1
    · have hcall : retryCall x.run now retryAt message =
          .fail now x.run.id x.run.workerId message none true := by
        simp [retryCall, hlast, timeOnWire]
      rw [hcall]
      obtain ⟨-, hb⟩ := hwrite (.fail now x.run.id x.run.workerId message none true) _ rfl rfl
        (by simp)
      exact ⟨_, hb, .dead hlast rfl⟩
    · have hcall : retryCall x.run now retryAt message =
          .fail now x.run.id x.run.workerId message retryAt false := by
        simp only [retryCall, hlast, decide_false, Bool.false_eq_true, if_false, timeOnWire]
        rfl
      rw [hcall]
      cases retryAt with
      | none =>
        have hq := (RunsDb.call_refines h plan
          (.fail now x.run.id x.run.workerId message none false : Call J)).fail_refused
        rw [hq]
        exact ⟨a, hrow, .refused (not_le.mp hlast) rfl⟩
      | some t =>
        obtain ⟨-, hb⟩ := hwrite (.fail now x.run.id x.run.workerId message (some t) false)
          _ rfl rfl
          (by simp)
        exact ⟨_, hb, .retried (not_le.mp hlast) rfl rfl rfl⟩

theorem exec_inv (h : sys.store.Inv ∧ sys.store.IsSqlite) (e : WorkerEvent J) :
    (sys.exec e).2.store.Inv ∧ (sys.exec e).2.store.IsSqlite := by
  have hcall (db : RunsDb) (plan : Planner) (c : Call J) (hdb : db.Inv ∧ db.IsSqlite) :
      (db.call plan c).2.Inv ∧ (db.call plan c).2.IsSqlite :=
    ⟨RunsDb.exec_inv hdb.1 (.call plan c), hdb.2.exec (.call plan c)⟩
  cases e with
  | claim w plan now nanoid => exact hcall sys.store plan (claimCall w now nanoid) h
  | finish i plan now retryAt o =>
    simp only [exec]
    cases sys.executing[i]? with
    | none => exact h
    | some x =>
      exact x.finish_induction (P := fun db => db.Inv ∧ db.IsSqlite) now plan retryAt o h
        fun c db _ hdb => hcall db plan c hdb
  | store se => exact ⟨RunsDb.exec_inv h.1 se, h.2.exec se⟩

variable (hb : Budget id n outs sys) (h : sys.store.Inv) (hsql : sys.store.IsSqlite)
include hb h hsql
theorem Budget.finish {i : ℕ} (hx : sys.executing[i]? = some x) (hid : x.run.id = id) :
    Budget id n (outs ++ [o])
      ⟨x.finish plan now retryAt o sys.store, sys.executing.eraseIdx i⟩ := by
  have hnone : sys.executionsOf id ≠ [] := by
    apply ne_nil_of_mem
    exact mem_filter.mpr ⟨mem_of_getElem? hx, decide_eq_true hid⟩
  cases hb with
  | pending _ _ _ _ _ _ idle | stuck _ _ _ _ idle | ended _ _ _ _ idle => exact absurd idle hnone
  | @running r y row max owned attempts room goes one shown retries known owner =>
    obtain ⟨hxy, hleft⟩ := filter_eraseIdx_of_single hx (decide_eq_true hid) one
    subst hxy
    rw [← hid] at row
    obtain ⟨b, hrow, hfinal⟩ := finish_row now x plan retryAt o h hsql row owned known owner
    rw [hid] at hrow
    have hthrows := throws_append outs o
    -- an end of the run is recorded in the outcomes
    have hended (hs : b.status.Terminal) (ht : o.throws = false)
        (hd : b.status = .dead ↔ ∃ m, o = .fail m) :
        Budget id n (outs ++ [o])
          ⟨x.finish plan now retryAt o sys.store, sys.executing.eraseIdx i⟩ := by
      rw [ht, if_neg Bool.false_ne_true, add_zero] at hthrows
      refine .ended hrow hs ?_ (by omega) hleft
      rw [hd, hthrows]
      constructor
      · rintro ⟨m, rfl⟩
        exact .inr ⟨m, by simp⟩
      · rintro (hn | ⟨m, hm⟩)
        · omega
        · rcases mem_append.mp hm with hm | hm
          · exact absurd trivial (goes _ hm)
          · exact ⟨m, (mem_singleton.mp hm).symm⟩
    have hgoes (ho : ¬o.Ends) : ∀ o' ∈ outs ++ [o], ¬o'.Ends := by
      intro o' ho'
      rcases mem_append.mp ho' with hm | hm
      · exact goes o' hm
      · rw [mem_singleton.mp hm]
        exact ho
    have hparked (hs : b.status = .pending) (ha : b.attempts = r.attempts - 1)
        (hm : b.maxAttempts = r.maxAttempts) (ht : o.throws = false) (ho : ¬o.Ends) :
        Budget id n (outs ++ [o])
          ⟨x.finish plan now retryAt o sys.store, sys.executing.eraseIdx i⟩ := by
      rw [ht, if_neg Bool.false_ne_true, add_zero] at hthrows
      refine .pending hrow (hm.trans max) hs ?_ ?_ (hgoes ho) hleft
      · rw [ha, attempts, hthrows]
        omega
      · rw [hthrows]
        exact room
    cases hfinal with
    | returned hs | bail hs | fail hs => exact hended (by rw [hs]; decide) rfl (by simp [hs])
    | defer hs ha hm | wait hs ha hm => exact hparked hs ha hm rfl fun h => h
    | dead _ hs =>
      have hn : throws outs + 1 = n := by omega
      refine .ended hrow (by rw [hs]; decide) ?_ (hthrows.trans hn).le hleft
      exact ⟨fun _ => .inl (hthrows.trans hn), fun _ => hs⟩
    | retried _ hs ha hm =>
      refine .pending hrow (hm.trans max) hs ?_ ?_ (hgoes fun h => h) hleft
      · rw [ha, attempts, hthrows]
        simp [Outcome.throws]
      · rw [hthrows]
        simp only [Outcome.throws, if_true]
        omega
    | refused =>
      refine .stuck hrow owned.2 ?_ (hgoes fun h => h) hleft
      rw [hthrows]
      simp only [Outcome.throws, if_true]
      omega

/-- An event ends one execution of the run at most, and the budget counts it. -/
theorem Budget.exec (hn : n < 2 ^ 32) (e : WorkerEvent J)
    (hspares : ∀ plan c, e = .store (.call plan c) → c.Spares sys.store.abs id)
    (hlives : (sys.exec e).2.store.abs.run id ≠ none) :
    Budget id n (outs ++ (sys.outcome id e).toList) (sys.exec e).2 := by
  cases e with
  | claim w plan now nanoid =>
    simp only [outcome, toList_none, append_nil]
    exact (hb.claim h hn w plan now nanoid).1
  | finish i plan now retryAt o =>
    cases hx : sys.executing[i]? with
    | none =>
      simp only [WorkerSystem.exec, outcome, hx, bind_none, toList_none,
        append_nil]
      exact hb
    | some x =>
      simp only [WorkerSystem.exec, outcome, hx, bind_some]
      by_cases hid : x.run.id = id
      · rw [if_pos hid]
        exact hb.finish now x plan retryAt o h hsql hx hid
      · rw [if_neg hid, toList_none, append_nil]
        exact hb.of_eq (x.finish_other now plan retryAt o h hid)
          (filter_eraseIdx_of_neg hx (decide_eq_false hid))
  | store se =>
    simp only [outcome, toList_none, append_nil]
    rcases RunsDb.exec_cases h se with ⟨plan, c, rfl, hs⟩ | habs
    · exact hb.of_same (fun a ha => hs.spares h.abs (hspares plan c rfl) ha hlives) rfl
    · exact hb.of_eq (congrArg (·.run id) habs) rfl

omit hb h hsql in
/-- The budget over a run of the system in which the row lives on. -/
theorem Budget.after (hb : Budget id n outs sys) (h : sys.store.Inv ∧ sys.store.IsSqlite)
    (hn : n < 2 ^ 32) (events : List (WorkerEvent J)) (hd : sys.Driven id events) :
    Budget id n (outs ++ sys.outcomes id events) (sys.after events) ∧
      (sys.after events).store.Inv := by
  induction events generalizing sys outs with
  | nil =>
    rw [outcomes, append_nil]
    exact ⟨hb, h.1⟩
  | cons e _ ih =>
    obtain ⟨hspares, hlives, hrest⟩ := hd
    rw [outcomes, ← append_assoc]
    exact ih (hb.exec h.1 h.2 hn e hspares hlives) (exec_inv h e) hrest

structure IsNew (sys : WorkerSystem J) : Prop where
  store : sys.store = .sqlite .empty
  executing : sys.executing = []
end WorkerSystem

/-- What the queue and the workers guarantee for a run that was enqueued with a
budget of `n` attempts, after its executions ended with `outs`. -/
structure RetryBudget (id : String) (n : ℕ) (outs : List Outcome) (sys : WorkerSystem J) :
    Prop where
  /-- The next execution is shown the number of throws so far, plus one. -/
  attempt : ∀ w plan now nanoid p,
    (sys.exec (.claim w plan now nanoid)).1 = some (.ok (.claimed (some p))) → p.id = id →
    (rawToRun p).attempts = throws outs + 1
  /-- The run is dead after the `n`-th throw, or after a `fail`, and not before. -/
  dead : ∃ r, sys.store.abs.run id = some r ∧ throws outs ≤ n ∧
    (r.status = .dead ↔ throws outs = n ∨ ∃ m, .fail m ∈ outs)
  /-- It is not executed again after that, nor after it returned, bailed or failed. -/
  ended : (throws outs = n ∨ ∃ o ∈ outs, o.Ends) → ∀ w plan now nanoid p,
    (sys.exec (.claim w plan now nanoid)).1 = some (.ok (.claimed (some p))) → p.id ≠ id

/-- A run is enqueued and then driven by workers. Its executions may end in any
way and in any order, also parked any number of times. -/
theorem retry_budget {sys : WorkerSystem J} (hnew : sys.IsNew) (earlier : List (WorkerEvent J))
    (plan : Planner) (now : ClockMs) (nanoid name : String) (payload : J.Value) (opts : EnqueueOpts)
    (id : String) (n : ℕ) (hn : 1 ≤ n) (hmax : (opts.maxAttempts.getD defaultMaxAttempts).toNat = n)
    (hidle : (sys.after earlier).executionsOf id = [])
    (henq : ((sys.after earlier).store.call plan
      (.enqueue now nanoid name payload opts)).1 = .ok (.enqueued ⟨id, false⟩))
    (events : List (WorkerEvent J)) :
    let enqueued := ((sys.after earlier).exec
      (.store (.call plan (.enqueue now nanoid name payload opts)))).2
    enqueued.Driven id events →
    RetryBudget id n (enqueued.outcomes id events) (enqueued.after events) := by
  intro enqueued hdriven
  have hreach : (sys.after earlier).store.Inv ∧ (sys.after earlier).store.IsSqlite := by
    apply Execution.after_induction
      (P := fun t : WorkerSystem J => t.store.Inv ∧ t.store.IsSqlite)
    · rw [hnew.store]
      exact ⟨RunsDb.IsNew.sqlite.inv, trivial⟩
    · intro e _ t ht
      exact WorkerSystem.exec_inv ht e
  have hlt : n < 2 ^ 32 := by
    rw [← hmax]
    exact UInt32.toNat_lt _
  -- the new row has made no attempt yet
  have hstart : WorkerSystem.Budget id n [] enqueued := by
    have hstep := RunsDb.call_refines hreach.1 plan (.enqueue now nanoid name payload opts)
    rw [henq] at hstep
    obtain ⟨hid, hq⟩ := hstep.enqueued_new
    refine .pending (r := Queue.newRun now nanoid name (J.toStr payload) opts) ?_ ?_ rfl rfl ?_
      (by simp) hidle
    · show ((sys.after earlier).store.call plan
        (.enqueue now nanoid name payload opts)).2.abs.run id = _
      rw [hq]
      exact Queue.run_setRun _ hid
    · rw [← hmax]
      rfl
    · exact hn
  obtain ⟨hb, hinv⟩ := hstart.after (WorkerSystem.exec_inv hreach _) hlt events hdriven
  rw [nil_append] at hb
  have hclaim := fun w plan now nanoid => (hb.claim hinv hlt w plan now nanoid).2
  refine ⟨?_, ?_, ?_⟩
  · intro w plan now nanoid p hp hid
    have hattempts := (hclaim w plan now nanoid p hp hid).1
    simp [rawToRun, hattempts]
  · have hopen {s : RunStatus} (hs : s ≠ .dead) (room : throws (enqueued.outcomes id events) < n)
        (goes : ∀ o ∈ enqueued.outcomes id events, ¬o.Ends) :
        s = .dead ↔ throws (enqueued.outcomes id events) = n ∨
          ∃ m, .fail m ∈ enqueued.outcomes id events := by
      constructor
      · exact fun h => absurd h hs
      · rintro (hx | ⟨m, hm⟩)
        · omega
        · exact absurd trivial (goes _ hm)
    cases hb with
    | pending row _ status _ room goes | stuck row status room goes =>
      exact ⟨_, row, room.le, hopen (by simp [status]) room goes⟩
    | running row _ owned _ room goes =>
      exact ⟨_, row, room.le, hopen (by simp [owned.2]) room goes⟩
    | ended row _ dead le => exact ⟨_, row, le, dead⟩
  · intro hends w plan now nanoid p hp hid
    obtain ⟨-, _, hgoes⟩ := hclaim w plan now nanoid p hp hid
    rcases hends with hx | ⟨o, ho, hend⟩
    · omega
    · exact hgoes o ho hend

def oneWorker : Worker := ⟨"worker", ["work"], 1000⟩

/-- A run with two attempts throws, waits for an event and throws again. -/
def throwWaitThrow : List (WorkerEvent JsonCodec.literals) :=
  [.claim oneWorker .stored .epoch ⟨"a", by simp⟩,
    .finish 0 .stored .epoch (some 0) (.threw "boom"),
    .claim oneWorker .stored .epoch ⟨"b", by simp⟩,
    .finish 0 .stored .epoch none (.wait "step" "event" none),
    .store (.call .stored (.signal .epoch "event" JsonLiteral.null)),
    .claim oneWorker .stored .epoch ⟨"c", by simp⟩,
    .finish 0 .stored .epoch none (.threw "boom")]

def noWorkers : WorkerSystem JsonCodec.literals := ⟨.sqlite .empty, []⟩

def twoAttempts : WorkerSystem JsonCodec.literals :=
  ((noWorkers.after []).exec (.store (.call .stored
    (.enqueue .epoch "run" "work" JsonLiteral.null ⟨none, some 2, none⟩)))).2

theorem twoAttempts_driven : twoAttempts.Driven "run" throwWaitThrow := by
  have hno {e : WorkerEvent JsonCodec.literals} (he : ∀ se, e ≠ .store se) (q : Queue) :
      ∀ plan c, e = .store (.call plan c) → c.Spares q "run" :=
    fun plan c h => absurd h (he _)
  refine ⟨hno (by simp) _, by decide +kernel, hno (by simp) _, by decide +kernel,
    hno (by simp) _, by decide +kernel, hno (by simp) _, by decide +kernel, ?_,
    by decide +kernel, hno (by simp) _, by decide +kernel, hno (by simp) _, by decide +kernel,
    trivial⟩
  intro _ _ h
  cases h
  trivial

theorem retry_budget_throwWaitThrow :
    twoAttempts.outcomes "run" throwWaitThrow =
      [.threw "boom", .wait "step" "event" none, .threw "boom"] ∧
    RetryBudget "run" 2 (twoAttempts.outcomes "run" throwWaitThrow)
      (twoAttempts.after throwWaitThrow) := by
  have hnew : noWorkers.IsNew := ⟨rfl, rfl⟩
  exact ⟨by decide +kernel, retry_budget hnew [] .stored .epoch "run" "work" JsonLiteral.null
    ⟨none, some 2, none⟩ "run" 2 (by decide) rfl rfl rfl throwWaitThrow twoAttempts_driven⟩

end Tako.Workflow
