import Tako.WorkflowStepApi

/-! When a durable step keeps the value that its handler has seen. The queue keeps the first
result that reaches it, which the worker may not learn. -/
namespace Tako.Workflow
open scoped Classical
variable {J : JsonCodec}
variable {id name : String} {v : J.Value} {x : StepExecution J}
namespace StepExecution
@[simp] theorem run_setState (x : StepExecution J) (name : String) (value : J.Value) :
    (x.setState name value).run = x.run := by
  unfold setState
  split <;> rfl

@[simp] theorem acknowledged_setState (x : StepExecution J) (name : String) (value : J.Value) :
    (x.setState name value).acknowledged = x.acknowledged := by
  unfold setState
  split <;> rfl

theorem attemptFailed_spec (x : StepExecution J) (j : ℕ) (name : String) (opts : StepRunOptions)
    (attempt : ℕ) : (x.attemptFailed j name opts attempt).2.run = x.run ∧
      (x.attemptFailed j name opts attempt).2.acknowledged = x.acknowledged ∧
      ∀ id n v c, (x.attemptFailed j name opts attempt).1 ≠ .returned id n v c := by
  unfold attemptFailed
  split
  · exact ⟨rfl, rfl, nofun⟩
  · split
    · exact ⟨rfl, rfl, nofun⟩
    · exact ⟨rfl, rfl, nofun⟩

theorem saveFailed_spec (x : StepExecution J) (j : ℕ) :
    (x.saveFailed j).2.run = x.run ∧ (x.saveFailed j).2.acknowledged = x.acknowledged ∧
      ∀ id n v c, (x.saveFailed j).1 ≠ .returned id n v c := by
  unfold saveFailed
  split
  · exact x.attemptFailed_spec ..
  · exact ⟨rfl, rfl, nofun⟩
  · exact ⟨rfl, rfl, nofun⟩

theorem saveSucceeded_spec {j : ℕ} {value : J.Value} (h : x.saves j = some (name, value)) :
    (x.saveSucceeded j).2.run = x.run ∧
      (x.saveSucceeded j).2.acknowledged = Function.update x.acknowledged name (some value) ∧
      ∀ id n v c, (x.saveSucceeded j).1 = .returned id n v c →
        id = x.run.id ∧ n = name ∧ v = value ∧ c = false := by
  unfold saves at h
  unfold saveSucceeded
  split at h
  · rename_i hcall
    cases h
    refine ⟨rfl, rfl, ?_⟩
    intro _ _ _ _ hr
    cases hr
    exact ⟨rfl, rfl, rfl, rfl⟩
  · cases h
    exact ⟨rfl, rfl, nofun⟩
  · cases h

/-- What a step of the client can do: it may return a cached value, it may send a
save whose success it does not learn, or it learns of one. -/
inductive Does (x : StepExecution J) (db : RunsDb) (e : ClientEvent J)
    (out : StepAnswer J × RunsDb × StepExecution J) : Prop where
  | plain (hrun : out.2.2.run = x.run) (hack : out.2.2.acknowledged = x.acknowledged)
    (hdb : out.2.1 = db ∨ ∃ plan now name value,
      out.2.1 = (db.call plan (x.saveCall now name value)).2)
    (hreturn : ∀ id n v c, out.1 = .returned id n v c →
      id = x.run.id ∧ x.stepState n = some v ∧ ∃ opts, e = .run n opts)
  | learned {j plan now name value reply} (he : e = .save j plan now .acknowledged)
    (hsaves : x.saves j = some (name, value)) (hrun : out.2.2.run = x.run)
    (hok : (db.call plan (x.saveCall now name value)).1 = .ok reply)
    (hdb : out.2.1 = (db.call plan (x.saveCall now name value)).2)
    (hack : out.2.2.acknowledged = Function.update x.acknowledged name (some value))
    (hreturn : ∀ id n v c, out.1 = .returned id n v c →
      id = x.run.id ∧ n = name ∧ v = value ∧ c = false)

theorem exec_does (x : StepExecution J) (db : RunsDb) (e : ClientEvent J) :
    x.Does db e (x.exec e db) := by
  cases e with
  | run name opts =>
    simp only [exec]
    cases hs : x.stepState name with
    | some =>
      refine .plain rfl rfl (.inl rfl) ?_
      intro id n v c hr
      cases hr
      exact ⟨rfl, hs, opts, rfl⟩
    | none =>
      dsimp only
      split
      · exact .plain rfl rfl (.inl rfl) nofun
      · exact .plain rfl rfl (.inl rfl) nofun
  | fnReturned =>
    simp only [exec]
    split
    · exact .plain (run_setState ..) (acknowledged_setState ..) (.inl rfl)
        nofun
    · exact .plain rfl rfl (.inl rfl) nofun
  | fnThrew j signal =>
    simp only [exec]
    split
    · split
      · exact .plain rfl rfl (.inl rfl) nofun
      · rename_i name opts attempt _ _
        obtain ⟨hrun, hack, hno⟩ := x.attemptFailed_spec j name opts attempt
        exact .plain hrun hack (.inl rfl) fun id n v c hr => absurd hr (hno id n v c)
    · exact .plain rfl rfl (.inl rfl) nofun
  | sleepWrites =>
    exact .plain (run_setState ..) (acknowledged_setState ..) (.inl rfl)
      nofun
  | save j plan now fate =>
    simp only [exec]
    cases hsaves : x.saves j with
    | none => exact .plain rfl rfl (.inl rfl) nofun
    | some request =>
      obtain ⟨name, value⟩ := request
      obtain ⟨hrun, hack, hno⟩ := x.saveFailed_spec j
      dsimp only
      cases fate with
      | notStored => exact .plain hrun hack (.inl rfl) fun id n v c hr => absurd hr (hno id n v c)
      | ackLost =>
        exact .plain hrun hack (.inr ⟨plan, now, name, value, rfl⟩)
          fun id n v c hr => absurd hr (hno id n v c)
      | acknowledged =>
        cases hreply : (db.call plan (x.saveCall now name value)).1 with
        | error =>
          exact .plain hrun hack (.inr ⟨plan, now, name, value, rfl⟩)
            fun id n v c hr => absurd hr (hno id n v c)
        | ok =>
          obtain ⟨hrun', hack', hreturn⟩ := saveSucceeded_spec hsaves
          exact .learned rfl hsaves hrun' hreply rfl hack' hreturn
end StepExecution

/-- The condition on one step of the client, before it happens. A cached value that
is handed out was confirmed by the queue, and a save whose success the owner learns
of is the first for its step and survives its JSON text. -/
def ClientEvent.Meets (db : RunsDb) (x : StepExecution J) : ClientEvent J → Prop
  | .run name _ => ∀ v, x.stepState name = some v → x.acknowledged name = some v
  | .save j _ _ .acknowledged => ∀ name v, x.saves j = some (name, v) →
    db.abs.Owns x.run.id x.run.workerId →
    db.abs.step (x.run.id, name) = none ∧ J.readBack v = v
  | _ => True

namespace StepSystem
variable (sys : StepSystem J)
def MeetsAt : StepEvent J → Prop
  | .client i e => ∀ x, sys.executions[i]? = some x → e.Meets sys.store x
  | _ => True

/-- Every step of the history meets the condition in the state that it finds. -/
def Meets (sys : StepSystem J) : List (StepEvent J) → Prop
  | [] => True
  | e :: events => sys.MeetsAt e ∧ Meets (sys.exec e).2 events

def Executed (id : String) : Prop := ∃ x ∈ sys.executions, x.run.id = id

/-- What the queue confirmed to an execution of the run is what it holds. -/
def Backed (id : String) : Prop :=
  ∀ x ∈ sys.executions, x.run.id = id → ∀ name v, x.acknowledged name = some v →
    sys.store.stored J id name = some v
end StepSystem

theorem RunsDb.stored_call {db : RunsDb} (h : db.Inv) (plan : Planner) (c : Call J)
    (hs : db.stored J id name = some v) (hlives : (db.call plan c).2.abs.run id ≠ none) :
    (db.call plan c).2.stored J id name = some v := by
  obtain ⟨s, hstep, hv⟩ := Option.map_eq_some_iff.mp hs
  rcases (RunsDb.call_refines h plan c).step_kept hstep with hkept | hgone
  · rw [RunsDb.stored_of_step hkept, hv]
  · exact absurd hgone hlives

theorem RunsDb.stored_saveStep {db : RunsDb} (h : db.Inv) {plan : Planner} {now : ClockMs}
    {owner : String} {reply : Reply J}
    (hok : (db.call plan (.saveStep now id owner name v)).1 = .ok reply)
    (hnone : db.abs.step (id, name) = none) :
    (db.call (J := J) plan (.saveStep now id owner name v)).2.stored J id name =
      some (J.readBack v) := by
  have hstep := RunsDb.call_refines h plan (.saveStep now id owner name v)
  rw [hok] at hstep
  have hsaved := hstep.step_saved
  rw [hnone, Option.getD_none] at hsaved
  exact RunsDb.stored_of_step hsaved

namespace StepSystem
variable {sys : StepSystem J}
theorem exec_store (h : sys.store.Inv) (e : StepEvent J) (id : String) :
    (sys.exec e).2.store.Inv ∧ ∀ name v, sys.store.stored J id name = some v →
      (sys.exec e).2.store.abs.run id ≠ none → (sys.exec e).2.store.stored J id name = some v := by
  have hcall (plan : Planner) (c : Call J) : (sys.store.call plan c).2.Inv ∧
      ∀ name v, sys.store.stored J id name = some v →
        (sys.store.call plan c).2.abs.run id ≠ none →
        (sys.store.call plan c).2.stored J id name = some v :=
    ⟨RunsDb.exec_inv h (.call plan c), fun name v hs hl => RunsDb.stored_call h plan c hs hl⟩
  cases e with
  | claim plan now owner names leaseMs => exact hcall plan (.claim now owner names leaseMs)
  | client i e =>
    simp only [exec]
    cases hx : sys.executions[i]? with
    | none => exact ⟨h, fun _ _ hs _ => hs⟩
    | some x =>
      dsimp only
      cases x.exec_does sys.store e with
      | plain _ _ hdb =>
        rcases hdb with hdb | ⟨plan, now, name, value, hdb⟩
        · rw [hdb]
          exact ⟨h, fun _ _ hs _ => hs⟩
        · rw [hdb]
          exact hcall plan _
      | learned _ _ _ _ hdb =>
        rw [hdb]
        exact hcall _ _
  | store se =>
    cases se with
    | call plan c => exact hcall plan c
    | foreign plan other c =>
      refine ⟨RunsDb.exec_inv h (.foreign plan other c), ?_⟩
      intro name v hs _
      have habs : (sys.store.exec (.foreign plan other c)).2.abs = sys.store.abs :=
        RunsDb.foreign_abs h plan other c
      show (sys.store.exec (.foreign plan other c)).2.stored J id name = some v
      rw [RunsDb.stored, habs]
      exact hs

variable {e : StepEvent J}
theorem stored_of_cached (hb : sys.Backed id) (hm : sys.MeetsAt e) {i : ℕ} {opts : StepRunOptions}
    (hx : sys.executions[i]? = some x) (he : e = .client i (.run name opts)) (hid : x.run.id = id)
    (hv : x.stepState name = some v) :
    sys.store.stored J id name = some v := by
  subst he
  exact hb x (List.mem_of_getElem? hx) hid name v (hm x hx v hv)

/-- A value is acknowledged to an execution only once the queue holds it. -/
theorem exec_backed (h : sys.store.Inv) (hb : sys.Backed id) (hm : sys.MeetsAt e)
    (hlives : (sys.exec e).2.Executed id → (sys.exec e).2.store.abs.run id ≠ none) :
    (sys.exec e).2.Backed id ∧ ∀ name v c, (sys.exec e).1 = .returned id name v c →
      (sys.exec e).2.store.stored J id name = some v ∧ (sys.exec e).2.Executed id := by
  have hkept := (exec_store h e id).2
  -- an execution that was there before
  have hold (x : StepExecution J) (hx : x ∈ sys.executions) (hx' : (sys.exec e).2.Executed id)
      (hid : x.run.id = id) (name : String) (v : J.Value) (hv : x.acknowledged name = some v) :
      (sys.exec e).2.store.stored J id name = some v :=
    hkept name v (hb x hx hid name v hv) (hlives hx')
  cases e with
  | claim plan now owner names leaseMs =>
    refine ⟨?_, nofun⟩
    intro x hx hid name v hv
    have hexec : (sys.exec (.claim plan now owner names leaseMs : StepEvent J)).2.Executed id :=
      ⟨x, hx, hid⟩
    simp only [exec] at hx
    split at hx
    · rename_i p hp
      rcases List.mem_append.mp hx with hx | hx
      · exact hold x hx hexec hid name v hv
      · -- the new execution starts with what the claim returned
        rw [List.mem_singleton.mp hx] at hid hv
        have hstate := RunsDb.claimed_stepState h hp
        have hpid : p.id = id := hid
        rw [hpid] at hstate
        exact (congrFun hstate name).symm.trans hv
    · exact hold x hx hexec hid name v hv
  | client i e =>
    cases hx : sys.executions[i]? with
    | none =>
      have hsame : sys.exec (.client i e) = (.silent, sys) := by simp only [exec, hx]
      rw [hsame]
      exact ⟨hb, nofun⟩
    | some x =>
      have hstep : sys.exec (.client i e) = ((x.exec e sys.store).1,
          ⟨(x.exec e sys.store).2.1, sys.executions.set i (x.exec e sys.store).2.2⟩) := by
        simp only [exec, hx]
      have hmem := List.mem_of_getElem? hx
      have hlt : i < sys.executions.length := (List.getElem?_eq_some_iff.mp hx).1
      rw [hstep] at hold hkept hlives ⊢
      have hnew : (x.exec e sys.store).2.2 ∈ sys.executions.set i (x.exec e sys.store).2.2 :=
        List.mem_set hlt _
      -- the execution that makes the step, before and after
      cases x.exec_does sys.store e with
      | plain hrun hack _ hreturn =>
        constructor
        · intro z hz hid name v hv
          rcases List.mem_or_eq_of_mem_set hz with hz' | rfl
          · exact hold z hz' ⟨z, hz, hid⟩ hid name v hv
          · rw [hack] at hv
            have hid' := hid
            rw [hrun] at hid'
            exact hold x hmem ⟨_, hnew, hid⟩ hid' name v hv
        · intro name v c hr
          obtain ⟨hid, hv, _, he⟩ := hreturn id name v c hr
          have hexec : (⟨(x.exec e sys.store).2.1, sys.executions.set i (x.exec e sys.store).2.2⟩ :
              StepSystem J).Executed id := ⟨_, hnew, by rw [hrun]; exact hid.symm⟩
          have hs := stored_of_cached hb hm hx (by rw [he]) hid.symm hv
          exact ⟨hkept name v hs (hlives hexec), hexec⟩
      | @learned j plan now name value reply he hsaves hrun hok hdb hack hreturn =>
        have howns := (RunsDb.call_refines h plan (x.saveCall now name value))
        rw [hok] at howns
        have hcond : sys.store.abs.step (x.run.id, name) = none ∧ J.readBack value = value := by
          have hmx := hm x hx
          rw [he] at hmx
          exact hmx name value hsaves (howns.owns_of_ok rfl)
        have hstored (hid : x.run.id = id) :
            (x.exec e sys.store).2.1.stored J id name = some value := by
          have hsave := RunsDb.stored_saveStep h hok hcond.1
          rw [hdb, ← hid]
          exact hsave.trans (congrArg some hcond.2)
        constructor
        · intro z hz hid name' v hv
          rcases List.mem_or_eq_of_mem_set hz with hz' | rfl
          · exact hold z hz' ⟨z, hz, hid⟩ hid name' v hv
          · have hid' := hid
            rw [hrun] at hid'
            rw [hack] at hv
            by_cases hn : name' = name
            · rw [hn, Function.update_self] at hv
              rw [hn, ← hv]
              exact hstored hid'
            · rw [Function.update_of_ne hn] at hv
              exact hold x hmem ⟨_, hnew, hid⟩ hid' name' v hv
        · intro name' v c hr
          obtain ⟨hid, rfl, rfl, -⟩ := hreturn id name' v c hr
          exact ⟨hstored hid.symm, _, hnew, by rw [hrun]; exact hid.symm⟩
  | store =>
    refine ⟨?_, nofun⟩
    intro x hx hid name v hv
    exact hold x hx ⟨x, hx, hid⟩ hid name v hv

def LivesOn (sys : StepSystem J) (id : String) : List (StepEvent J) → Prop
  | [] => True
  | e :: events => ((sys.exec e).2.Executed id → (sys.exec e).2.store.abs.run id ≠ none) ∧
    LivesOn (sys.exec e).2 id events

theorem Executed.exec (hx : sys.Executed id) (e : StepEvent J) : (sys.exec e).2.Executed id := by
  obtain ⟨z, hz, hid⟩ := hx
  cases e with
  | claim =>
    simp only [StepSystem.exec]
    split
    · exact ⟨z, List.mem_append_left _ hz, hid⟩
    · exact ⟨z, hz, hid⟩
  | client i e =>
    simp only [StepSystem.exec]
    cases hx : sys.executions[i]? with
    | none => exact ⟨z, hz, hid⟩
    | some x =>
      have hrun : (x.exec e sys.store).2.2.run = x.run := by
        cases x.exec_does sys.store e with
        | plain hrun => exact hrun
        | learned _ _ hrun => exact hrun
      obtain ⟨k, hk⟩ := List.mem_iff_getElem?.mp hz
      by_cases hki : k = i
      · subst hki
        rw [hx] at hk
        cases hk
        have hlt := (List.getElem?_eq_some_iff.mp hx).1
        exact ⟨_, List.mem_set hlt _, by rw [hrun]; exact hid⟩
      · refine ⟨z, List.mem_iff_getElem?.mpr ⟨k, ?_⟩, hid⟩
        rw [List.getElem?_set_ne (Ne.symm hki)]
        exact hk
  | store => exact ⟨z, hz, hid⟩

theorem exec_returned_cached (h : (sys.exec e).1 = .returned id name v true) :
    ∃ i x opts, sys.executions[i]? = some x ∧ e = .client i (.run name opts) ∧ x.run.id = id ∧
      x.stepState name = some v := by
  cases e with
  | claim | store => cases h
  | client i e =>
    simp only [exec] at h
    cases hx : sys.executions[i]? with
    | none =>
      rw [hx] at h
      cases h
    | some x =>
      rw [hx] at h
      cases x.exec_does sys.store e with
      | plain _ _ _ hreturn =>
        obtain ⟨hid, hv, opts, rfl⟩ := hreturn id name v true h
        exact ⟨i, x, opts, hx, rfl, hid.symm, hv⟩
      | learned _ _ _ _ _ _ hreturn =>
        obtain ⟨-, -, -, hc⟩ := hreturn id name v true h
        cases hc

theorem backed_after (h : sys.store.Inv) (hb : sys.Backed id) (events : List (StepEvent J))
    (hm : sys.Meets events) (hl : sys.LivesOn id events) :
    (sys.after events).store.Inv ∧ (sys.after events).Backed id := by
  induction events generalizing sys with
  | nil => exact ⟨h, hb⟩
  | cons e _ ih => exact ih (exec_store h e id).1 (exec_backed h hb hm.1 hl.1).1 hm.2 hl.2

/-- A value that the queue holds stays, as long as the run does. -/
theorem stored_after (h : sys.store.Inv) (hs : sys.store.stored J id name = some v)
    (hx : sys.Executed id) (events : List (StepEvent J)) (hl : sys.LivesOn id events) :
    (sys.after events).store.stored J id name = some v := by
  induction events generalizing sys with
  | nil => exact hs
  | cons e _ ih =>
    have hx' := hx.exec e
    obtain ⟨hinv, hkept⟩ := exec_store h e id
    exact ih hinv (hkept name v hs (hl.1 hx')) hx' hl.2

variable {before events : List (StepEvent J)}
theorem Meets.append (h : sys.Meets (before ++ events)) :
    sys.Meets before ∧ (sys.after before).Meets events := by
  induction before generalizing sys with
  | nil => exact ⟨trivial, h⟩
  | cons _ _ ih => exact ⟨⟨h.1, (ih h.2).1⟩, (ih h.2).2⟩

theorem LivesOn.append (h : sys.LivesOn id (before ++ events)) :
    sys.LivesOn id before ∧ (sys.after before).LivesOn id events := by
  induction before generalizing sys with
  | nil => exact ⟨trivial, h⟩
  | cons _ _ ih => exact ⟨⟨h.1, (ih h.2).1⟩, (ih h.2).2⟩

structure IsNew (sys : StepSystem J) : Prop where
  store : sys.store.IsNew
  executions : sys.executions = []
end StepSystem

/-- In a history whose steps all meet the condition, a value that `ctx.run` gave to
a handler is the one that the queue keeps, and every later `ctx.run` of the step
that is answered without calling `fn` returns it again. -/
theorem step_value_kept {sys : StepSystem J} (hnew : sys.IsNew) (events : List (StepEvent J))
    (hmeets : sys.Meets events) (id : String) (hlives : sys.LivesOn id events)
    (before : List (StepEvent J)) (e : StepEvent J) (later : List (StepEvent J)) (name : String)
    (v : J.Value) (cached : Bool) (hevents : events = before ++ e :: later)
    (hreturned : ((sys.after before).exec e).1 = .returned id name v cached) :
    (sys.after events).store.stored J id name = some v ∧
      ∀ e' v', (sys.after events).MeetsAt e' →
        ((sys.after events).exec e').1 = .returned id name v' true → v' = v := by
  have hempty : sys.Backed id := by
    intro x hx
    rw [hnew.executions] at hx
    exact absurd hx List.not_mem_nil
  have hsplit : sys.after events = (((sys.after before).exec e).2).after later := by
    rw [hevents, StepSystem.after, Execution.after_append]
    rfl
  have hm := hmeets
  have hl := hlives
  rw [hevents] at hm hl
  obtain ⟨hm₁, hme, -⟩ := hm.append
  obtain ⟨hl₁, hle, hl₂⟩ := hl.append
  obtain ⟨hinv, hbacked⟩ := StepSystem.backed_after hnew.store.inv hempty before hm₁ hl₁
  obtain ⟨hstored, hexec⟩ := (StepSystem.exec_backed hinv hbacked hme hle).2 name v cached hreturned
  have hinv' := (StepSystem.exec_store hinv e id).1
  have hkeeps : (sys.after events).store.stored J id name = some v := by
    rw [hsplit]
    exact StepSystem.stored_after hinv' hstored hexec later hl₂
  refine ⟨hkeeps, ?_⟩
  intro _ _ hm' hr
  have hlast := (StepSystem.backed_after hnew.store.inv hempty events hmeets hlives).2
  obtain ⟨_, _, _, hx, he, hid, hv⟩ := StepSystem.exec_returned_cached hr
  have hs := StepSystem.stored_of_cached hlast hm' hx he hid hv
  exact Option.some.inj (hs.symm.trans hkeeps)

def noExecutions : StepSystem JsonCodec.literals := ⟨.sqlite .empty, []⟩

/-- A run is claimed and calls a step whose `fn` returns `true`. -/
def callStep (opts : StepRunOptions) : List (StepEvent JsonCodec.literals) :=
  [.store (.call .stored (.enqueue .epoch "run" "work" JsonLiteral.null ⟨none, none, none⟩)),
    .claim .stored .epoch "one" ["work"] 1000,
    .client 0 (.run "step" opts),
    .client 0 (.fnReturned 0 JsonLiteral.true)]

def saveAcknowledged : StepEvent JsonCodec.literals :=
  .client 0 (.save 0 .stored .epoch .acknowledged)

theorem step_value_kept_callStep :
    (noExecutions.after (callStep ⟨none, false⟩ ++ [saveAcknowledged])).store.stored
      JsonCodec.literals "run" "step" = some JsonLiteral.true := by
  have hmeets : noExecutions.Meets (callStep ⟨none, false⟩ ++ [saveAcknowledged]) := by
    refine ⟨trivial, trivial, ?_, fun _ _ => trivial, ?_, trivial⟩
    · intro x hx v hv
      cases hx
      cases hv
    · intro x hx name v hs _
      cases hx
      have hpair : some ("step", JsonLiteral.true) = some (name, v) := hs
      cases hpair
      exact ⟨rfl, rfl⟩
  have hlives : noExecutions.LivesOn "run" (callStep ⟨none, false⟩ ++ [saveAcknowledged]) :=
    ⟨fun _ => by decide, fun _ => by decide, fun _ => by decide, fun _ => by decide,
      fun _ => by decide, trivial⟩
  exact (step_value_kept ⟨.sqlite, rfl⟩ _ hmeets "run" hlives (callStep ⟨none, false⟩)
    saveAcknowledged [] "step" JsonLiteral.true false rfl rfl).1

/-- The first save is stored but not acknowledged, so `fn` is called again and
returns `false`. -/
def lostThenRetried : List (StepEvent JsonCodec.literals) :=
  callStep ⟨some (.finite 1), false⟩ ++
    [.client 0 (.save 0 .stored .epoch .ackLost),
      .client 0 (.fnReturned 0 JsonLiteral.false)]

def claimedAgain : List (StepEvent JsonCodec.literals) :=
  lostThenRetried ++ [saveAcknowledged,
    .store (.call .stored (.fail .epoch "run" "one" "boom" (some 0) false)),
    .claim .stored .epoch "two" ["work"] 1000]

/-- The handler has seen `false`, the queue keeps `true`, and the next execution is
answered with that. -/
theorem step_value_changes :
    ((noExecutions.after lostThenRetried).exec saveAcknowledged).1 =
      .returned "run" "step" JsonLiteral.false false ∧
    (noExecutions.after claimedAgain).store.stored JsonCodec.literals "run" "step" =
      some JsonLiteral.true ∧
    ((noExecutions.after claimedAgain).exec (.client 1 (.run "step" ⟨none, false⟩))).1 =
      .returned "run" "step" JsonLiteral.true true :=
  ⟨rfl, rfl, rfl⟩

end Tako.Workflow
