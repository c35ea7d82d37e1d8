import Tako.WorkflowRunsDb
import Tako.WorkflowOwners

/-! Memoized steps. A stored result stays as it is until its run is pruned. -/
namespace Tako.Workflow
open Option
open scoped Classical
variable {J : JsonCodec} {rejects : Call J → RunsDbError → Prop}
inductive Queue.Stores (q : Queue) : Call J → Result J → StepRow → Prop where
  | saved {now id owner name value} (h : q.Owns id owner) :
    Stores q (.saveStep now id owner name value) (.ok .done) ⟨id, name, J.toStr value, now.ms⟩
  | signalled {now eventName payload n w} (hw : q.waiter w.key = some w)
    (he : w.eventName = eventName) :
    Stores q (.signal now eventName payload) (.ok (.count n))
      ⟨w.runId, w.stepName, J.toStr payload, now.ms⟩
  | timedOut {now owner names leaseMs p w} (hw : q.waiter w.key = some w) (hx : w.Expired now)
    (hp : p.id = w.runId) :
    Stores q (.claim now owner names leaseMs) (.ok (.claimed (some p)))
      ⟨w.runId, w.stepName, "null", now.ms⟩

variable {k : String × String} {id name owner : String} {names : List String} {now : ClockMs}
  {s : StepRow}
variable {q q' : Queue}
theorem Step.step_kept {c : Call J} {r : Result J} (hs : Step rejects q c r q')
    (h : q.step k = some s) :
    q'.step k = some s ∨ q'.run k.1 = none := by
  cases hs with
  | claimNext => exact .inl (by simp [Queue.claim, h])
  | saved => exact .inl (by simp [Queue.saveStep, h])
  | signalled => exact .inl (by simp [Queue.signal, h])
  | @pruned cutoffMs limit gone hg =>
    by_cases hk : k.1 ∈ gone
    · exact .inr (by simp [Queue.remove, hk])
    · exact .inl (by simp [Queue.remove, hk, h])
  | _ => exact .inl h

/-- A step appears by a call that saves it. -/
theorem Step.step_new {c : Call J} {r : Result J} (hs : Step rejects q c r q') (hq : q.Inv)
    (hnone : q.step k = none) (h : q'.step k = some s) :
    s.key = k ∧ q.Stores c r s := by
  -- the steps that leave this table alone contradict the two hypotheses
  have hsame (hk : q'.step k = q.step k) : s.key = k ∧ q.Stores c r s := by
    rw [hk, hnone] at h
    cases h
  cases hs with
  | @claimNext now owner names leaseMs a a' hn hr =>
    simp only [Queue.claim, hnone, none_or] at h
    split at h
    · rename_i hw
      obtain ⟨hid, w, hw, hx⟩ := hw
      have hkey := hq.waiter_key k w hw
      cases h
      subst hkey
      exact ⟨rfl, .timedOut hw hx hid.symm⟩
    · cases h
  | @saved now id owner name value ho =>
    simp only [Queue.saveStep, hnone, none_or] at h
    split at h
    · rename_i hk
      cases h
      exact ⟨hk, .saved ho⟩
    · cases h
  | @signalled now eventName payload =>
    simp only [Queue.signal, hnone, none_or] at h
    split at h
    · rename_i hw
      obtain ⟨w, hw, he⟩ := hw
      have hkey := hq.waiter_key k w hw
      cases h
      subst hkey
      exact ⟨rfl, .signalled hw he⟩
    · cases h
  | @pruned cutoffMs limit gone hg =>
    simp only [Queue.remove, hnone, ite_self] at h
    cases h
  | _ => exact hsame rfl

theorem Step.step_saved {value : J.Value} {reply : Reply J}
    (hs : Step rejects q (.saveStep now id owner name value) (.ok reply) q') :
    q'.step (id, name) = some ((q.step (id, name)).getD ⟨id, name, J.toStr value, now.ms⟩) := by
  cases hs with
  | written _ hw => simp [Call.write] at hw
  | saved => cases hn : q.step (id, name) <;> simp [Queue.saveStep, StepRow.key, hn]

theorem Step.claimed_payload {leaseMs : ℕ} {p : RunPayload J}
    (hs : Step rejects q (.claim now owner names leaseMs) (.ok (.claimed (some p))) q') :
    ∃ a, q.Next now names a ∧
      q' = q.claim now (a.claimedBy owner (saturatingAdd now.ms (clampLeaseMs leaseMs))) ∧
      p = q'.payloadOf J owner
        (a.claimedBy owner (saturatingAdd now.ms (clampLeaseMs leaseMs))) := by
  cases hs with
  | @claimNext _ _ _ _ a a' hn hr =>
    subst hr
    exact ⟨a, hn, rfl, rfl⟩

namespace RunsDb
def Lives (db : RunsDb) (id : String) (events : List (StoreEvent J)) : Prop :=
  ∀ p, p <+: events → (db.after p).abs.run id ≠ none

variable {db : RunsDb}
theorem Lives.head {e : StoreEvent J} {events : List (StoreEvent J)}
    (h : db.Lives id (e :: events)) :
    (db.exec e).2.abs.run id ≠ none ∧ (db.exec e).2.Lives id events := by
  constructor
  · exact h [e] ⟨events, rfl⟩
  · intro p hp
    exact h (e :: p) (List.cons_prefix_cons.mpr ⟨rfl, hp⟩)

/-- A saved step stays as it is while its run lives. -/
theorem step_after (h : db.Inv) (hs : db.abs.step k = some s) (later : List (StoreEvent J))
    (hl : db.Lives k.1 later) :
    (db.after later).abs.step k = some s := by
  induction later generalizing db with
  | nil => exact hs
  | cons e _ ih =>
    have hkept : (db.exec e).2.abs.step k = some s := by
      rcases exec_cases h e with ⟨plan, c, -, hstep⟩ | habs
      · rcases hstep.step_kept hs with hkeep | hgone
        · exact hkeep
        · exact absurd hgone hl.head.1
      · rw [habs]
        exact hs
    exact ih (exec_inv h e) hkept hl.head.2

def stored (J : JsonCodec) (db : RunsDb) (id name : String) : Option J.Value :=
  (db.abs.step (id, name)).map fun s => J.fromStrOrNull s.result

theorem stored_of_step (h : db.abs.step (id, name) = some s) :
    db.stored J id name = some (J.fromStrOrNull s.result) := by
  rw [stored, h, map_some]

section
variable (h : db.Inv) {plan : Planner} {leaseMs : ℕ} {p : RunPayload J}
  (hp : (db.call plan (.claim now owner names leaseMs)).1 = .ok (.claimed (some p)))

include h hp
theorem claimed_stepState :
    p.stepState = (db.call (J := J) plan (.claim now owner names leaseMs)).2.stored J p.id := by
  have hstep := call_refines h plan (.claim now owner names leaseMs : Call J)
  rw [hp] at hstep
  obtain ⟨a, -, -, hpay⟩ := hstep.claimed_payload
  rw [hpay]
  rfl

theorem claim_returns (hs : db.abs.step (p.id, name) = some s) :
    p.stepState name = some (J.fromStrOrNull s.result) := by
  have hstep := call_refines h plan (.claim now owner names leaseMs : Call J)
  rw [hp] at hstep
  obtain ⟨a, -, hq, -⟩ := hstep.claimed_payload
  have hkept : (db.call (J := J) plan (.claim now owner names leaseMs)).2.abs.step (p.id, name) =
      some s := by
    rw [hq]
    simp only [Queue.claim, hs, some_or]
  rw [claimed_stepState h hp, stored_of_step hkept]
end
end RunsDb

/-- Step results are memoized. In every reachable store a stored result keeps its
value for the life of its run, a claim returns exactly the stored results, those that
were saved as they are read back, and only the owner's `save_step`, a signal on the
step's own wait or the timeout of that wait adds one. -/
theorem steps_memoized {db : RunsDb} (hnew : db.IsNew) (events : List (StoreEvent J)) :
    (∀ id name s (later : List (StoreEvent J)), (db.after events).abs.step (id, name) = some s →
      (db.after events).Lives id later →
      ((db.after events).after later).abs.step (id, name) = some s) ∧
    (∀ plan now owner names leaseMs (p : RunPayload J),
      ((db.after events).call plan (.claim now owner names leaseMs)).1 = .ok (.claimed (some p)) →
      p.stepState =
        ((db.after events).call (J := J) plan (.claim now owner names leaseMs)).2.stored J p.id) ∧
    (∀ plan (c : Call J) k s, (db.after events).abs.step k = none →
      ((db.after events).call plan c).2.abs.step k = some s →
      s.key = k ∧ (db.after events).abs.Stores c ((db.after events).call plan c).1 s) ∧
    (∀ plan now id owner name (value : J.Value) reply,
      ((db.after events).call plan (.saveStep now id owner name value)).1 = .ok reply →
      ((db.after events).call plan (.saveStep now id owner name value)).2.abs.step (id, name) =
        some (((db.after events).abs.step (id, name)).getD
          ⟨id, name, J.toStr value, now.ms⟩)) ∧
    ∀ plan now id owner name (value : J.Value) reply (later : List (StoreEvent J)),
      let saved := (db.after events).call plan (.saveStep now id owner name value)
      (db.after events).abs.step (id, name) = none → saved.1 = .ok reply →
      saved.2.Lives id later → ∀ plan now owner names leaseMs (p : RunPayload J),
        ((saved.2.after later).call plan (.claim now owner names leaseMs)).1 =
          .ok (.claimed (some p)) →
        p.id = id → p.stepState name = some (J.readBack value) := by
  have hinv : (db.after events).Inv := RunsDb.inv_after hnew.inv events
  have hsaved (plan now id owner name) (value : J.Value) (reply)
      (hr : ((db.after events).call plan (.saveStep now id owner name value)).1 = .ok reply) :
      ((db.after events).call plan (.saveStep now id owner name value)).2.abs.step (id, name) =
        some (((db.after events).abs.step (id, name)).getD ⟨id, name, J.toStr value, now.ms⟩) := by
    have hstep := RunsDb.call_refines hinv plan (.saveStep now id owner name value)
    rw [hr] at hstep
    exact hstep.step_saved
  refine ⟨?_, ?_, ?_, hsaved, ?_⟩
  · intro id name s later hs hl
    exact RunsDb.step_after hinv hs later hl
  · intro plan now owner _ _ _ hp
    exact RunsDb.claimed_stepState hinv hp
  · intro plan c k s hnone hs
    exact (RunsDb.call_refines hinv plan c).step_new hinv.abs hnone hs
  · rintro plan now id owner name value reply later saved hnone hr hlives _ _ _ _ _ p hp rfl
    have hstep := hsaved plan now p.id owner name value reply hr
    rw [hnone] at hstep
    have hinv' := RunsDb.exec_inv hinv (.call plan (.saveStep now p.id owner name value))
    exact RunsDb.claim_returns (RunsDb.inv_after hinv' later) hp
      (RunsDb.step_after hinv' hstep later hlives)

def saveOnce : List (StoreEvent JsonCodec.literals) :=
  [.call .stored (.enqueue .epoch "run" "work" JsonLiteral.null ⟨none, none, none⟩),
    .call .stored (.claim .epoch "owner" ["work"] 1000),
    .call .stored (.saveStep .epoch "run" "owner" "step" JsonLiteral.true)]

def saveAgain : List (StoreEvent JsonCodec.literals) :=
  [.call .stored (.saveStep .epoch "run" "owner" "step" JsonLiteral.false)]

theorem steps_memoized_save_again :
    (((RunsDb.sqlite .empty).after saveOnce).after saveAgain).abs.step ("run", "step") =
      some ⟨"run", "step", "true", 0⟩ := by
  refine (steps_memoized .sqlite saveOnce).1 "run" "step" _ saveAgain rfl ?_
  intro p hp
  rcases List.prefix_cons_iff.mp hp with rfl | ⟨t, rfl, ht⟩
  · exact some_ne_none _
  · rw [List.prefix_nil.mp ht]
    exact some_ne_none _

end Tako.Workflow
