import Tako.WorkflowSteps

/-! Waking parked runs. A wait ends once: a signal of its event ends it with the
payload, or the claim after its timeout ends it with `null`. -/
namespace Tako.Workflow
open Option
open scoped Classical
variable {J : JsonCodec} {rejects : Call J → RunsDbError → Prop}
def Queue.WaitsFor (q : Queue) (eventName id : String) : Prop := ∃ n, q.Waits eventName (id, n)

variable {q q' : Queue} {db : RunsDb} {k : String × String} {a : Run} {w : EventWaiter}
  {now : ClockMs} {eventName : String}
structure Queue.Wakes (q q' : Queue) (now : ClockMs) (eventName : String) (reply : Reply J) :
    Prop where
  waiters : ∀ k, q'.waiter k = (q.waiter k).filter (fun w => w.eventName ≠ eventName)
  woken : ∀ id r, q.run id = some r → q.WaitsFor eventName id →
    q'.run id = some { r with status := .pending, runAt := now.ms }
  others : ∀ id, ¬q.WaitsFor eventName id → q'.run id = q.run id
  count : reply = .count {id | q.WaitsFor eventName id}.ncard

namespace Queue
theorem Inv.ncard_waits (h : q.Inv) (eventName : String) :
    {k | q.Waits eventName k}.ncard = {id | q.WaitsFor eventName id}.ncard := by
  have himage : {id | q.WaitsFor eventName id} =
      Set.image Prod.fst {k | q.Waits eventName k} := by
    ext id
    constructor
    · rintro ⟨n, hn⟩
      exact ⟨(id, n), hn, rfl⟩
    · rintro ⟨k, hk, rfl⟩
      exact ⟨k.2, hk⟩
  rw [himage, Set.InjOn.ncard_image]
  rintro ⟨i, m⟩ ⟨v, hv, -⟩ ⟨j, n⟩ ⟨w, hw, -⟩ hij
  have hi : i = j := hij
  subst hi
  rw [h.waiter_unique i m n v w hv hw]

theorem Inv.wakes (h : q.Inv) (now : ClockMs) (eventName payloadJson : String) :
    q.Wakes (J := J) (q.signal now eventName payloadJson) now eventName
      (.count {k | q.Waits eventName k}.ncard) := by
  refine ⟨?_, ?_, ?_, ?_⟩
  · intro k
    rfl
  · intro id r hr hw
    obtain ⟨n, w, hn, he⟩ := hw
    obtain ⟨_, hr', hp, -⟩ := h.waiter_run (id, n) w hn
    rw [hr] at hr'
    cases hr'
    have hex : ∃ n, q.Waits eventName (id, n) := ⟨n, w, hn, he⟩
    simp only [Queue.signal, hr, map_some, hp, hex, and_self, if_true]
  · intro id hn
    have hnone : ¬∃ n, q.Waits eventName (id, n) := hn
    simp only [Queue.signal, hnone, and_false, if_false, map_id']
  · rw [h.ncard_waits]
end Queue

variable {r : Result J}
theorem Step.signal_cases {payload : J.Value}
    (hs : Step rejects q (.signal now eventName payload) r q') :
    (∃ e, r = .error e ∧ rejects (.signal now eventName payload) e ∧ q' = q) ∨
      (r = .ok (.count {k | q.Waits eventName k}.ncard) ∧
        q' = q.signal now eventName (J.toStr payload)) := by
  cases hs with
  | rejected hr => exact .inl ⟨_, rfl, hr, rfl⟩
  | stale hc => simp [Call.caller] at hc
  | written _ hw => simp [Call.write] at hw
  | signalled => exact .inr ⟨rfl, rfl⟩

variable {c : Call J}
theorem Step.waiter_new (hs : Step rejects q c r q') (hnone : q.waiter k = none)
    (h : q'.waiter k ≠ none) :
    ∃ owner eventName timeoutAtMs, c = .waitForEvent k.1 owner k.2 eventName timeoutAtMs ∧
      q.Owns k.1 owner := by
  cases hs with
  | claimNext => exact absurd (by simp [Queue.claim, hnone]) h
  | signalled => exact absurd (by simp [Queue.signal, hnone]) h
  | pruned => exact absurd (by simp [Queue.remove, hnone]) h
  | @waiting id owner stepName eventName timeoutAtMs s hr ho =>
    by_cases hk : k = (id, stepName)
    · subst hk
      exact ⟨owner, eventName, timeoutAtMs, rfl, s, hr, ho⟩
    · refine absurd ?_ h
      have hne : k ≠ EventWaiter.key ⟨id, stepName, eventName, timeoutAtMs⟩ := hk
      simp only [Queue.setWaiter, Function.update_of_ne hne]
      exact hnone
  | _ => exact absurd hnone h

/-- A wait ends by a signal of its event, or by a claim after its timeout. -/
theorem Step.waiter_gone (hs : Step rejects q c r q') (hq : q.Inv) (hw : q.waiter k = some w)
    (h : q'.waiter k ≠ some w) : q'.waiter k = none ∧
      ((∃ now payload, c = .signal now w.eventName payload) ∨
        ∃ now owner names leaseMs p, c = .claim now owner names leaseMs ∧
          r = .ok (.claimed (some p)) ∧ p.id = k.1 ∧ w.Expired now) := by
  cases hs with
  | @claimNext now owner names leaseMs a a' hn hr =>
    by_cases hx : k.1 = a'.id ∧ w.Expired now
    · exact ⟨by simp [Queue.claim, hw, hx, filter_some],
        .inr ⟨now, owner, names, leaseMs, _, rfl, rfl, hx.1.symm, hx.2⟩⟩
    · exact absurd (by simp [Queue.claim, hw, hx, filter_some]) h
  | @signalled now eventName payload =>
    by_cases he : w.eventName = eventName
    · subst he
      exact ⟨by simp [Queue.signal, hw, filter_some], .inl ⟨now, payload, rfl⟩⟩
    · exact absurd (by simp [Queue.signal, hw, he, filter_some]) h
  | @pruned cutoffMs limit gone hg =>
    -- a run with a wait is pending, and those are not pruned
    obtain ⟨s, hs, hp, -⟩ := hq.waiter_run k w hw
    have hkeep : k.1 ∉ gone := by
      intro hm
      obtain ⟨_, hs', hpr⟩ := hg.prunable hm
      rw [hs] at hs'
      cases hs'
      have ht := hpr.1
      rw [hp] at ht
      exact absurd ht (by decide)
    exact absurd (by simp [Queue.remove, hkeep, hw]) h
  | @waiting id owner stepName eventName timeoutAtMs s hr ho =>
    have hne : k ≠ EventWaiter.key ⟨id, stepName, eventName, timeoutAtMs⟩ := by
      intro hk
      rw [hk] at hw
      exact absurd hw (by
        have hno := hq.no_waiter_of_owned hr ho stepName
        simp [EventWaiter.key, hno])
    refine absurd ?_ h
    simp only [Queue.setWaiter, Function.update_of_ne hne]
    exact hw
  | _ => exact absurd hw h

theorem Step.pending_kept (hs : Step rejects q c r q') (hq : q.Inv) {id : String}
    (ha : q.run id = some a) (hp : a.status = .pending) :
    (∃ b, q'.run id = some b ∧ b.status = .pending) ∨
      ∃ p, r = .ok (.claimed (some p)) ∧ p.id = id := by
  -- an owned run is running
  have howned {owner : String} (ho : a.OwnedBy owner) : False := by
    cases hp.symm.trans ho.2
  have hrow := hs.row hq id
  rw [ha] at hrow
  generalize q'.run id = b at hrow ⊢
  cases hrow with
  | kept => exact .inl ⟨a, rfl, hp⟩
  | claimed _ hr hid => exact .inr ⟨_, hr, hid.1⟩
  | written _ _ ho | parked _ ho => exact (howned ho).elim
  | pruned _ hprunable =>
    have hterminal := hprunable.1
    rw [hp] at hterminal
    exact absurd hterminal (by decide)
  | reclaimed => exact .inl ⟨_, rfl, rfl⟩
  | signalled => exact .inl ⟨_, rfl, hp⟩

theorem Queue.step_signal {payloadJson : String} (hk : q.Waits eventName k) :
    (q.signal now eventName payloadJson).step k =
      some ((q.step k).getD ⟨k.1, k.2, payloadJson, now.ms⟩) := by
  cases hs : q.step k <;> simp [Queue.signal, hs, hk]

theorem Queue.Inv.claim_waiter (h : q.Inv) {names : List String} (hn : q.Next now names a)
    (owner : String) (leaseUntil : ℤ) {n : String} (hw : q.waiter (a.id, n) = some w) :
    w.Expired now ∧ (q.claim now (a.claimedBy owner leaseUntil)).waiter (a.id, n) = none ∧
      (q.claim now (a.claimedBy owner leaseUntil)).step (a.id, n) =
        some ((q.step (a.id, n)).getD ⟨a.id, n, "null", now.ms⟩) := by
  have hx := h.expired_of_claimable hn.stored hn.claimable hw
  have hid : (a.claimedBy owner leaseUntil).id = a.id := rfl
  refine ⟨hx, ?_, ?_⟩
  · simp [Queue.claim, hw, hx, hid, filter_some]
  · cases hs : q.step (a.id, n) <;> simp [Queue.claim, hs, hw, hx, hid]

namespace RunsDb
theorem waiter_after (h : db.Inv) (hnone : db.abs.waiter k = none) (later : List (StoreEvent J))
    (hl : ∀ plan owner eventName timeoutAtMs,
      .call plan (.waitForEvent k.1 owner k.2 eventName timeoutAtMs) ∉ later) :
    (db.after later).abs.waiter k = none := by
  apply after_induction h later (P := fun q => q.waiter k = none) hnone
  intro plan _ hc _ _ _ _ _ hs hn
  by_contra hsome
  obtain ⟨owner, eventName, timeoutAtMs, rfl, -⟩ := hs.waiter_new hn hsome
  exact hl plan owner eventName timeoutAtMs hc

def Unclaimed (db : RunsDb) (id : String) (events : List (StoreEvent J)) : Prop :=
  ∀ before plan c after (p : RunPayload J), events = before ++ .call plan c :: after →
    ((db.after before).call plan c).1 = .ok (.claimed (some p)) → p.id ≠ id

/-- A pending run is not deleted before it is claimed. -/
theorem lives_of_unclaimed (h : db.Inv) {id : String} (ha : db.abs.run id = some a)
    (hp : a.status = .pending) {events : List (StoreEvent J)} (hu : db.Unclaimed id events) :
    db.Lives id events := by
  induction events generalizing db a with
  | nil =>
    intro p hpre
    rw [List.prefix_nil.mp hpre]
    exact fun hn => by simp [after, ha] at hn
  | cons e events ih =>
    have hstep : ∃ b, (db.exec e).2.abs.run id = some b ∧ b.status = .pending := by
      rcases exec_cases h e with ⟨plan, c, rfl, hs⟩ | habs
      · rcases hs.pending_kept h.abs ha hp with hb | ⟨p, hr, hid⟩
        · exact hb
        · exact absurd hid (hu [] plan c events p rfl hr)
      · exact ⟨a, by rw [habs]; exact ha, hp⟩
    obtain ⟨b, hb, hbp⟩ := hstep
    have hu' : (db.exec e).2.Unclaimed id events := by
      intro before plan c rest p he hr
      exact hu (e :: before) plan c rest p (by rw [he, List.cons_append]) hr
    intro p hpre
    rcases List.prefix_cons_iff.mp hpre with rfl | ⟨t, rfl, ht⟩
    · exact fun hn => by simp [after, ha] at hn
    · exact ih (exec_inv h e) hb hbp hu' t ht

theorem fromStrOrNull_getD {J : JsonCodec} (db : RunsDb) (id name text : String) (t : ℤ) :
    some (J.fromStrOrNull ((db.abs.step (id, name)).getD ⟨id, name, text, t⟩).result) =
      (db.stored J id name).or (some (J.fromStrOrNull text)) := by
  cases hs : db.abs.step (id, name) <;> simp [stored, hs]
end RunsDb

structure WakesOnce (J : JsonCodec) (db : RunsDb) : Prop where
  /-- A signal is turned down for its arguments, or ends exactly the waits for its
  event and makes their runs due. -/
  signal : ∀ plan now eventName (payload : J.Value),
    (∃ e, (db.call plan (.signal now eventName payload)).1 = .error e ∧
      db.rejects (.signal now eventName payload) e ∧
      (db.call plan (.signal now eventName payload)).2.abs = db.abs) ∨
    ∃ reply, (db.call plan (.signal now eventName payload)).1 = .ok reply ∧
      db.abs.Wakes (db.call plan (.signal now eventName payload)).2.abs now eventName reply
  /-- The next claim of a woken run, and every claim of it for the rest of its
  life, returns the payload for the step, unless the step already had a result. -/
  payload : ∀ plan now eventName (payload : J.Value) reply id name
    (later : List (StoreEvent J)), (db.call plan (.signal now eventName payload)).1 = .ok reply →
    db.abs.Waits eventName (id, name) →
    ((db.call plan (.signal now eventName payload)).2.Lives id later ∨
      (db.call plan (.signal now eventName payload)).2.Unclaimed id later) →
    ∀ plan' now' owner names leaseMs (p : RunPayload J),
      (((db.call plan (.signal now eventName payload)).2.after later).call plan'
        (.claim now' owner names leaseMs)).1 = .ok (.claimed (some p)) → p.id = id →
      p.stepState name = (db.stored J id name).or (some (J.readBack payload))
  /-- The claim of a run that still waits finds the timeout passed, ends the wait
  and returns `null` for the step, unless the step already had a result. -/
  timeout : ∀ plan now owner names leaseMs (p : RunPayload J) name w,
    (db.call plan (.claim now owner names leaseMs)).1 = .ok (.claimed (some p)) →
    db.abs.waiter (p.id, name) = some w →
    w.Expired now ∧
      (db.call (J := J) plan (.claim now owner names leaseMs)).2.abs.waiter (p.id, name) = none ∧
      p.stepState name = (db.stored J p.id name).or (some J.null)
  /-- One call ends a wait: a signal of its event or the claim of its run. After
  that nothing ends it again before the run waits in that step anew. -/
  once : ∀ plan (c : Call J) k w, db.abs.waiter k = some w →
    (db.call plan c).2.abs.waiter k ≠ some w →
    ((∃ now payload, c = .signal now w.eventName payload) ∨
      ∃ now owner names leaseMs, c = .claim now owner names leaseMs ∧ w.Expired now) ∧
    ∀ later : List (StoreEvent J), (∀ plan' owner eventName timeoutAtMs,
      .call plan' (.waitForEvent k.1 owner k.2 eventName timeoutAtMs) ∉ later) →
      ((db.call plan c).2.after later).abs.waiter k = none

theorem wakesOnce_of_inv (h : db.Inv) : WakesOnce J db := by
  refine ⟨?_, ?_, ?_, ?_⟩
  · intro plan now eventName payload
    have hstep := RunsDb.call_refines h plan (.signal now eventName payload)
    rcases hstep.signal_cases with ⟨e, hr, hrej, hq⟩ | ⟨hr, hq⟩
    · exact .inl ⟨e, hr, hrej, hq⟩
    · right
      rw [hr, hq]
      exact ⟨_, rfl, h.abs.wakes now eventName (J.toStr payload)⟩
  · intro plan now eventName payload _ id name later hr hw hlu _ _ owner names leaseMs
      p hp hid
    subst hid
    have hstep := RunsDb.call_refines h plan (.signal now eventName payload)
    have hinv' : (db.call plan (.signal now eventName payload)).2.Inv :=
      RunsDb.exec_inv h (.call plan (.signal now eventName payload))
    have hl : (db.call plan (.signal now eventName payload)).2.Lives p.id later := by
      rcases hlu with hl | hu
      · exact hl
      · obtain ⟨w, hwk, -⟩ := hw
        obtain ⟨a, ha, hap, -⟩ := h.abs.waiter_run (p.id, name) w hwk
        rcases hstep.pending_kept h.abs ha hap with ⟨b, hb, hbp⟩ | ⟨p', hp', -⟩
        · exact RunsDb.lives_of_unclaimed hinv' hb hbp hu
        · rcases hstep.signal_cases with ⟨e, he, -⟩ | ⟨he, -⟩
          · rw [he] at hp'
            cases hp'
          · rw [he] at hp'
            cases hp'
    -- the signal stored a result, which is still there when the run is claimed
    have hstored : (db.call plan (.signal now eventName payload)).2.abs.step (p.id, name) =
        some ((db.abs.step (p.id, name)).getD ⟨p.id, name, J.toStr payload, now.ms⟩) := by
      rcases hstep.signal_cases with ⟨e, he, -⟩ | ⟨-, hq⟩
      · rw [hr] at he
        cases he
      · rw [hq]
        exact Queue.step_signal hw
    have hlater := RunsDb.step_after hinv' hstored later hl
    rw [RunsDb.claim_returns (RunsDb.inv_after hinv' later) hp hlater]
    exact RunsDb.fromStrOrNull_getD db p.id name (J.toStr payload) now.ms
  · intro plan now owner names leaseMs p name w hp hw
    have hclaim := RunsDb.call_refines h plan (.claim now owner names leaseMs : Call J)
    rw [hp] at hclaim
    obtain ⟨a, hn, hq', hpay⟩ := hclaim.claimed_payload
    have hid : p.id = a.id := by rw [hpay]; rfl
    rw [hid] at hw
    obtain ⟨hx, hgone, hstep⟩ := h.abs.claim_waiter hn owner
      (saturatingAdd now.ms (clampLeaseMs leaseMs)) hw
    rw [← hq'] at hgone hstep
    refine ⟨hx, by rw [hid]; exact hgone, ?_⟩
    rw [RunsDb.claimed_stepState h hp, hid, RunsDb.stored_of_step hstep, ← J.fromStrOrNull_null]
    exact RunsDb.fromStrOrNull_getD db a.id name "null" now.ms
  · intro plan c k w hw hne
    have hstep := RunsDb.call_refines h plan c
    obtain ⟨hgone, hby⟩ := hstep.waiter_gone h.abs hw hne
    refine ⟨?_, fun later hl => ?_⟩
    · rcases hby with hsig | ⟨now, owner, names, leaseMs, -, hc, -, -, hx⟩
      · exact .inl hsig
      · exact .inr ⟨now, owner, names, leaseMs, hc, hx⟩
    · exact RunsDb.waiter_after (RunsDb.exec_inv h (.call plan c)) hgone later hl

theorem wakes_once {db : RunsDb} (hnew : db.IsNew) (events : List (StoreEvent J)) :
    WakesOnce J (db.after events) :=
  wakesOnce_of_inv (RunsDb.inv_after hnew.inv events)

/-- A run saves a step and then waits for an event in the same step. -/
def saveThenWait : List (StoreEvent JsonCodec.literals) :=
  [.call .stored (.enqueue .epoch "run" "work" JsonLiteral.null ⟨none, none, none⟩),
    .call .stored (.claim .epoch "owner" ["work"] 1000),
    .call .stored (.saveStep .epoch "run" "owner" "step" JsonLiteral.true),
    .call .stored (.waitForEvent "run" "owner" "step" "event" (some 0))]

theorem wakes_once_saveThenWait :
    WakesOnce JsonCodec.literals ((RunsDb.sqlite .empty).after saveThenWait) :=
  wakes_once .sqlite saveThenWait

/-- The timeout of that wait does not yield `null`. -/
theorem timeout_keeps_stored_result :
    (∃ w, ((RunsDb.sqlite .empty).after saveThenWait).abs.waiter ("run", "step") = some w ∧
      w.Expired .epoch) ∧
    ∃ p : RunPayload JsonCodec.literals,
      (((RunsDb.sqlite .empty).after saveThenWait).call .stored
        (.claim .epoch "again" ["work"] 1000)).1 = .ok (.claimed (some p)) ∧
      p.id = "run" ∧ p.stepState "step" = some JsonLiteral.true ∧
      JsonLiteral.true ≠ JsonLiteral.null :=
  ⟨⟨_, rfl, by decide⟩, _, rfl, rfl, rfl, by decide⟩

end Tako.Workflow
