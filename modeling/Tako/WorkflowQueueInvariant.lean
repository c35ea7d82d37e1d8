import Tako.WorkflowQueue

/-! The representation invariant of the queue, kept by every call. -/
namespace Tako.Workflow
open Function Option
open scoped Classical
variable {J : JsonCodec} {rejects : Call J → RunsDbError → Prop}
variable {r : Run} {q : Queue} {id owner : String} {names : List String} {w : EventWaiter}
  {now : ClockMs} {c : Call J}
structure Run.WellFormed (r : Run) : Prop where
  running_iff_worker : r.status = .running ↔ r.workerId ≠ none
  running_iff_lease : r.status = .running ↔ r.leaseUntil ≠ none
  terminal_iff_finished : r.status.Terminal ↔ r.finishedAt ≠ none
  attempts_nonneg : 0 ≤ r.attempts
  attempts_pos : r.status = .running → 1 ≤ r.attempts

/-- A parked run waits in exactly one place and is due when its wait expires. -/
structure Queue.Inv (q : Queue) : Prop where
  run_id : ∀ id r, q.run id = some r → r.id = id
  step_key : ∀ k s, q.step k = some s → s.key = k
  waiter_key : ∀ k w, q.waiter k = some w → w.key = k
  run_wellFormed : ∀ id r, q.run id = some r → r.WellFormed
  step_run : ∀ k s, q.step k = some s → ∃ r, q.run k.1 = some r
  waiter_run : ∀ k w, q.waiter k = some w →
    ∃ r, q.run k.1 = some r ∧ r.status = .pending ∧ r.runAt = w.expiresAt.getD i64Max
  waiter_unique : ∀ i m n v w, q.waiter (i, m) = some v → q.waiter (i, n) = some w → m = n

namespace Run
theorem WellFormed.finishedAt_none (h : r.WellFormed) (hs : ¬r.status.Terminal) :
    r.finishedAt = none := by
  by_contra hn
  exact hs (h.terminal_iff_finished.mpr hn)

theorem OwnedBy.not_terminal (h : r.OwnedBy owner) : ¬r.status.Terminal := by
  simp [RunStatus.Terminal, h.2]

section
variable (h : r.WellFormed)
include h
theorem wellFormed_claimedBy (hp : r.status = .pending) (owner : String) (leaseUntil : ℤ) :
    (r.claimedBy owner leaseUntil).WellFormed := by
  have hf := h.finishedAt_none (by simp [RunStatus.Terminal, hp])
  have ha := h.attempts_nonneg
  refine ⟨by simp [claimedBy], by simp [claimedBy], ?_, ?_, ?_⟩
  · simp [claimedBy, RunStatus.Terminal, hf]
  · simp only [claimedBy]
    omega
  · intro _
    simp only [claimedBy]
    omega

theorem wellFormed_released (hs : ¬r.status.Terminal) : r.released.WellFormed :=
  ⟨by simp [released], by simp [released],
    by simp [released, RunStatus.Terminal, h.finishedAt_none hs], h.attempts_nonneg,
    by simp [released]⟩

theorem wellFormed_parked (ho : r.OwnedBy owner) (runAt : ℤ) :
    (r.parked runAt).WellFormed := by
  have hr := wellFormed_released h ho.not_terminal
  have ha := h.attempts_pos ho.2
  refine ⟨hr.running_iff_worker, hr.running_iff_lease, hr.terminal_iff_finished, ?_, ?_⟩
  · simp only [parked]
    omega
  · intro hs
    simp [parked, released] at hs

theorem wellFormed_finished {status : RunStatus} (hs : status.Terminal) (now : ClockMs) :
    (r.finished status now).WellFormed := by
  have hne : status ≠ .running := by rcases hs with rfl | rfl | rfl <;> decide
  refine ⟨?_, ?_, ?_, h.attempts_nonneg, ?_⟩
  · simpa [finished] using hne
  · simpa [finished] using hne
  · simpa [finished] using hs
  · intro hr
    exact absurd hr hne
end
end Run

theorem Call.write_wellFormed {f : Run → Run} (hw : c.write = some f) (h : r.WellFormed)
    (ho : r.OwnedBy owner) :
    (f r).WellFormed ∧ (f r).id = r.id := by
  cases c with
  | heartbeat =>
    cases hw
    refine ⟨{ h with running_iff_lease := ?_ }, rfl⟩
    simp [ho.2]
  | complete now =>
    cases hw
    exact ⟨Run.wellFormed_finished h (.inl rfl) now, rfl⟩
  | cancel now =>
    cases hw
    have hf := Run.wellFormed_finished h (.inr (.inl rfl)) now
    exact ⟨{ hf with }, rfl⟩
  | fail now _ _ _ next finalize =>
    cases finalize with
    | true =>
      cases hw
      have hf := Run.wellFormed_finished h (.inr (.inr rfl)) now
      exact ⟨{ hf with }, rfl⟩
    | false =>
      cases next with
      | none => simp [Call.write] at hw
      | some =>
        cases hw
        have hr := Run.wellFormed_released h ho.not_terminal
        exact ⟨{ hr with }, rfl⟩
  | defer =>
    cases hw
    exact ⟨Run.wellFormed_parked h ho _, rfl⟩
  | _ => simp [Call.write] at hw

namespace Queue
theorem forall_update_some {κ α : Type} [DecidableEq κ] {m : κ → Option α} {P : κ → α → Prop}
    {k : κ} {v : α} (hv : P k v) (h : ∀ k v, m k = some v → P k v) (k' : κ) (v' : α)
    (hk : update m k (some v) k' = some v') : P k' v' := by
  by_cases he : k' = k
  · subst he
    rw [update_self] at hk
    cases hk
    exact hv
  · rw [update_of_ne he] at hk
    exact h k' v' hk

section
variable (h : q.Inv)
include h
theorem Inv.no_waiter (hr : q.run id = some r) (hs : r.status ≠ .pending) (n : String) :
    q.waiter (id, n) = none := by
  cases hw : q.waiter (id, n) with
  | none => rfl
  | some w =>
    obtain ⟨_, hr', hp, -⟩ := h.waiter_run _ w hw
    rw [hr] at hr'
    cases hr'
    exact absurd hp hs

theorem Inv.no_waiter_of_owned (hr : q.run id = some r) (ho : r.OwnedBy owner) (n : String) :
    q.waiter (id, n) = none :=
  h.no_waiter hr (by rw [ho.2]; decide) n

theorem Inv.no_waiter_of_missing (hr : q.run id = none) (n : String) :
    q.waiter (id, n) = none := by
  cases hw : q.waiter (id, n) with
  | none => rfl
  | some w =>
    obtain ⟨r, hr', -⟩ := h.waiter_run _ w hw
    simp [hr] at hr'

theorem Inv.setRun (hr : r.WellFormed) (hw : ∀ n, q.waiter (r.id, n) = none) :
    (q.setRun r).Inv where
  __ := h
  run_id := forall_update_some rfl h.run_id
  run_wellFormed := forall_update_some hr h.run_wellFormed
  step_run k s hs := by
    by_cases he : k.1 = r.id
    · exact ⟨r, by simp [Queue.setRun, he]⟩
    · obtain ⟨r', hr'⟩ := h.step_run k s hs
      exact ⟨r', by simpa [Queue.setRun, he] using hr'⟩
  waiter_run k w hk := by
    have he : k.1 ≠ r.id := by
      intro he
      have hn := hw k.2
      rw [← he] at hn
      exact absurd hk (by simp [Queue.setRun, hn])
    obtain ⟨r', hr', hrest⟩ := h.waiter_run k w hk
    exact ⟨r', by simpa [Queue.setRun, he] using hr', hrest⟩

theorem Inv.setWaiter (hr : q.run w.runId = some r) (hp : r.status = .pending)
    (hd : r.runAt = w.expiresAt.getD i64Max) (hw : ∀ n, q.waiter (w.runId, n) = none) :
    (q.setWaiter w).Inv where
  __ := h
  waiter_key := forall_update_some rfl h.waiter_key
  waiter_run := forall_update_some ⟨r, hr, hp, hd⟩ h.waiter_run
  waiter_unique i m n u v hm hn := by
    by_cases hi : i = w.runId
    · -- the new waiter is the only one of its run
      subst hi
      have only (m : String) (u : EventWaiter)
          (hm : (q.setWaiter w).waiter (w.runId, m) = some u) : m = w.stepName := by
        by_contra hne
        have hk : (w.runId, m) ≠ w.key := fun he => hne (congrArg Prod.snd he)
        simp [Queue.setWaiter, hk, hw m] at hm
      rw [only m u hm, only n v hn]
    · have hk (m : String) : (i, m) ≠ w.key := fun he => hi (congrArg Prod.fst he)
      simp only [Queue.setWaiter, update_of_ne (hk m)] at hm
      simp only [Queue.setWaiter, update_of_ne (hk n)] at hn
      exact h.waiter_unique i m n u v hm hn

theorem Inv.saveStep {s : StepRow} (hr : q.run s.runId = some r) : (q.saveStep s).Inv where
  __ := h
  step_key k t ht := by
    simp only [Queue.saveStep, or_eq_some_iff] at ht
    rcases ht with ht | ⟨-, ht⟩
    · exact h.step_key k t ht
    · split at ht
      · cases ht
        assumption
      · cases ht
  step_run k t ht := by
    simp only [Queue.saveStep, or_eq_some_iff] at ht
    rcases ht with ht | ⟨-, ht⟩
    · exact h.step_run k t ht
    · split at ht
      · rename_i hk
        subst hk
        exact ⟨r, hr⟩
      · cases ht

theorem Inv.expired_of_claimable (hr : q.run r.id = some r) (hc : r.Claimable now names)
    {n : String} (hw : q.waiter (r.id, n) = some w) :
    w.Expired now := by
  obtain ⟨_, hr', -, hd⟩ := h.waiter_run _ w hw
  rw [hr] at hr'
  cases hr'
  have hdue := hc.2.1
  rw [hd] at hdue
  cases hx : w.expiresAt with
  | none =>
    rw [hx] at hdue
    have hlt := now.lt_max
    simp only [getD_none] at hdue
    omega
  | some t => exact ⟨t, hx, by simpa [hx] using hdue⟩

theorem Inv.claim (hn : q.Next now names r) (owner : String) (leaseUntil : ℤ) :
    (q.claim now (r.claimedBy owner leaseUntil)).Inv := by
  set r' := r.claimedBy owner leaseUntil with hr'
  have hid : r'.id = r.id := rfl
  have hwf : r'.WellFormed :=
    Run.wellFormed_claimedBy (h.run_wellFormed _ r hn.stored) hn.claimable.1 owner leaseUntil
  -- every waiter of the claimed run has expired, so none is left
  have hgone (n : String) : (q.claim now r').waiter (r.id, n) = none := by
    simp only [Queue.claim, filter_eq_none_iff]
    intro w hw
    have hx := h.expired_of_claimable hn.stored hn.claimable hw
    simp [hid, hx]
  have hother {k : String × String} {w : EventWaiter}
      (hk : (q.claim now r').waiter k = some w) : q.waiter k = some w ∧ k.1 ≠ r.id := by
    refine ⟨(filter_eq_some_iff.mp hk).1, ?_⟩
    intro he
    have hz := hgone k.2
    rw [← he] at hz
    rw [hk] at hz
    cases hz
  have hstep {k : String × String} {s : StepRow} (hk : (q.claim now r').step k = some s) :
      q.step k = some s ∨ (s.key = k ∧ k.1 = r.id) := by
    rcases or_eq_some_iff.mp hk with hs | ⟨-, hs⟩
    · exact .inl hs
    · split at hs
      · rename_i hc
        cases hs
        exact .inr ⟨rfl, hc.1⟩
      · cases hs
  refine ⟨?_, ?_, ?_, ?_, ?_, ?_, ?_⟩
  · exact forall_update_some rfl h.run_id
  · intro k s hk
    rcases hstep hk with hs | ⟨hs, -⟩
    · exact h.step_key k s hs
    · exact hs
  · intro k w hk
    exact h.waiter_key k w (hother hk).1
  · exact forall_update_some hwf h.run_wellFormed
  · intro k s hk
    by_cases he : k.1 = r.id
    · exact ⟨r', by simp [Queue.claim, hid, he]⟩
    · rcases hstep hk with hs | ⟨-, hs⟩
      · obtain ⟨r'', hr''⟩ := h.step_run k s hs
        exact ⟨r'', by simpa [Queue.claim, hid, he] using hr''⟩
      · exact absurd hs he
  · intro k w hk
    obtain ⟨hw, hne⟩ := hother hk
    obtain ⟨r'', hr'', hrest⟩ := h.waiter_run k w hw
    exact ⟨r'', by simpa [Queue.claim, hid, hne] using hr'', hrest⟩
  · intro i m n v w hm hn'
    exact h.waiter_unique i m n v w (hother hm).1 (hother hn').1

theorem Inv.signal (now : ClockMs) (eventName payloadJson : String) :
    (q.signal now eventName payloadJson).Inv := by
  have hrun {id : String} {s : Run} (hs : (q.signal now eventName payloadJson).run id = some s) :
      ∃ r, q.run id = some r ∧ s.id = r.id ∧ (r.WellFormed → s.WellFormed) := by
    obtain ⟨r, hr, rfl⟩ := map_eq_some_iff.mp hs
    refine ⟨r, hr, ?_, ?_⟩
    · split <;> rfl
    · intro hw
      split
      · exact { hw with }
      · exact hw
  have hwaiter {k : String × String} {w : EventWaiter}
      (hk : (q.signal now eventName payloadJson).waiter k = some w) :
      q.waiter k = some w ∧ w.eventName ≠ eventName := by
    simpa [Queue.signal] using hk
  have hkept {id : String} {r : Run} (hr : q.run id = some r) :
      ∃ s, (q.signal now eventName payloadJson).run id = some s := by
    simp [Queue.signal, hr]
  refine ⟨?_, ?_, ?_, ?_, ?_, ?_, ?_⟩
  · intro id s hs
    obtain ⟨r, hr, hid, -⟩ := hrun hs
    exact hid.trans (h.run_id id r hr)
  · intro k s hk
    rcases or_eq_some_iff.mp hk with hs | ⟨-, hs⟩
    · exact h.step_key k s hs
    · split at hs
      · cases hs
        rfl
      · cases hs
  · intro k w hk
    exact h.waiter_key k w (hwaiter hk).1
  · intro id s hs
    obtain ⟨r, hr, -, hw⟩ := hrun hs
    exact hw (h.run_wellFormed id r hr)
  · intro k s hk
    rcases or_eq_some_iff.mp hk with hs | ⟨-, hs⟩
    · obtain ⟨r, hr⟩ := h.step_run k s hs
      exact hkept hr
    · split at hs
      · rename_i hw
        obtain ⟨w, hw, -⟩ := hw
        obtain ⟨r, hr, -⟩ := h.waiter_run k w hw
        exact hkept hr
      · cases hs
  · intro k w hk
    obtain ⟨hw, hne⟩ := hwaiter hk
    obtain ⟨r, hr, hp, hd⟩ := h.waiter_run k w hw
    -- a run with a waiter left over has no waiter for the event
    have hno : ¬∃ n, q.Waits eventName (k.1, n) := by
      rintro ⟨n, v, hv, hev⟩
      have hn := h.waiter_unique k.1 n k.2 v w hv hw
      subst hn
      rw [hw] at hv
      cases hv
      exact hne hev
    exact ⟨r, by simp [Queue.signal, hr, hno], hp, hd⟩
  · intro i m n v w hm hn
    exact h.waiter_unique i m n v w (hwaiter hm).1 (hwaiter hn).1

theorem Inv.reclaim (now : ClockMs) : (q.reclaim now).Inv := by
  have hrun {id : String} {s : Run} (hs : (q.reclaim now).run id = some s) :
      ∃ r, q.run id = some r ∧ s = if r.LeaseExpired now then r.released else r := by
    obtain ⟨r, hr, rfl⟩ := map_eq_some_iff.mp hs
    exact ⟨r, hr, rfl⟩
  refine ⟨?_, h.step_key, h.waiter_key, ?_, ?_, ?_, h.waiter_unique⟩
  · intro id s hs
    obtain ⟨r, hr, rfl⟩ := hrun hs
    have hid := h.run_id id r hr
    split <;> exact hid
  · intro id s hs
    obtain ⟨r, hr, rfl⟩ := hrun hs
    have hw := h.run_wellFormed id r hr
    split
    · rename_i hx
      exact Run.wellFormed_released hw (by simp [RunStatus.Terminal, hx.1])
    · exact hw
  · intro k s hk
    obtain ⟨r, hr⟩ := h.step_run k s hk
    exact ⟨_, by simp [Queue.reclaim, hr]; rfl⟩
  · intro k w hk
    obtain ⟨r, hr, hp, hd⟩ := h.waiter_run k w hk
    have hx : ¬r.LeaseExpired now := by
      intro hx
      have hrunning := hx.1
      rw [hp] at hrunning
      exact absurd hrunning (by decide)
    exact ⟨r, by simp [Queue.reclaim, hr, hx], hp, hd⟩

theorem Inv.remove (gone : Set String) : (q.remove gone).Inv := by
  -- a row that is left belongs to a run that is
  have hleft {α : Type} {id : String} {row : Option α} {x : α}
      (hx : (if id ∈ gone then none else row) = some x) : row = some x ∧ id ∉ gone :=
    (ite_none_left_eq_some.mp hx).symm
  refine ⟨?_, ?_, ?_, ?_, ?_, ?_, ?_⟩
  · exact fun id r hr => h.run_id id r (hleft hr).1
  · exact fun k s hk => h.step_key k s (hleft hk).1
  · exact fun k w hk => h.waiter_key k w (hleft hk).1
  · exact fun id r hr => h.run_wellFormed id r (hleft hr).1
  · intro k s hk
    obtain ⟨r, hr⟩ := h.step_run k s (hleft hk).1
    exact ⟨r, by simp [Queue.remove, (hleft hk).2, hr]⟩
  · intro k w hk
    obtain ⟨r, hr, hrest⟩ := h.waiter_run k w (hleft hk).1
    exact ⟨r, by simp [Queue.remove, (hleft hk).2, hr], hrest⟩
  · exact fun i m n v w hm hn => h.waiter_unique i m n v w (hleft hm).1 (hleft hn).1
end

theorem inv_empty : Queue.empty.Inv := by refine ⟨?_, ?_, ?_, ?_, ?_, ?_, ?_⟩ <;> simp [Queue.empty]
end Queue

theorem wellFormed_newRun (now : ClockMs) (nanoid name payloadJson : String) (opts : EnqueueOpts) :
    (Queue.newRun now nanoid name payloadJson opts).WellFormed := by
  refine ⟨?_, ?_, ?_, ?_, ?_⟩ <;> simp [Queue.newRun, RunStatus.Terminal]

/-- Every call keeps the queue well formed, whatever it answers. -/
theorem Step.inv {q' : Queue} {r : Result J} (hs : Step rejects q c r q') (h : q.Inv) :
    q'.Inv := by
  cases hs with
  | enqueueNew hn => exact h.setRun (wellFormed_newRun ..) (h.no_waiter_of_missing hn)
  | claimNext hn hr =>
    subst hr
    exact h.claim hn _ _
  | written _ hw hr ho =>
    obtain ⟨hwf, hid⟩ := Call.write_wellFormed hw (h.run_wellFormed _ _ hr) ho
    apply h.setRun hwf
    rw [hid, h.run_id _ _ hr]
    exact h.no_waiter_of_owned hr ho
  | saved ho =>
    obtain ⟨r, hr, -⟩ := ho
    exact h.saveStep hr
  | @waiting id owner stepName eventName timeoutAtMs r hr ho =>
    have hno := h.no_waiter_of_owned hr ho
    have hid := h.run_id _ _ hr
    subst hid
    have hset := h.setRun (Run.wellFormed_parked (h.run_wellFormed _ _ hr) ho
      (timeoutAtMs.getD i64Max)) hno
    exact hset.setWaiter (update_self ..) rfl rfl hno
  | pruned => exact h.remove _
  | reclaimed | reclaimedFrom => exact h.reclaim _
  | signalled => exact h.signal _ _ _
  | replaceSchedules | setScheduleLastRunAt => exact { h with }
  | _ => exact h

end Tako.Workflow
