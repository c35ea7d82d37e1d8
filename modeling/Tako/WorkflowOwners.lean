import Tako.WorkflowQueueInvariant

/-! Who owns a run. Only a claim gives ownership, every other call can at most
take it away, and a call without ownership does nothing. -/
namespace Tako.Workflow
open scoped Classical
variable {J : JsonCodec} {rejects : Call J → RunsDbError → Prop}
namespace Queue
theorem Owns.unique {q : Queue} {id a b : String} (ha : q.Owns id a) (hb : q.Owns id b) :
    a = b := by
  obtain ⟨r, hr, ho⟩ := ha
  obtain ⟨s, hs, hp⟩ := hb
  rw [hr] at hs
  cases hs
  exact Option.some.inj (ho.1.symm.trans hp.1)
end Queue

theorem Run.not_ownedBy_released (r : Run) (owner : String) : ¬r.released.OwnedBy owner :=
  fun h => absurd h.1 (by simp [Run.released])

variable {id owner : String}
variable {c : Call J}
theorem Call.write_ownedBy {f : Run → Run} (hw : c.write = some f) {r : Run} {owner : String}
    (h : (f r).OwnedBy owner) :
    r.OwnedBy owner ∧ ∃ now id workerId leaseMs, c = .heartbeat now id workerId leaseMs := by
  cases c with
  | heartbeat =>
    cases hw
    exact ⟨h, _, _, _, _, rfl⟩
  | complete | cancel =>
    cases hw
    exact absurd h.1 (by simp [Run.finished])
  | fail _ _ _ _ next finalize =>
    cases finalize with
    | true =>
      cases hw
      exact absurd h.1 (by simp [Run.finished])
    | false =>
      cases next with
      | none => simp [Call.write] at hw
      | some =>
        cases hw
        exact absurd h.1 (by simp [Run.released])
  | defer =>
    cases hw
    exact absurd h.1 (by simp [Run.parked, Run.released])
  | _ => simp [Call.write] at hw

variable {q q' : Queue}
inductive RowStep (c : Call J) (r : Result J) (id : String) :
    Option Run → Option Run → Prop where
  | kept (row : Option Run) : RowStep c r id row row
  | created {now nanoid name payload opts} (hc : c = .enqueue now nanoid name payload opts)
    (hid : id = opts.id.getD nanoid) :
    RowStep c r id none (some (Queue.newRun now nanoid name (J.toStr payload) opts))
  | claimed {now owner names leaseMs a p} (hc : c = .claim now owner names leaseMs)
    (hr : r = .ok (.claimed (some p))) (hp : p.id = id ∧ p.workerId = owner) :
    RowStep c r id (some a)
      (some (a.claimedBy owner (saturatingAdd now.ms (clampLeaseMs leaseMs))))
  | written {owner f a} (hc : c.caller = some (id, owner)) (hw : c.write = some f)
    (ho : a.OwnedBy owner) : RowStep c r id (some a) (some (f a))
  | parked {owner stepName eventName timeoutAtMs a}
    (hc : c = .waitForEvent id owner stepName eventName timeoutAtMs) (ho : a.OwnedBy owner) :
    RowStep c r id (some a) (some (a.parked (timeoutAtMs.getD i64Max)))
  | pruned {cutoffMs limit a} (hc : c = .pruneFinishedBefore cutoffMs limit)
    (ha : a.Prunable cutoffMs) : RowStep c r id (some a) none
  | reclaimed {now a} (hc : c = .reclaimExpired now ∨ c = .reclaimExpiredWithWorkers now)
    (ha : a.LeaseExpired now) : RowStep c r id (some a) (some a.released)
  | signalled {a} (runAt : ℤ) : RowStep c r id (some a) (some { a with runAt := runAt })

variable {r : Result J}
theorem RowStep.setRun {b : Run} (h : id = b.id → RowStep c r id (q.run id) (some b)) :
    RowStep c r id (q.run id) ((q.setRun b).run id) := by
  simp only [Queue.setRun]
  by_cases hid : id = b.id
  · have hb := h hid
    subst hid
    rw [Function.update_self]
    exact hb
  · rw [Function.update_of_ne hid]
    exact .kept _

theorem RowStep.reclaim {now : ClockMs}
    (hc : c = .reclaimExpired now ∨ c = .reclaimExpiredWithWorkers now) :
    RowStep c r id (q.run id) ((q.reclaim now).run id) := by
  simp only [Queue.reclaim]
  cases q.run id with
  | none => exact .kept none
  | some =>
    rw [Option.map_some]
    split
    · exact .reclaimed hc ‹_›
    · exact .kept _

/-- What a call can do to the row of one run. -/
theorem Step.row (hs : Step rejects q c r q') (hq : q.Inv) (id : String) :
    RowStep c r id (q.run id) (q'.run id) := by
  cases hs with
  | enqueueNew hn =>
    refine .setRun fun hid => ?_
    have hnone : q.run id = none := by
      rw [hid]
      exact hn
    rw [hnone]
    exact .created rfl hid
  | @claimNext now owner names leaseMs a a' hn hr =>
    subst hr
    refine RowStep.setRun (q := q) fun hid => ?_
    have hstored : q.run id = some a := by
      rw [hid]
      exact hn.stored
    rw [hstored]
    exact .claimed rfl rfl ⟨hid.symm, rfl⟩
  | @written c id' owner f a hc hw hr ho =>
    have hid' := (Call.write_wellFormed hw (hq.run_wellFormed id' a hr) ho).2
    refine .setRun fun hid => ?_
    obtain rfl : id = id' := hid.trans (hid'.trans (hq.run_id id' a hr))
    rw [hr]
    exact .written hc hw ho
  | @waiting id' owner stepName eventName timeoutAtMs a hr ho =>
    refine RowStep.setRun (q := q) fun hid => ?_
    obtain rfl : id = id' := hid.trans (hq.run_id id' a hr)
    rw [hr]
    exact .parked rfl ho
  | @pruned cutoffMs limit gone hg =>
    simp only [Queue.remove]
    split
    · obtain ⟨a, ha, hprunable⟩ := hg.prunable ‹_›
      rw [ha]
      exact .pruned rfl hprunable
    · exact .kept _
  | reclaimed => exact .reclaim (.inl rfl)
  | reclaimedFrom => exact .reclaim (.inr rfl)
  | signalled =>
    simp only [Queue.signal]
    cases q.run id with
    | none => exact .kept none
    | some =>
      rw [Option.map_some]
      split
      · exact .signalled _
      · exact .kept _
  | _ => exact .kept _

/-- A run gets its owner by a claim only. -/
theorem Step.owns_cases (hs : Step rejects q c r q') (hq : q.Inv) (h : q'.Owns id owner) :
    q.Owns id owner ∨ ∃ now names leaseMs p, c = .claim now owner names leaseMs ∧
      r = .ok (.claimed (some p)) ∧ p.id = id ∧ p.workerId = owner := by
  obtain ⟨b, hb, ho⟩ := h
  have hrow := hs.row hq id
  rw [hb] at hrow
  generalize ha : q.run id = a at hrow
  cases hrow with
  | kept => exact .inl ⟨b, ha, ho⟩
  | created => exact absurd ho.1 (by simp [Queue.newRun])
  | @claimed now owner' names leaseMs a p hc hr hp =>
    obtain rfl : owner' = owner := Option.some.inj ho.1
    exact .inr ⟨now, names, leaseMs, p, hc, hr, hp⟩
  | written _ hw => exact .inl ⟨_, ha, (Call.write_ownedBy hw ho).1⟩
  | parked => exact absurd ho.1 (by simp [Run.parked, Run.released])
  | reclaimed => exact absurd ho (Run.not_ownedBy_released _ owner)
  | signalled => exact .inl ⟨_, ha, ho⟩

theorem Step.fenced (hs : Step rejects q c r q') (hc : c.caller = some (id, owner))
    (hn : ¬q.Owns id owner) :
    q' = q ∧ (r = .error .staleWorker ∨ ∃ e, r = .error e ∧ rejects c e) := by
  cases hs with
  | rejected hr => exact ⟨rfl, .inr ⟨_, rfl, hr⟩⟩
  | stale => exact ⟨rfl, .inl rfl⟩
  | @written c id' owner' f s hc' hw hr ho =>
    rw [hc] at hc'
    cases hc'
    exact absurd ⟨s, hr, ho⟩ hn
  | saved ho =>
    cases hc
    exact absurd ho hn
  | @waiting id' owner' stepName eventName timeoutAtMs s hr ho =>
    cases hc
    exact absurd ⟨s, hr, ho⟩ hn
  | _ => exact absurd hc (by simp [Call.caller])

theorem Step.owns_of_ok {reply : Reply J} (hs : Step rejects q c (.ok reply) q')
    (hc : c.caller = some (id, owner)) : q.Owns id owner := by
  by_contra hn
  rcases (hs.fenced hc hn).2 with h | ⟨e, h, -⟩
  · cases h
  · cases h

end Tako.Workflow
