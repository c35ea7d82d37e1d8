import Tako.WorkflowInFlight

/-! Fencing of claims: once its claim has ended, an owner never comes to own anything again. -/
namespace Tako.Workflow
open List
variable {J : JsonCodec} {ι : Type} [DecidableEq ι]
namespace System
variable (sys : System ι)
def Admitted (s : ι) (owner : String) : Prop :=
  ∃ names leaseMs, (sys.server s).phase = .admitted owner names leaseMs

def Owns (id owner : String) : Prop := sys.store.abs.Owns id owner

theorem server_setServer (s : ι) (server : Server) (t : ι) :
    (sys.setServer s server).server t = if t = s then server else sys.server t := by
  by_cases h : t = s
  · subst h
    simp [setServer]
  · simp [setServer, h]

variable {sys : System ι} {owner : String}
theorem admitted_setServer_idle {s t : ι} {limiter : InFlightLimiter}
    (h : (sys.setServer s ⟨limiter, .idle⟩).Admitted t owner) : sys.Admitted t owner := by
  obtain ⟨names, leaseMs, hp⟩ := h
  rw [server_setServer] at hp
  split at hp
  · cases hp
  · exact ⟨names, leaseMs, hp⟩

variable {e : Event ι J}
theorem exec_admitted {t : ι} (h : (sys.exec e).2.Admitted t owner) :
    sys.Admitted t owner ∨ ∃ plan workerId nanoid names leaseMs,
      e = .beginClaim t plan workerId nanoid names leaseMs ∧
        owner = newClaimOwner workerId nanoid := by
  cases e with
  | beginClaim s plan workerId nanoid names leaseMs =>
    simp only [exec, beginClaim] at h
    split at h
    · obtain ⟨names', leaseMs', hp⟩ := h
      rw [server_setServer] at hp
      split at hp
      · rename_i ht
        subst ht
        dsimp only at hp
        split at hp
        · cases hp
          exact .inr ⟨plan, workerId, nanoid, names, leaseMs, rfl, rfl⟩
        · cases hp
      · exact .inl ⟨names', leaseMs', hp⟩
    · exact .inl h
  | commitClaim =>
    left
    simp only [exec, commitClaim] at h
    split at h
    · obtain ⟨names', leaseMs', hp⟩ := h
      simp only [server_setServer] at hp
      split at hp
      · split at hp <;> cases hp
      · exact ⟨names', leaseMs', hp⟩
    · exact h
  | recordClaim =>
    left
    simp only [exec, recordClaim] at h
    split at h
    · exact admitted_setServer_idle h
    · exact h
  | releaseClaim =>
    left
    simp only [exec, releaseClaim] at h
    split at h
    · exact admitted_setServer_idle h
    · exact h
  | restart => exact .inl (admitted_setServer_idle h)
  | store =>
    left
    simp only [exec] at h
    split at h
    · exact h
    · exact h

theorem exec_store (sys : System ι) (e : Event ι J) : (sys.exec e).2.store = sys.store ∨
    (∃ s plan now owner names leaseMs, e = .commitClaim s plan now ∧
      (sys.server s).phase = .admitted owner names leaseMs ∧
      (sys.exec e).2.store = (sys.store.call (J := J) plan (.claim now owner names leaseMs)).2) ∨
    ∃ se : StoreEvent J, e = .store se ∧ se.isClaim = false ∧
      (sys.exec e).2.store = (sys.store.exec se).2 := by
  cases e with
  | beginClaim =>
    left
    simp only [exec, beginClaim]
    split <;> rfl
  | commitClaim s plan now =>
    simp only [exec, commitClaim]
    split
    · rename_i owner names leaseMs hp
      exact .inr (.inl ⟨s, plan, now, owner, names, leaseMs, rfl, hp, rfl⟩)
    · exact .inl rfl
  | recordClaim =>
    left
    simp only [exec, recordClaim]
    split <;> rfl
  | releaseClaim =>
    left
    simp only [exec, releaseClaim]
    split <;> rfl
  | restart => exact .inl rfl
  | store se =>
    by_cases hc : se.isClaim = true
    · simp [exec, hc]
    · refine .inr (.inr ⟨se, rfl, by simpa using hc, ?_⟩)
      simp [exec, hc]

theorem exec_inv (h : sys.store.Inv) (e : Event ι J) : (sys.exec e).2.store.Inv := by
  rcases sys.exec_store e with hs | ⟨s, plan, now, owner, names, leaseMs, -, -, hs⟩ | ⟨se, -, -, hs⟩
  · rw [hs]
    exact h
  · rw [hs]
    exact RunsDb.exec_inv h (.call plan (.claim now owner names leaseMs))
  · rw [hs]
    exact RunsDb.exec_inv h se

variable {id owner : String}
theorem owns_of_store_exec {db : RunsDb} (h : db.Inv) {se : StoreEvent J} (hc : se.isClaim = false)
    (ho : (db.exec se).2.abs.Owns id owner) : db.abs.Owns id owner := by
  rcases RunsDb.exec_cases h se with ⟨plan, c, rfl, hs⟩ | habs
  · rcases hs.owns_cases h.abs ho with hown | ⟨now, names, leaseMs, -, rfl, -⟩
    · exact hown
    · simp [StoreEvent.isClaim] at hc
  · rw [habs] at ho
    exact ho

theorem exec_owns (h : sys.store.Inv) (ho : (sys.exec e).2.Owns id owner) :
    sys.Owns id owner ∨ ∃ s, sys.Admitted s owner ∧ ¬(sys.exec e).2.Admitted s owner ∧
      e.owner = none ∧ ∀ j, (sys.exec e).2.Owns j owner → sys.Owns j owner ∨ j = id := by
  rcases sys.exec_store e with hs | ⟨s, plan, now, o, names, leaseMs, rfl, hp, hs⟩ |
    ⟨se, rfl, hc, hs⟩
  · left
    rw [Owns, hs] at ho
    exact ho
  · have hstep := RunsDb.call_refines h plan (.claim now o names leaseMs : Call J)
    rw [Owns, hs] at ho
    rcases hstep.owns_cases h.abs ho with hown | ⟨_, _, _, p, hcall, hr, hid, -⟩
    · exact .inl hown
    · right
      cases hcall
      refine ⟨s, ⟨names, leaseMs, hp⟩, ?_, rfl, ?_⟩
      · rintro ⟨_, _, hp'⟩
        simp [exec, commitClaim, hp, hr, server_setServer] at hp'
      · intro j hj
        rw [Owns, hs] at hj
        rcases hstep.owns_cases h.abs hj with hown | ⟨_, _, _, p', -, hr', hid', -⟩
        · exact .inl hown
        · right
          rw [hr] at hr'
          cases hr'
          exact hid'.symm.trans hid
  · left
    rw [Owns, hs] at ho
    exact owns_of_store_exec h hc ho

/-- `begun` lists the owners generated so far. An owner is admitted at one
server, or owns one run, and nobody is both. -/
structure Fresh (begun : List String) (sys : System ι) : Prop where
  owned : ∀ id o, sys.Owns id o → o ∈ begun
  admitted : ∀ s o, sys.Admitted s o → o ∈ begun
  admitted_unique : ∀ s t o, sys.Admitted s o → sys.Admitted t o → s = t
  admitted_free : ∀ s id o, sys.Admitted s o → ¬sys.Owns id o
  owned_unique : ∀ i j o, sys.Owns i o → sys.Owns j o → i = j

structure IsNew (sys : System ι) : Prop where
  store : sys.store.IsNew
  idle : ∀ s, (sys.server s).phase = .idle

omit [DecidableEq ι] in
theorem IsNew.fresh (h : sys.IsNew) : sys.Fresh [] := by
  have hn (id o : String) : ¬sys.Owns id o := by
    rintro ⟨r, hr, -⟩
    rw [h.store.abs] at hr
    cases hr
  have ha (s : ι) (o : String) : ¬sys.Admitted s o := by
    rintro ⟨_, _, hp⟩
    rw [h.idle s] at hp
    cases hp
  exact ⟨fun id o ho => absurd ho (hn id o), fun s o hs => absurd hs (ha s o),
    fun s t o hs => absurd hs (ha s o), fun s id o hs => absurd hs (ha s o),
    fun i j o hi => absurd hi (hn i o)⟩

/-- A new claim brings an owner that nobody has had. -/
theorem Fresh.exec {begun : List String} (hf : sys.Fresh begun) (h : sys.store.Inv) (e : Event ι J)
    (hnew : ∀ o ∈ e.owner, o ∉ begun) : (sys.exec e).2.Fresh (begun ++ e.owner.toList) := by
  -- an owner generated by this event is neither admitted nor an owner before it
  have hgen {t : ι} {o : String} {plan workerId nanoid names leaseMs}
      (he : e = .beginClaim t plan workerId nanoid names leaseMs)
      (ho : o = newClaimOwner workerId nanoid) : e.owner = some o := by
    rw [he, ho]
    rfl
  refine ⟨?_, ?_, ?_, ?_, ?_⟩
  · intro id o ho
    apply mem_append_left
    rcases exec_owns h ho with hown | ⟨s, hs, -⟩
    · exact hf.owned id o hown
    · exact hf.admitted s o hs
  · intro s o hs
    rcases exec_admitted hs with hold | ⟨_, _, _, _, _, he, ho⟩
    · exact mem_append_left _ (hf.admitted s o hold)
    · exact mem_append_right _ (by rw [hgen he ho]; simp)
  · intro s t o hs ht
    rcases exec_admitted hs with hs' | ⟨_, _, _, _, _, he, ho⟩
    · rcases exec_admitted ht with ht' | ⟨_, _, _, _, _, he', ho'⟩
      · exact hf.admitted_unique s t o hs' ht'
      · exact absurd (hf.admitted s o hs') (hnew o (hgen he' ho'))
    · rcases exec_admitted ht with ht' | ⟨_, _, _, _, _, he', ho'⟩
      · exact absurd (hf.admitted t o ht') (hnew o (hgen he ho))
      · rw [he] at he'
        cases he'
        rfl
  · intro s id o hs ho
    rcases exec_owns h ho with hown | ⟨t, ht, hgone, hnone, -⟩
    · rcases exec_admitted hs with hs' | ⟨_, _, _, _, _, he, heq⟩
      · exact hf.admitted_free s id o hs' hown
      · exact hnew o (hgen he heq) (hf.owned id o hown)
    · rcases exec_admitted hs with hs' | ⟨_, _, _, _, _, he, heq⟩
      · apply hgone
        rw [hf.admitted_unique t s o ht hs']
        exact hs
      · rw [hgen he heq] at hnone
        cases hnone
  · intro i j o hi hj
    rcases exec_owns h hi with hi' | ⟨s, hs, -, -, hone⟩
    · rcases exec_owns h hj with hj' | ⟨s, hs, -⟩
      · exact hf.owned_unique i j o hi' hj'
      · exact absurd hi' (hf.admitted_free s i o hs)
    · rcases hone j hj with hj' | rfl
      · exact absurd hj' (hf.admitted_free s j o hs)
      · rfl

theorem Fresh.after {begun : List String} (hf : sys.Fresh begun) (h : sys.store.Inv)
    (events : List (Event ι J)) (hnd : (begun ++ events.filterMap Event.owner).Nodup) :
    (sys.after events).Fresh (begun ++ events.filterMap Event.owner) ∧
      (sys.after events).store.Inv := by
  induction events generalizing begun sys with
  | nil => simpa using ⟨hf, h⟩
  | cons e events ih =>
    have hsplit : begun ++ (e :: events).filterMap Event.owner =
        (begun ++ e.owner.toList) ++ events.filterMap Event.owner := by
      cases ho : e.owner <;> simp [ho]
    rw [hsplit] at hnd ⊢
    have hnew : ∀ o ∈ e.owner, o ∉ begun := by
      intro o ho hmem
      have hd := disjoint_of_nodup_append hnd.of_append_left
      exact hd hmem (by rw [Option.mem_def.mp ho]; simp)
    exact ih (hf.exec h e hnew) (exec_inv h e) hnd

structure Confined (owner : String) (ids : Set String) (sys : System ι) : Prop where
  not_admitted : ∀ s, ¬sys.Admitted s owner
  owned : ∀ id, sys.Owns id owner → id ∈ ids

theorem Confined.exec {ids : Set String} (hc : sys.Confined owner ids) (h : sys.store.Inv)
    (he : e.owner ≠ some owner) : (sys.exec e).2.Confined owner ids := by
  constructor
  · intro s hs
    rcases exec_admitted hs with hold | ⟨_, _, _, _, _, rfl, rfl⟩
    · exact hc.not_admitted s hold
    · exact he rfl
  · intro id ho
    rcases exec_owns h ho with hown | ⟨s, hs, -⟩
    · exact hc.owned id hown
    · exact absurd hs (hc.not_admitted s)

theorem Confined.after {ids : Set String} (hc : sys.Confined owner ids) (h : sys.store.Inv)
    (events : List (Event ι J)) (he : owner ∉ events.filterMap Event.owner) :
    (sys.after events).Confined owner ids := by
  have hboth : (sys.after events).store.Inv ∧ (sys.after events).Confined owner ids := by
    apply Execution.after_induction (P := fun t : System ι => t.store.Inv ∧ t.Confined owner ids)
    · exact ⟨h, hc⟩
    · intro e hm t ht
      refine ⟨exec_inv ht.1 e, ht.2.exec ht.1 ?_⟩
      intro ho
      exact he (mem_filterMap.mpr ⟨e, hm, ho⟩)
  exact hboth.2

theorem confined_of_ended (hnew : sys.IsNew) {held ended : List (Event ι J)}
    {later : List (Event ι J)} (hnd : ((held ++ ended ++ later).filterMap Event.owner).Nodup)
    (hheld : (sys.after held).Owns id owner) (hended : ¬(sys.after (held ++ ended)).Owns id owner) :
    (sys.after (held ++ ended ++ later)).Confined owner ∅ := by
  rw [filterMap_append, filterMap_append] at hnd
  have hndh := hnd.of_append_left.of_append_left
  obtain ⟨hf, hinv⟩ := hnew.fresh.after hnew.store.inv held (by simpa using hndh)
  have hmem : owner ∈ held.filterMap Event.owner := by simpa using hf.owned id owner hheld
  have hdisj {l : List (Event ι J)} (hl : (held.filterMap Event.owner ++
      l.filterMap Event.owner).Nodup) : owner ∉ l.filterMap Event.owner :=
    disjoint_of_nodup_append hl hmem
  -- from the claim on, the owner can only own the run that it claimed
  have hone : (sys.after held).Confined owner {id} :=
    ⟨fun s hs => hf.admitted_free s id owner hs hheld,
      fun j hj => hf.owned_unique j id owner hj hheld⟩
  have hsplit₁ : sys.after (held ++ ended) = (sys.after held).after ended :=
    Execution.after_append _ _ _ _
  have hsplit₂ : sys.after (held ++ ended ++ later) = (sys.after (held ++ ended)).after later :=
    Execution.after_append _ _ _ _
  have hmid := hone.after hinv ended (hdisj hnd.of_append_left)
  rw [← hsplit₁] at hmid
  -- that run is gone too, so nothing is left
  have hnone : (sys.after (held ++ ended)).Confined owner ∅ := by
    refine ⟨hmid.not_admitted, fun j hj => ?_⟩
    have hj' : j = id := hmid.owned j hj
    rw [hj'] at hj
    exact absurd hj hended
  have hinv' : (sys.after (held ++ ended)).store.Inv := by
    rw [hsplit₁]
    exact Execution.after_induction (P := fun t : System ι => t.store.Inv) _ _ _ hinv
      fun e _ t ht => exec_inv ht e
  have hlast : (held.filterMap Event.owner ++ later.filterMap Event.owner).Nodup := by
    rw [append_assoc] at hnd
    exact hnd.sublist (List.Sublist.append (List.Sublist.refl _) (sublist_append_right _ _))
  rw [hsplit₂]
  exact hnone.after hinv' later (hdisj hlast)
end System

/-- The call fails and changes no row. It reports a stale worker, or what is
wrong with its arguments. -/
def Fenced (db : RunsDb) (plan : Planner) (c : Call J) : Prop :=
  (db.call plan c).2.abs = db.abs ∧
    ((db.call plan c).1 = .error .staleWorker ∨
      ∃ e, (db.call plan c).1 = .error e ∧ db.rejects c e)

/-- Claims through any number of limiters are fenced: whatever happened since a
claim has ended, its owner's calls fail, and at any moment only one owner's calls
on a run succeed. -/
theorem ended_claims_fenced {sys : System ι} (hnew : sys.IsNew) (events : List (Event ι J))
    (hnd : (events.filterMap Event.owner).Nodup) :
    (∀ held ended later id owner, events = held ++ ended ++ later →
      (sys.after held).Owns id owner → ¬(sys.after (held ++ ended)).Owns id owner →
      ∀ plan (c : Call J) id', c.caller = some (id', owner) →
        Fenced (sys.after events).store plan c) ∧
    ∀ plan₁ plan₂ (c₁ c₂ : Call J) id o₁ o₂ reply₁ reply₂,
      c₁.caller = some (id, o₁) → c₂.caller = some (id, o₂) →
      ((sys.after events).store.call plan₁ c₁).1 = .ok reply₁ →
      ((sys.after events).store.call plan₂ c₂).1 = .ok reply₂ → o₁ = o₂ := by
  have hinv : (sys.after events).store.Inv :=
    (hnew.fresh.after hnew.store.inv events (by simpa using hnd)).2
  constructor
  · intro _ _ _ id _ hev hheld hended plan c id' hc
    subst hev
    have hconf := System.confined_of_ended hnew hnd hheld hended
    exact (RunsDb.call_refines hinv plan c).fenced hc (hconf.owned id')
  · intro plan₁ plan₂ c₁ c₂ _ _ _ _ _ hc₁ hc₂ h₁ h₂
    have hs₁ := RunsDb.call_refines hinv plan₁ c₁
    have hs₂ := RunsDb.call_refines hinv plan₂ c₂
    rw [h₁] at hs₁
    rw [h₂] at hs₂
    exact (hs₁.owns_of_ok hc₁).unique (hs₂.owns_of_ok hc₂)

def oneServer : System Unit := ⟨.sqlite .empty, fun _ => ⟨.new 1, .idle⟩⟩

def claimOnce : List (Event Unit JsonCodec.literals) :=
  [.store (.call .stored (.enqueue .epoch "run" "work" JsonLiteral.null ⟨none, none, none⟩)),
    .beginClaim () .stored "worker" ⟨"abc", by simp⟩ ["work"] 1000,
    .commitClaim () .stored .epoch,
    .recordClaim ()]

def completeOnce : List (Event Unit JsonCodec.literals) :=
  [.store (.call .stored (.complete .epoch "run" "worker:abc"))]

theorem claimOnce_owns : (oneServer.after claimOnce).Owns "run" "worker:abc" :=
  ⟨_, rfl, by decide⟩

theorem completeOnce_ends :
    ¬(oneServer.after (claimOnce ++ completeOnce)).Owns "run" "worker:abc" := by
  rintro ⟨r, hr, ho⟩
  cases hr
  exact absurd ho (by decide)

theorem completed_claim_fenced :
    Fenced (oneServer.after (claimOnce ++ completeOnce)).store .stored
      (.complete .epoch "run" "worker:abc" : Call JsonCodec.literals) :=
  (ended_claims_fenced ⟨.sqlite, fun _ => rfl⟩ (claimOnce ++ completeOnce) (by decide)).1
    claimOnce completeOnce [] "run" "worker:abc" rfl claimOnce_owns completeOnce_ends _ _ "run" rfl

/-- A `fail` that names no time for the retry is not even compared with the
owner. -/
theorem ended_claim_fail_not_stale :
    (oneServer.after claimOnce).Owns "run" "worker:abc" ∧
      ¬(oneServer.after (claimOnce ++ completeOnce)).Owns "run" "worker:abc" ∧
      ((oneServer.after (claimOnce ++ completeOnce)).store.call (J := JsonCodec.literals) .stored
        (.fail .epoch "run" "worker:abc" "boom" none false)).1 =
        .error (.storage "fail(finalize=false) requires next_run_at_ms") :=
  ⟨claimOnce_owns, completeOnce_ends, rfl⟩

end Tako.Workflow
