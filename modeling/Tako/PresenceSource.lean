import Tako.PresenceReceiving

/-! What an operation of a server does to its own members, and what it tells a peer
of it. -/
namespace Tako.Presence
open Relational Fallible Replication List
open Tako.Network (DeviceId AppEnv)
open Tako.Workflow (i64Max i64Min saturatingAdd)
variable {J : PresenceJson}
section
variable {e : Ends} {b : Broker J} {env : Surroundings J} {o peer : DeviceId} {now : ℕ}
def Idle (o : DeviceId) (now : ℕ) (L L' : Leases J) : Prop :=
  Keeps o now L L' ∧ L'.sequence = L.sequence

theorem closed_idle (o : DeviceId) (now : ℕ) : Closed (Idle (J := J) o now) o now where
  refl _ := ⟨keeps_of_members rfl, rfl⟩
  trans _ _ _ h h' := ⟨h.1.trans h'.1, h'.2.trans h.2⟩
  expire L := ⟨keeps_expire L, rfl⟩
  clear L := ⟨keeps_clearRemote L, rfl⟩

theorem tolerates_idle (hpeer : peer ≠ o) : Tolerates (Idle (J := J) o now) peer where
  update _ l hl := ⟨keeps_update (hl ▸ hpeer), rfl⟩
  leave _ channel id := ⟨keeps_leave hpeer channel id, rfl⟩
  received _ _ := ⟨keeps_of_members rfl, rfl⟩
  replace L L' _ _ _ _ _ hok := by
    refine ⟨keeps_replaceRemote hpeer hok, ?_⟩
    obtain ⟨_, rfl⟩ | ⟨_, _, _, _, rfl⟩ := Leases.replaceRemote_cases hok <;> rfl

theorem carried_append (e : Ends) (sent sent' : List (DeviceId × Frame J)) :
    e.carried (sent ++ sent') = e.carried sent ++ e.carried sent' := filterMap_append

theorem carried_map {peers : List DeviceId} (hnodup : peers.Nodup) (app : AppEnv)
    (publication : Publication J) : e.carried (peers.map (·, Frame.presence app publication)) =
      if e.peer ∈ peers ∧ app = e.app then [publication] else [] := by
  induction peers with
  | nil => simp [Ends.carried]
  | cons peer peers ih =>
    obtain ⟨hnew, hnodup⟩ := nodup_cons.mp hnodup
    have hhead : e.carried ((peer :: peers).map (·, Frame.presence app publication)) =
        e.carried [(peer, Frame.presence app publication)] ++
          e.carried (peers.map (·, Frame.presence app publication)) := carried_append e [_] _
    rw [hhead, ih hnodup]
    by_cases hpeer : peer = e.peer
    · subst hpeer
      by_cases happ : app = e.app <;> simp [Ends.carried, happ, hnew]
    · have hpeer' : ¬e.peer = peer := fun h => hpeer h.symm
      by_cases happ : app = e.app <;> simp [Ends.carried, happ, hpeer, hpeer']

theorem carried_gaps {sent : List (DeviceId × Frame J)} (h : ∀ s ∈ sent, ∃ app, s.2 = .gap app) :
    e.carried sent = [] := by
  apply filterMap_eq_nil_iff.mpr
  intro s hs
  obtain ⟨_, happ⟩ := h s hs
  simp only [happ]

theorem sent_fanout (b : Broker J) (env : Surroundings J) (frame : Frame J) :
    (b.fanout env frame).2.sent =
      if env.encodes frame = false then [] else (b.peers.filter env.reaches).map (·, frame) := by
  unfold Broker.fanout
  split <;> rfl

theorem sent_fenceApps (env : Surroundings J) (apps : List AppEnv) (b : Broker J) :
    ∀ s ∈ (Broker.fenceApps env apps b).sent, ∃ app, s.2 = .gap app := by
  induction apps generalizing b with
  | nil =>
    intro s hs
    cases hs
  | cons app _ ih =>
    unfold Broker.fenceApps
    cases hresult : (b.fenceApp env app).result with
    | error =>
      simp only [hresult]
      intro s hs
      cases hs
    | ok =>
      simp only [hresult]
      intro s hs
      obtain hs | hs := mem_append.mp hs
      · rw [sent_fanout] at hs
        split at hs
        · cases hs
        · obtain ⟨_, _, rfl⟩ := mem_map.mp hs
          exact ⟨app, rfl⟩
      · exact ih _ s hs

theorem carried_announce (env : Surroundings J) (hnodup : b.peers.Nodup) (app : AppEnv)
    (publication : Publication J) :
    e.carried (b.announce env (.presence app publication)).sent =
      if env.encodes (.presence app publication) = true ∧ e.peer ∈ b.peers ∧
        env.reaches e.peer = true ∧ app = e.app then [publication] else [] := by
  have htold : e.carried (b.fanout env (.presence app publication)).2.sent =
      if env.encodes (.presence app publication) = true ∧ e.peer ∈ b.peers ∧
        env.reaches e.peer = true ∧ app = e.app then [publication] else [] := by
    rw [sent_fanout]
    by_cases hencodes : env.encodes (.presence app publication) = false
    · simp [hencodes, Ends.carried]
    · rw [if_neg hencodes, carried_map (hnodup.filter _)]
      simp [hencodes, and_assoc]
  unfold Broker.announce
  simp only
  split
  · exact htold
  · -- the rest of what is sent tells of gaps
    have hgaps := sent_fenceApps env
      ((b.fanout env (.presence app publication)).2.broker.apps.rows.map
      Application.app) (b.fanout env (.presence app publication)).2.broker
    refine (carried_append e _ _).trans ?_
    rw [htold]
    refine (congrArg _ (carried_gaps hgaps)).trans ?_
    rw [append_nil]

/-- A change that the source makes to its own members, and how it numbers and tells
it. -/
inductive Changes (e : Ends) (env : Surroundings J) (L : Leases J) :
    Leases J → (ℕ → Publication J) → Prop
  | update {l : Lease J} (hvalid : l.Valid) (horigin : l.origin = e.origin)
      (hexpires : l.expires = env.now + leaseMs)
      (hstamp : l.expiresAtMs = saturatingAdd env.nowMs leaseMs) :
      Changes e env L (L.update l) (.update l.channel l.member l.expiresAtMs)
  | leave {channel id : String} (hchannel : validateChannel channel = .ok ())
      (hid : validateOwnedId e.origin id = .ok ()) :
      Changes e env L (L.leave e.origin channel id) (.leave channel id)

/-- What an operation of the source does to its own members, and what it says of
it. Only if nothing is lost is a change numbered and sent. -/
inductive Acts (e : Ends) (env : Surroundings J) (lossless : Prop) (L L' : Leases J) :
    List (Publication J) → Prop
  | quiet {q : List (Publication J)} (h : Idle e.origin env.now L L') (hq : ∀ p ∈ q, p = .sync) :
      Acts e env lossless L L' q
  | answer (h : Idle e.origin env.now L L') :
      Acts e env lossless L L' [.snapshot L'.sequence (L'.records e.origin)]
  | change {L₁ L₂ : Leases J} {publication : ℕ → Publication J} {n : ℕ}
      {q : List (Publication J)} (h : Idle e.origin env.now L L₁)
      (hchange : Changes e env L₁ L₂ publication)
      (h' : Idle e.origin env.now { L₂ with sequence := n } L')
      (hq : q = [] ∨ q = [publication n])
      (hlossless : lossless → n = L₁.sequence + 1 ∧ q ≠ []) : Acts e env lossless L L' q

variable {publication : ℕ → Publication J} {L L' : Leases J}
theorem Changes.sequence (h : Changes e env L L' publication) :
    L'.sequence = L.sequence := by
  cases h <;> rfl

variable {lossless : Prop}
theorem Acts.silent {q : List (Publication J)} (h : Idle e.origin env.now L L') (hq : q = []) :
    Acts e env lossless L L' q :=
  .quiet h fun _ hp => absurd (hq ▸ hp) not_mem_nil

theorem acts_commit {a : Application J} {changed : Leases J} {failure : String}
    (hhere : b.here = e.origin) (hnodup : b.peers.Nodup) (ha : b.apps.get? e.app = some a)
    (hbefore : Idle e.origin env.now L a.presence)
    (hchange : Changes e env a.presence changed publication)
    (hbackend : lossless → b.backend e.app = some none) (hpeer : lossless → e.peer ∈ b.peers)
    (hreaches : lossless → env.reaches e.peer = true)
    (hencodes : lossless → ∀ n, env.encodes (.presence e.app (publication n)) = true)
    (hnumbers : lossless → (b.commit env e.app a failure changed publication).result ≠
      .error (error "presence sequence exhausted")) : Acts e env lossless L
      ((b.commit env e.app a failure changed publication).broker.leasesOf e.app)
      (e.carried (b.commit env e.app a failure changed publication).sent) := by
  have hidle := closed_idle (J := J) e.origin env.now
  have hchanged : Idle e.origin env.now { changed with sequence := changed.sequence }
      ((b.modify e.app fun _ => changed).leasesOf e.app) := by
    rw [leasesOf_put ha]
    exact hidle.refl changed
  unfold Broker.commit at hnumbers ⊢
  by_cases hpg : a.postgresUrl.isSome = true
  · have hlost : ¬lossless := by
      intro h
      have hurl := hbackend h
      rw [Broker.backend, ha] at hurl
      rw [Option.some.inj hurl] at hpg
      cases hpg
    simp only [if_pos hpg]
    by_cases hstores : env.stores = true
    · rw [if_pos hstores]
      exact .change hbefore hchange hchanged (.inl rfl) fun h => absurd h hlost
    · rw [if_neg hstores]
      refine .silent ?_ rfl
      show Idle e.origin env.now L (b.leasesOf e.app)
      rw [leasesOf_of_get? ha]
      exact hbefore
  · simp only [if_neg hpg] at hnumbers ⊢
    cases hnext : changed.nextSequence with
    | error e' =>
      have hexhausted : e' = error "presence sequence exhausted" := by
        unfold Leases.nextSequence at hnext
        split at hnext
        · cases hnext
        · exact (Except.error.inj hnext).symm
      refine .change hbefore hchange hchanged (.inl rfl) fun h => ?_
      simp only [hnext, hexhausted] at hnumbers
      exact absurd rfl (hnumbers h)
    | ok =>
      obtain rfl := Broker.nextSequence_eq_ok hnext
      have haffects : Affects (Idle e.origin env.now) .expire e.app
          (b.modify e.app fun _ => { changed with sequence := changed.sequence + 1 }) _ :=
        affects_moves hidle nofun nofun hhere (Broker.moves_announce _
          (.presence e.app (publication (changed.sequence + 1))))
      have hleases := haffects.leases
      rw [leasesOf_put ha] at hleases
      have hsent := carried_announce (e := e)
        (b := b.modify e.app fun _ => { changed with sequence := changed.sequence + 1 }) env hnodup
        e.app (publication (changed.sequence + 1))
      refine .change hbefore hchange hleases ?_ fun h => ⟨by rw [hchange.sequence], ?_⟩
      · rw [hsent]
        split
        · exact .inr rfl
        · exact .inl rfl
      · rw [hsent, if_pos ⟨hencodes h _, hpeer h, hreaches h, rfl⟩]
        exact cons_ne_nil _ _

theorem validateOwnedId_qualified {origin : DeviceId} {raw id : String}
    (h : localId origin raw = .ok id) : validateOwnedId origin id = .ok () := by
  obtain ⟨_, hraw, h⟩ := bind_eq_ok h
  have hid : id = qualified origin raw := (Except.ok.inj h).symm
  have hstrip : stripOrigin origin id = some raw := by
    unfold stripOrigin
    simp only [hid, qualified, String.toList_ofList]
    rw [if_pos (prefix_append _ _), drop_left, String.ofList_toList]
  unfold validateOwnedId
  rw [hstrip]
  exact hraw

theorem sent_presence (b : Broker J) (env : Surroundings J) (app : AppEnv) (channel : String) :
    ∀ s ∈ (b.presence env app channel).sent, s.2 = .presence app .sync := by
  unfold Broker.presence
  intro s hs
  split at hs
  · cases hs
  simp only at hs
  split at hs
  · cases hs
  split at hs
  · split at hs <;> cases hs
  · obtain ⟨_, _, rfl⟩ := mem_map.mp hs
    rfl

theorem carried_presence (b : Broker J) (env : Surroundings J) (app : AppEnv) (channel : String) :
    ∀ p ∈ e.carried (b.presence env app channel).sent, p = .sync := by
  intro p hp
  obtain ⟨s, hs, hsp⟩ := mem_filterMap.mp hp
  have hframe := sent_presence b env app channel s hs
  simp only [hframe] at hsp
  split at hsp
  · exact (Option.some.inj hsp).symm
  · cases hsp

theorem sent_remotePresence (b : Broker J) (env : Surroundings J) (peer : DeviceId) (app : AppEnv)
    (publication : Publication J) : (b.remotePresence env peer app publication).sent = [] ∨
    (b.remotePresence env peer app publication).sent = [(peer, .presence app (.snapshot
        ((b.remotePresence env peer app publication).broker.leasesOf app).sequence
        (((b.remotePresence env peer app publication).broker.leasesOf app).records b.here)))] := by
  obtain heq | ⟨a, L, _, _, heq⟩ := Broker.remotePresence_cases b env app peer publication
  · rw [heq]
    unfold Broker.remotePresence
    simp only
    cases ha : (b.modify app (·.expire env.now)).apps.get? app with
    | none => exact .inl rfl
    | some a =>
      rw [leasesOf_of_get? ha]
      -- only a request for a snapshot is answered
      cases publication <;> simp only
      all_goals repeat' split
      all_goals first | exact .inl rfl | exact .inr rfl
  · rw [heq]
    exact .inl rfl

theorem carried_commit_other {app : AppEnv} (happ : app ≠ e.app) (hnodup : b.peers.Nodup)
    (a : Application J) (failure : String) (L : Leases J) (publication : ℕ → Publication J) :
    e.carried (b.commit env app a failure L publication).sent = [] := by
  unfold Broker.commit
  split
  · split <;> rfl
  · split
    · rfl
    · rename_i numbered _
      have hsent := carried_announce (e := e) (b := b.modify app fun _ => numbered) env hnodup
        app (publication numbered.sequence)
      rw [hsent, if_neg]
      exact fun h => happ h.2.2.2

section
variable {operation : Broker.Operation J} (hhere : b.here = e.origin) (hnodup : b.peers.Nodup)
  (hlossless : lossless → Lossless e b operation env)
  (hbackend : lossless → b.backend e.app = some none)

include hhere hnodup hlossless hbackend
theorem acts_update {channel : String} {member : PresenceMember J}
    (hoperation : operation = .update e.app channel member) : Acts e env lossless (b.leasesOf e.app)
      ((Broker.exec (operation, env) b).broker.leasesOf e.app)
      (e.carried (Broker.exec (operation, env) b).sent) := by
  subst hoperation
  have hidle := closed_idle (J := J) e.origin env.now
  have hexpired : Affects (Idle e.origin env.now) .expire e.app b
      (b.modify e.app (·.expire env.now)) := affects_expireApp hidle
  have hnumbers (h : lossless) := (hlossless h).numbers
  simp only [Broker.exec] at hnumbers ⊢
  obtain ⟨_, heq⟩ | ⟨member', _, bytes, _, ha, hcheck, heq⟩ :=
    Broker.updatePresence_cases b env e.app channel member
  · rw [heq]
    exact .silent hexpired.leases rfl
  · rw [heq] at hnumbers ⊢
    have hleases := hexpired.leases
    rw [leasesOf_of_get? ha] at hleases
    have hvalid := (Leases.check_eq_ok hcheck (b.localLease env channel member' bytes).expires
      (b.localLease env channel member' bytes).expiresAtMs).valid
    exact acts_commit (b := b.modify e.app (·.expire env.now)) hhere hnodup ha hleases
      (.update hvalid hhere rfl rfl) (fun h => (hexpired.backend nofun).trans (hbackend h))
      (fun h => (hlossless h).attached) (fun h => (hlossless h).reaches)
      (fun h n => (hlossless h).encodes _ rfl) hnumbers

theorem acts_remove {channel connectionId : String}
    (hoperation : operation = .remove e.app channel connectionId) :
    Acts e env lossless (b.leasesOf e.app) ((Broker.exec (operation, env) b).broker.leasesOf e.app)
      (e.carried (Broker.exec (operation, env) b).sent) := by
  subst hoperation
  have hidle := closed_idle (J := J) e.origin env.now
  have hnumbers (h : lossless) := (hlossless h).numbers
  simp only [Broker.exec] at hnumbers ⊢
  obtain ⟨_, heq⟩ | ⟨_, _, hchannel, hid, ha, heq⟩ :=
    Broker.removePresence_cases b env e.app channel connectionId
  · rw [heq]
    exact .silent (hidle.refl _) rfl
  · rw [heq] at hnumbers ⊢
    rw [hhere] at hid hnumbers ⊢
    rw [leasesOf_of_get? ha]
    exact acts_commit hhere hnodup ha (hidle.refl _)
      (.leave hchannel (validateOwnedId_qualified hid)) hbackend
      (fun h => (hlossless h).attached) (fun h => (hlossless h).reaches)
      (fun h n => (hlossless h).encodes _ rfl) hnumbers

/-- What the source does is what its publications say. -/
theorem acts_exec (hself : ∀ app publication, operation ≠ .remote e.origin app publication) :
    Acts e env lossless (b.leasesOf e.app) ((Broker.exec (operation, env) b).broker.leasesOf e.app)
      (e.carried (Broker.exec (operation, env) b).sent) := by
  have hidle := closed_idle (J := J) e.origin env.now
  -- whatever does not change the members of the source on purpose
  have hrelated (hlocal : ¬operation.Changes e.app) : Idle e.origin env.now (b.leasesOf e.app)
      ((Broker.exec (operation, env) b).broker.leasesOf e.app) := by
    refine (affects_exec hidle (fun h => absurd h hlocal) ?_ hhere).leases
    intro peer publication hremote
    apply tolerates_idle
    rintro rfl
    exact hself e.app publication hremote
  cases operation with
  | register app url =>
    refine .silent (hrelated id) ?_
    show e.carried (b.register env app url).sent = []
    unfold Broker.register
    simp only
    repeat' split
    all_goals rfl
  | attach | detach | expire => exact .silent (hrelated id) rfl
  | update app channel member =>
    by_cases happ : app = e.app
    · subst happ
      exact acts_update hhere hnodup hlossless hbackend rfl
    · refine .silent (hrelated happ) ?_
      show e.carried (b.updatePresence env app channel member).sent = []
      obtain ⟨e', heq⟩ | ⟨_, a, _, _, ha, _, heq⟩ :=
        Broker.updatePresence_cases b env app channel member
      · rw [heq]
        rfl
      · rw [heq]
        exact carried_commit_other (b := b.modify app (·.expire env.now)) happ hnodup _ _ _ _
  | remove app channel connectionId =>
    by_cases happ : app = e.app
    · subst happ
      exact acts_remove hhere hnodup hlossless hbackend rfl
    · refine .silent (hrelated happ) ?_
      show e.carried (b.removePresence env app channel connectionId).sent = []
      obtain ⟨_, heq⟩ | ⟨id, _, _, _, _, heq⟩ :=
        Broker.removePresence_cases b env app channel connectionId
      · rw [heq]
        rfl
      · rw [heq]
        exact carried_commit_other happ hnodup _ _ _ _
  | presence app channel => exact .quiet (hrelated id) (carried_presence b env app channel)
  | remote peer app publication =>
    have hkept := hrelated id
    obtain hsent | hsent := sent_remotePresence b env peer app publication
    · exact .silent hkept (congrArg e.carried hsent)
    · by_cases hconnection : peer = e.peer ∧ app = e.app
      · obtain ⟨rfl, rfl⟩ := hconnection
        have hcarried : e.carried (b.remotePresence env e.peer e.app publication).sent =
            [.snapshot
              ((b.remotePresence env e.peer e.app publication).broker.leasesOf e.app).sequence
              (((b.remotePresence env e.peer e.app publication).broker.leasesOf e.app).records
                e.origin)] := by
          rw [hsent, hhere]
          simp [Ends.carried]
        have hanswer : Acts e env lossless _ _ _ := .answer hkept
        exact hcarried ▸ hanswer
      · refine .silent hkept ((congrArg e.carried hsent).trans ?_)
        simp [Ends.carried, hconnection]
  | fence => exact .silent (hrelated id) (carried_gaps (sent_fenceApps env _ b))
  | fenceApp app =>
    refine .silent (hrelated id) ?_
    show e.carried (b.fenceApp env app).sent = []
    unfold Broker.fenceApp
    repeat' split
    all_goals rfl
end
end
end Tako.Presence
