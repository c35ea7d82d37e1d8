import Mathlib.Algebra.Order.BigOperators.Group.List
import Tako.PresenceBroker
import Tako.PresenceTotals

/-! No sequence of operations takes an application or the broker over its budget. -/
namespace Tako.Presence
open Relational Fallible List
open Tako.Network (DeviceId AppEnv)
variable {J : PresenceJson} {b b' : Broker J} {env : Surroundings J} {app : AppEnv} {L : Leases J}
  {a : Application J} {operation : Broker.Operation J}
namespace Broker
def total (b : Broker J) : ℤ := (b.apps.rows.map fun a => a.presence.bytes).sum

structure Sound (b : Broker J) : Prop where
  leases : ∀ a ∈ b.apps.rows, a.presence.Sound
  within : b.total ≤ maxTotalBytes

theorem sound_new (here : DeviceId) : (new here : Broker J).Sound :=
  ⟨(fun _ ha => nomatch ha), (by decide : (0 : ℤ) ≤ 8388608)⟩

def others (b : Broker J) (app : AppEnv) : ℤ :=
  ((b.apps.rows.filter (fun a => a.app ≠ app)).map fun a => a.presence.bytes).sum

theorem total_eq (b : Broker J) (app : AppEnv) : b.total = b.others app +
      ((b.apps.get? app).map fun a => a.presence.bytes).getD 0 := by
  have hsplit := congrArg Prod.snd (tally_deleteWhere (fun a : Application J => a.presence.bytes)
    b.apps (fun a => a.app = app))
  rw [filter_key] at hsplit
  have htotal : b.total = (tally (fun a : Application J => a.presence.bytes) b.apps.rows).2 := rfl
  rw [htotal, ← hsplit]
  cases b.apps.get? app with
  | none => rfl
  | some a => exact congrArg (b.others app + ·) (congrArg Prod.snd (tally_singleton _ a))

theorem filter_updateWhere (t : Table (Application.app (J := J)))
    (f : Application J → Application J) (hf : ∀ a, (f a).app = a.app) :
    (t.updateWhere (fun a => a.app = app) f hf).rows.filter (fun a => a.app ≠ app) =
      t.rows.filter (fun a => a.app ≠ app) := by
  have hrows : (t.updateWhere (fun a => a.app = app) f hf).rows =
      t.rows.map (fun a => if a.app = app then f a else a) := rfl
  rw [hrows]
  induction t.rows with
  | nil => rfl
  | cons a _ ih =>
    rw [map_cons]
    by_cases ha : a.app = app
    · rw [if_pos ha, filter_cons_of_neg (by simp [hf, ha]), filter_cons_of_neg (by simp [ha])]
      exact ih
    · rw [if_neg ha, filter_cons_of_pos (by simp [ha]), filter_cons_of_pos (by simp [ha]), ih]

theorem Sound.updateApp (h : b.Sound) (f : Application J → Application J)
    (hf : ∀ a, (f a).app = a.app) (happs : b'.apps = b.apps.updateWhere (fun a => a.app = app) f hf)
    (hchange : ∀ a, b.apps.get? app = some a → (f a).presence.Sound ∧
      (f a).presence.bytes ≤ max (b.presenceAllowance app) a.presence.bytes) : b'.Sound := by
  have hget : b'.apps.get? app = (b.apps.get? app).map f := by
    rw [happs, Table.get?_updateWhere_key, if_pos rfl]
  have hothers : b'.others app = b.others app := by
    unfold others
    rw [happs]
    congr 2
    exact filter_updateWhere b.apps f hf
  refine ⟨?_, ?_⟩
  · rw [happs]
    intro a ha
    obtain ⟨x, hx, rfl⟩ := mem_map.mp ha
    by_cases happ : x.app = app
    · rw [if_pos happ]
      exact (hchange x (b.apps.get?_eq_some.mpr ⟨hx, happ⟩)).1
    · rw [if_neg happ]
      exact h.leases x hx
  · have hwithin := h.within
    rw [b.total_eq app] at hwithin
    rw [b'.total_eq app, hothers, hget]
    cases ha : b.apps.get? app with
    | none =>
      rw [ha] at hwithin
      exact hwithin
    | some a =>
      rw [ha] at hwithin
      have hwithin : b.others app + a.presence.bytes ≤ maxTotalBytes := hwithin
      have hle := (hchange a ha).2
      have hnonneg := (h.leases a (b.apps.get?_eq_some.mp ha).1).nonneg
      have hallowance : b.presenceAllowance app = max (maxTotalBytes - b.others app) 0 := rfl
      show b.others app + (f a).presence.bytes ≤ maxTotalBytes
      rw [hallowance] at hle
      omega

theorem Sound.modify (h : b.Sound) {f : Leases J → Leases J}
    (hchange : ∀ a, b.apps.get? app = some a → (f a.presence).Sound ∧
      (f a.presence).bytes ≤ max (b.presenceAllowance app) a.presence.bytes) :
    (b.modify app f).Sound :=
  h.updateApp (fun a => { a with presence := f a.presence }) (fun _ => rfl) rfl hchange

section
variable (h : b.Sound)
include h
theorem Sound.presence_of_get? (ha : b.apps.get? app = some a) : a.presence.Sound :=
  h.leases a (b.apps.get?_eq_some.mp ha).1

theorem Sound.expireApp (app : AppEnv) (now : ℕ) : (b.modify app (·.expire now)).Sound := by
  apply h.modify
  intro a ha
  obtain ⟨hsound, hle⟩ := (h.presence_of_get? ha).expire now
  exact ⟨hsound, hle.trans (le_max_right _ _)⟩

theorem Sound.expirePresence (now : ℕ) : (b.expirePresence now).Sound := by
  have hrows : (b.expirePresence now).apps.rows =
      b.apps.rows.map (fun a => { a with presence := a.presence.expire now }) := by
    apply map_congr_left
    intro a _
    exact if_pos trivial
  refine ⟨?_, ?_⟩
  · rw [hrows]
    intro a ha
    obtain ⟨x, hx, rfl⟩ := mem_map.mp ha
    exact ((h.leases x hx).expire now).1
  · have hle : (b.expirePresence now).total ≤ b.total := by
      unfold total
      rw [hrows, map_map]
      apply sum_le_sum
      intro a ha
      exact ((h.leases a ha).expire now).2
    exact hle.trans h.within

theorem Sound.put (ha : b.apps.get? app = some a) (hsound : L.Sound)
    (hle : L.bytes ≤ max (b.presenceAllowance app) a.presence.bytes) :
    (b.modify app fun _ => L).Sound := by
  apply h.modify
  intro _ ha'
  rw [ha] at ha'
  cases ha'
  exact ⟨hsound, hle⟩
end

theorem nextSequence_eq_ok {numbered : Leases J} (h : L.nextSequence = .ok numbered) :
    numbered = { L with sequence := L.sequence + 1 } := by
  unfold Leases.nextSequence at h
  split at h
  · exact (Except.ok.inj h).symm
  · cases h

theorem sound_applyRemote {L' : Leases J} (h : L.Sound) {peer : DeviceId} {allowance : ℤ}
    {publication : Publication J} (hok : applyRemote L env peer allowance publication = .ok L') :
    L'.Sound ∧ L'.bytes ≤ max allowance L.bytes := by
  cases publication with
  | sync | snapshot =>
    rw [← Except.ok.inj hok]
    exact ⟨h, le_max_right _ _⟩
  | update channel member expiresAtMs =>
    obtain ⟨_, hcheck, hok⟩ := bind_eq_ok hok
    cases httl : remaining expiresAtMs env.nowMs with
    | none =>
      simp only [httl] at hok
      obtain ⟨hsound, hle⟩ := h.leave peer channel member.connectionId
      rw [← Except.ok.inj hok]
      exact ⟨hsound.of_members rfl rfl, hle.trans (le_max_right _ _)⟩
    | some ttl =>
      simp only [httl] at hok
      obtain ⟨hsound, hle⟩ := h.update (Leases.check_eq_ok hcheck (env.now + ttl) expiresAtMs)
      rw [← Except.ok.inj hok]
      exact ⟨hsound.of_members rfl rfl, (hle.trans (min_le_left _ _)).trans (le_max_left _ _)⟩
  | leave channel connectionId =>
    obtain ⟨_, _, hok⟩ := bind_eq_ok hok
    obtain ⟨_, _, hok⟩ := bind_eq_ok hok
    obtain ⟨hsound, hle⟩ := h.leave peer channel connectionId
    rw [← Except.ok.inj hok]
    exact ⟨hsound.of_members rfl rfl, hle.trans (le_max_right _ _)⟩

section
variable (b env app)
theorem updatePresence_cases (channel : String) (member : PresenceMember J) :
    (∃ e, b.updatePresence env app channel member =
      ⟨.error e, [], b.modify app (·.expire env.now)⟩) ∨
    ∃ member' a bytes, localMember b.here channel member = .ok member' ∧
      (b.modify app (·.expire env.now)).apps.get? app = some a ∧
      a.presence.check b.here channel member'
        ((b.modify app (·.expire env.now)).presenceAllowance app) = .ok bytes ∧
      b.updatePresence env app channel member =
        (b.modify app (·.expire env.now)).commit env app a "presence database update failed"
          (a.presence.update (b.localLease env channel member' bytes))
          (.update channel member' (b.localLease env channel member' bytes).expiresAtMs) := by
  unfold updatePresence
  simp only
  cases hmember : localMember (b.modify app (·.expire env.now)).here channel member with
  | error e => exact .inl ⟨e, rfl⟩
  | ok member' =>
    cases ha : (b.modify app (·.expire env.now)).apps.get? app with
    | none => exact .inl ⟨_, rfl⟩
    | some a =>
      simp only
      cases hcheck : a.presence.check (b.modify app (·.expire env.now)).here channel member'
          ((b.modify app (·.expire env.now)).presenceAllowance app) with
      | error e => exact .inl ⟨e, rfl⟩
      | ok bytes => exact .inr ⟨member', a, bytes, hmember, rfl, hcheck, rfl⟩

theorem removePresence_cases (channel connectionId : String) :
    (∃ e, b.removePresence env app channel connectionId = ⟨.error e, [], b⟩) ∨
    ∃ id a, validateChannel channel = .ok () ∧ localId b.here connectionId = .ok id ∧
      b.apps.get? app = some a ∧ b.removePresence env app channel connectionId =
        b.commit env app a "presence database cleanup failed" (a.presence.leave b.here channel id)
          (.leave channel id) := by
  unfold removePresence
  cases hchannel : validateChannel channel with
  | error e => exact .inl ⟨e, rfl⟩
  | ok =>
    cases hid : localId b.here connectionId with
    | error e => exact .inl ⟨e, rfl⟩
    | ok id =>
      cases ha : b.apps.get? app with
      | none => exact .inl ⟨_, rfl⟩
      | some a => exact .inr ⟨id, a, rfl, rfl, rfl, rfl⟩

theorem remotePresence_cases (peer : DeviceId) (publication : Publication J) :
    (b.remotePresence env peer app publication).broker = b.modify app (·.expire env.now) ∨
    ∃ a L, (b.modify app (·.expire env.now)).apps.get? app = some a ∧
      ((∃ sequence leases, publication = .snapshot sequence leases ∧
        a.presence.replaceRemote peer sequence leases env.now env.nowMs
          ((b.modify app (·.expire env.now)).presenceAllowance app) = .ok L) ∨
        applyRemote a.presence env peer ((b.modify app (·.expire env.now)).presenceAllowance app)
          publication = .ok L) ∧ b.remotePresence env peer app publication =
        ⟨.ok (), [], (b.modify app (·.expire env.now)).modify app fun _ => L⟩ := by
  unfold remotePresence
  simp only
  cases ha : (b.modify app (·.expire env.now)).apps.get? app with
  | none => exact .inl rfl
  | some a =>
    simp only
    by_cases hpg : a.postgresUrl.isSome = true
    · rw [if_pos hpg]
      exact .inl rfl
    rw [if_neg hpg]
    cases publication with
    | sync =>
      left
      simp only
      repeat' split
      all_goals rfl
    | snapshot sequence leases =>
      simp only
      cases hreplace : a.presence.replaceRemote peer sequence leases env.now env.nowMs
          ((b.modify app (·.expire env.now)).presenceAllowance app) with
      | error => exact .inl rfl
      | ok L => exact .inr ⟨a, L, rfl, .inl ⟨sequence, leases, rfl, hreplace⟩, rfl⟩
    | update | leave =>
      simp only
      split
      · exact .inl rfl
      · cases happly : applyRemote a.presence env peer
            ((b.modify app (·.expire env.now)).presenceAllowance app) _ with
        | error => exact .inl rfl
        | ok L => exact .inr ⟨a, L, rfl, .inr happly, rfl⟩
end

def Operation.Changes (app : AppEnv) : Operation J → Prop
  | .update app' _ _ => app' = app
  | .remove app' _ _ => app' = app
  | _ => False

/-- What becomes of the table of an application, by the operation that is to blame. -/
inductive Writes (env : Surroundings J) (b : Broker J) (app : AppEnv) (a : Application J) :
    Operation J → Leases J → Prop
  | update {channel : String} {member member' : PresenceMember J} {bytes : ℕ}
      (hcheck : a.presence.check b.here channel member' (b.presenceAllowance app) = .ok bytes) :
      Writes env b app a (.update app channel member)
        (a.presence.update (b.localLease env channel member' bytes))
  | leave (channel connectionId id : String) :
      Writes env b app a (.remove app channel connectionId) (a.presence.leave b.here channel id)
  | number {operation : Operation J} {L : Leases J} (hchanges : operation.Changes app)
      (h : Writes env b app a operation L) :
      Writes env b app a operation { L with sequence := L.sequence + 1 }
  | replace {peer : DeviceId} {publication : Publication J} {sequence : ℕ}
      {leases : List (SnapshotLease J)} {L : Leases J}
      (hok : a.presence.replaceRemote peer sequence leases env.now env.nowMs
        (b.presenceAllowance app) = .ok L) :
      Writes env b app a (.remote peer app publication) L
  | apply {peer : DeviceId} {publication : Publication J} {L : Leases J}
      (hok : applyRemote a.presence env peer (b.presenceAllowance app) publication = .ok L) :
      Writes env b app a (.remote peer app publication) L

/-- What an operation can do to the broker, one change after the other. -/
inductive Moves (env : Surroundings J) (operation : Operation J) : Broker J → Broker J → Prop
  | refl (b : Broker J) : Moves env operation b b
  | trans {b b' b'' : Broker J} (h : Moves env operation b b') (h' : Moves env operation b' b'') :
      Moves env operation b b''
  | drops {b : Broker J} {peers : List DeviceId} (h : peers.Sublist b.peers) :
      Moves env operation b { b with peers := peers }
  | attaches {b : Broker J} {peer : DeviceId} (h : peer ∉ b.peers) :
      Moves env operation b { b with peers := b.peers ++ [peer] }
  | expires (b : Broker J) (app : AppEnv) : Moves env operation b (b.modify app (·.expire env.now))
  | expiresAll (b : Broker J) : Moves env operation b (b.expirePresence env.now)
  | changes {b : Broker J} {app : AppEnv} (f : Application J → Application J)
      (hf : ∀ a, (f a).app = a.app)
      (hpresence : ∀ a, (f a).presence = a.presence ∨
        (f a).presence = a.presence.clearRemote b.here)
      (hurl : (∀ a, (f a).postgresUrl = a.postgresUrl) ∨ ∃ url, operation = .register app url) :
      Moves env operation b { b with apps := b.apps.updateWhere (fun a => a.app = app) f hf }
  | writes {b : Broker J} {app : AppEnv} {a : Application J} {L : Leases J}
      (ha : b.apps.get? app = some a) (h : Writes env b app a operation L) :
      Moves env operation b (b.modify app fun _ => L)
  | adds {b : Broker J} {app : AppEnv} {url : Option String} (hnone : b.apps.get? app = none)
      (hoperation : operation = .register app url) :
      Moves env operation b { b with apps := b.apps.insertIgnore ⟨app, url, .empty, []⟩ }

section
variable (b app)
theorem moves_fanout (frame : Frame J) :
    Moves env operation b (b.fanout env frame).2.broker := by
  unfold fanout
  split
  · exact .refl b
  · exact .drops filter_sublist

theorem moves_fenceApp : Moves env operation b (b.fenceApp env app).broker := by
  unfold fenceApp
  split
  · exact .refl b
  · simp only
    split <;> exact .changes (·.clearRemote b.here) (fun _ => rfl) (fun _ => .inr rfl)
      (.inl fun _ => rfl)

theorem moves_fenceApps (apps : List AppEnv) :
    Moves env operation b (fenceApps env apps b).broker := by
  induction apps generalizing b with
  | nil => exact .refl b
  | cons app _ ih =>
    have hfenced : Moves env operation b (b.fenceApp env app).broker := moves_fenceApp b app
    unfold fenceApps
    cases hresult : (b.fenceApp env app).result with
    | error =>
      simp only [hresult]
      exact hfenced
    | ok =>
      simp only [hresult]
      exact (hfenced.trans (moves_fanout _ _)).trans (ih _)

theorem moves_announce (frame : Frame J) :
    Moves env operation b (b.announce env frame).broker := by
  unfold announce
  simp only
  split
  · exact moves_fanout b frame
  · exact (moves_fanout b frame).trans (moves_fenceApps _ _)

theorem moves_commit (failure : String) (publication : ℕ → Publication J)
    (hchanges : operation.Changes app) (ha : b.apps.get? app = some a)
    (h : Writes env b app a operation L) :
    Moves env operation b (b.commit env app a failure L publication).broker := by
  unfold commit
  split
  · split
    · exact .writes ha h
    · exact .refl b
  · split
    · exact .writes ha h
    · rename_i numbered hnext
      rw [nextSequence_eq_ok hnext]
      exact (Moves.writes ha (h.number hchanges)).trans (moves_announce _ _)

theorem moves_presence (channel : String) :
    Moves env operation b (b.presence env app channel).broker := by
  have hexpired : Moves env operation b _ := .expires b app
  unfold presence
  split
  · exact .refl b
  simp only
  split
  · exact hexpired
  split
  · split <;> exact hexpired
  · apply hexpired.trans
    apply Moves.changes
    · exact fun _ => .inl rfl
    · exact .inl fun _ => rfl

theorem moves_register (url : Option String) :
    Moves env (.register app url) b (b.register env app url).broker := by
  unfold register
  simp only
  split
  · repeat (split; exact .refl b)
    exact .changes (fun a => { a.clearRemote b.here with postgresUrl := url }) (fun _ => rfl)
      (fun _ => .inr rfl) (.inr ⟨url, rfl⟩)
  · rename_i hnone
    repeat (split; exact .refl b)
    exact .adds hnone rfl

/-- Each operation is made of the changes allowed to it. -/
theorem moves_exec (operation : Operation J) (env : Surroundings J) (b : Broker J) :
    Moves env operation b (exec (operation, env) b).broker := by
  unfold exec
  cases operation with
  | register app url => exact moves_register b app url
  | attach peer =>
    simp only
    split
    · exact .refl b
    · rename_i hnew
      exact .attaches hnew
  | detach => exact .drops filter_sublist
  | update app channel member =>
    obtain ⟨e, heq⟩ | ⟨_, a, _, _, ha, hcheck, heq⟩ :=
      updatePresence_cases b env app channel member
    · simp only [heq]
      exact .expires b app
    · simp only [heq]
      exact (Moves.expires b app).trans (moves_commit _ _ _ _ rfl ha (.update hcheck))
  | remove app channel connectionId =>
    obtain ⟨e, heq⟩ | ⟨id, a, _, _, ha, heq⟩ := removePresence_cases b env app channel connectionId
    · simp only [heq]
      exact .refl b
    · simp only [heq]
      exact moves_commit _ _ _ _ rfl ha (.leave channel connectionId id)
  | presence app channel => exact moves_presence b app channel
  | remote peer app publication =>
    obtain heq | ⟨a, L, ha, ⟨_, _, _, hok⟩ | hok, heq⟩ :=
      remotePresence_cases b env app peer publication
    · simp only [heq]
      exact .expires b app
    · simp only [heq]
      exact (Moves.expires b app).trans (.writes ha (.replace hok))
    · simp only [heq]
      exact (Moves.expires b app).trans (.writes ha (.apply hok))
  | expire => exact .expiresAll b
  | fence => exact moves_fenceApps b _
  | fenceApp app => exact moves_fenceApp b app
end

theorem Writes.sound (h : Writes env b app a operation L) (ha : a.presence.Sound) :
    L.Sound ∧ L.bytes ≤ max (b.presenceAllowance app) a.presence.bytes := by
  induction h with
  | update hcheck =>
    obtain ⟨hsound, hle⟩ := ha.update
      (Leases.check_eq_ok hcheck (env.now + leaseMs) (Workflow.saturatingAdd env.nowMs leaseMs))
    exact ⟨hsound, (hle.trans (min_le_left _ _)).trans (le_max_left _ _)⟩
  | leave channel _ id =>
    obtain ⟨hsound, hle⟩ := ha.leave b.here channel id
    exact ⟨hsound, hle.trans (le_max_right _ _)⟩
  | number _ _ ih => exact ⟨ih.1.of_members rfl rfl, ih.2⟩
  | replace hok => exact ha.replaceRemote hok
  | apply hok => exact sound_applyRemote ha hok

/-- Every change keeps the totals right and within their bounds. -/
theorem Moves.sound (hmoves : Moves env operation b b') (h : b.Sound) : b'.Sound := by
  induction hmoves with
  | refl => exact h
  | trans _ _ ih ih' => exact ih' (ih h)
  | drops | attaches => exact { h with }
  | expires b app => exact h.expireApp app env.now
  | expiresAll => exact h.expirePresence env.now
  | @changes b app f hf hpresence _ =>
    refine h.updateApp f hf rfl fun a ha => ?_
    obtain heq | heq := hpresence a
    · rw [heq]
      exact ⟨h.presence_of_get? ha, le_max_right _ _⟩
    · obtain ⟨hsound, hle⟩ := (h.presence_of_get? ha).clearRemote b.here
      rw [heq]
      exact ⟨hsound, hle.trans (le_max_right _ _)⟩
  | writes ha hwrites =>
    obtain ⟨hsound, hle⟩ := hwrites.sound (h.presence_of_get? ha)
    exact h.put ha hsound hle
  | @adds b app url hnone _ =>
    have hrows := rows_insertIgnore b.apps (r := ⟨app, url, .empty, []⟩) hnone
    refine ⟨?_, ?_⟩
    · rw [hrows]
      exact forall_mem_append.mpr ⟨h.leases, by simpa using Leases.sound_empty⟩
    · unfold total
      rw [hrows, map_append, sum_append]
      exact (add_zero b.total).trans_le h.within

theorem sound_after (here : DeviceId) (steps : List (Operation J × Surroundings J)) :
    (after here steps).Sound :=
  Execution.after_induction _ _ _ (sound_new here) fun step _ b h =>
    (moves_exec step.1 step.2 b).sound h
end Broker

variable {channel id : String} {origin : DeviceId}
section
def rejections : List IoError :=
  [error "invalid presence scope", error "presence metadata exceeds limit",
    error "foreign presence connection identity", error "invalid presence connection identity",
    error "presence lease capacity exceeded", error "presence snapshot exceeds member limit"]

variable {member : PresenceMember J} {allowance : ℤ} {e : IoError}

theorem validateChannel_error (h : validateChannel channel = .error e) : e ∈ rejections := by
  obtain rfl | h := check_eq_error h
  · decide
  · cases h

theorem validateLocalId_error (h : validateLocalId id = .error e) :
    e ∈ rejections := by
  obtain rfl | h := check_eq_error h
  · decide
  · cases h

theorem validateOwnedId_error (h : validateOwnedId origin id = .error e) :
    e ∈ rejections := by
  unfold validateOwnedId at h
  split at h
  · cases h
    decide
  · exact validateLocalId_error h

theorem validateMember_error (h : validateMember channel member = .error e) : e ∈ rejections := by
  obtain hchannel | ⟨_, _, h⟩ := bind_eq_error h
  · exact validateChannel_error hchannel
  · obtain rfl | h := check_eq_error h
    · decide
    · cases h

theorem check_error (h : L.check origin channel member allowance = .error e) : e ∈ rejections := by
  obtain hmember | ⟨_, _, h⟩ := bind_eq_error h
  · exact validateMember_error hmember
  obtain howned | ⟨_, _, h⟩ := bind_eq_error h
  · exact validateOwnedId_error howned
  obtain rfl | h := check_eq_error h
  · decide
  · cases h

theorem replaceRemote_error {sequence now : ℕ} {records : List (SnapshotLease J)} {nowMs : ℤ}
    (h : L.replaceRemote origin sequence records now nowMs allowance = .error e) :
    e ∈ rejections := by
  unfold Leases.replaceRemote at h
  by_cases hcurrent : L.current origin sequence = false
  · rw [if_pos hcurrent] at h
    cases h
  rw [if_neg hcurrent] at h
  obtain rfl | h := check_eq_error h
  · decide
  obtain hloop | ⟨_, _, h⟩ := bind_eq_error h
  · obtain ⟨_, _, _, hround⟩ := foldlM_error hloop
    obtain hcheck | ⟨_, _, hround⟩ := bind_eq_error hround
    · exact check_error hcheck
    · split at hround <;> cases hround
  · obtain rfl | h := check_eq_error h
    · decide
    · cases h
end

namespace Broker
variable {e : IoError}
theorem fenceApp_error (h : (b.fenceApp env app).result = .error e) :
    e = error "cannot fence channel replay" := by
  unfold fenceApp at h
  split at h
  · cases h
  · simp only at h
    split at h
    · cases h
    · exact (Except.error.inj h).symm

theorem fenceApps_error {apps : List AppEnv} (h : (fenceApps env apps b).result = .error e) :
    e = error "cannot fence channel replay" := by
  induction apps generalizing b with
  | nil => cases h
  | cons app _ ih =>
    unfold fenceApps at h
    cases hresult : (b.fenceApp env app).result with
    | error =>
      simp only [hresult] at h
      rw [← Except.error.inj h]
      exact fenceApp_error hresult
    | ok =>
      simp only [hresult] at h
      exact ih h

theorem announce_error {frame : Frame J} (h : (b.announce env frame).result = .error e) :
    e ∉ rejections := by
  unfold announce at h
  simp only at h
  split at h
  · unfold fanout at h
    split at h <;> cases h
  · rw [fenceApps_error h]
    decide

/-- `b'` has the leases of `b`, but those of an application that were due may be
gone. -/
def Expires (b : Broker J) (now : ℕ) (b' : Broker J) : Prop :=
  ∀ app, (b'.apps.get? app).map Application.presence = (b.apps.get? app).map Application.presence ∨
    (b'.apps.get? app).map Application.presence =
      (b.apps.get? app).map fun a => a.presence.expire now

theorem expires_refl (now : ℕ) (b : Broker J) : Expires b now b := fun _ => .inl rfl

theorem get?_modify (b : Broker J) (app app' : AppEnv) (f : Leases J → Leases J) :
    ((b.modify app f).apps.get? app').map Application.presence =
      (b.apps.get? app').map fun a => if app' = app then f a.presence else a.presence := by
  unfold modify
  rw [Table.get?_updateWhere_key]
  by_cases happ : app' = app
  · simp only [if_pos happ, Option.map_map]
    rfl
  · simp only [if_neg happ]

theorem expires_modify (now : ℕ) (b : Broker J) (app : AppEnv) :
    Expires b now (b.modify app (·.expire now)) := by
  intro app'
  rw [get?_modify]
  by_cases happ : app' = app
  · simp [happ]
  · simp [happ]

theorem nextSequence_error (h : L.nextSequence = .error e) : e ∉ rejections := by
  unfold Leases.nextSequence at h
  split at h
  · cases h
  · rw [← Except.error.inj h]
    decide

theorem commit_rejected {failure : String} {publication : ℕ → Publication J}
    (hfailure : error failure ∉ rejections)
    (h : (b.commit env app a failure L publication).result = .error e) : e ∉ rejections := by
  unfold commit at h
  split at h
  · split at h
    · cases h
    · rw [← Except.error.inj h]
      exact hfailure
  · split at h
    · rename_i e' hnext
      rw [← Except.error.inj h]
      exact nextSequence_error hnext
    · exact announce_error h

theorem register_cases (postgresUrl : Option String) : (b.register env app postgresUrl).broker = b ∨
      (b.register env app postgresUrl).result = .ok () := by
  unfold register
  simp only
  repeat' split
  all_goals first | exact .inl rfl | exact .inr rfl

theorem fitsFrame_error {members : List (PresenceMember J)} (h : fitsFrame members = .error e) :
    e ∉ rejections := by
  obtain rfl | h := check_eq_error h
  · decide
  · cases h

theorem presence_rejected (h : (b.presence env app channel).result = .error e)
    (he : e ∈ rejections) : Expires b env.now (b.presence env app channel).broker := by
  have hexpires := expires_modify env.now b app
  unfold presence at h ⊢
  cases hchannel : validateChannel channel with
  | error => exact expires_refl env.now b
  | ok =>
    simp only [hchannel] at h ⊢
    cases ha : (b.modify app (·.expire env.now)).apps.get? app with
    | none => exact hexpires
    | some a =>
      simp only [ha] at h ⊢
      by_cases hpg : a.postgresUrl.isSome = true
      · rw [if_pos hpg] at h ⊢
        split <;> exact hexpires
      · rw [if_neg hpg] at h
        exact absurd he (fitsFrame_error h)

theorem expires_of_rejected (step : Operation J × Surroundings J)
    (h : (exec step b).result = .error e) (he : e ∈ rejections) :
    Expires b step.2.now (exec step b).broker := by
  obtain ⟨operation, env⟩ := step
  have hsame (hbroker : (exec (operation, env) b).broker = b) :
      Expires b env.now (exec (operation, env) b).broker := by
    rw [hbroker]
    exact expires_refl env.now b
  have hexpired {app : AppEnv}
      (hbroker : (exec (operation, env) b).broker = b.modify app (·.expire env.now)) :
      Expires b env.now (exec (operation, env) b).broker := by
    rw [hbroker]
    exact expires_modify env.now b app
  cases operation with
  | register app postgresUrl =>
    obtain hbroker | hresult := register_cases postgresUrl
    · exact hsame hbroker
    · cases hresult.symm.trans h
  | attach | detach | expire => cases h
  | update app channel member =>
    obtain ⟨e', heq⟩ | ⟨_, a, _, _, _, _, heq⟩ :=
      updatePresence_cases b env app channel member
    · exact hexpired (congrArg Outcome.broker heq)
    · have hcommit := (congrArg Outcome.result heq).symm.trans h
      exact absurd he (commit_rejected (by decide) hcommit)
  | remove app channel connectionId =>
    obtain ⟨_, heq⟩ | ⟨_, a, _, _, _, heq⟩ := removePresence_cases b env app channel connectionId
    · exact hsame (congrArg Outcome.broker heq)
    · have hcommit := (congrArg Outcome.result heq).symm.trans h
      exact absurd he (commit_rejected (by decide) hcommit)
  | presence => exact presence_rejected h he
  | remote peer app publication =>
    obtain heq | ⟨a, L, _, _, heq⟩ := remotePresence_cases b env app peer publication
    · exact hexpired heq
    · cases (congrArg Outcome.result heq).symm.trans h
  | fence =>
    rw [fenceApps_error h] at he
    exact absurd he (by decide)
  | fenceApp =>
    rw [fenceApp_error h] at he
    exact absurd he (by decide)
end Broker

/-- The id of a connection on `origin`, as every server knows it. -/
def Qualified (origin : DeviceId) (id : String) : Prop :=
  ∃ raw : List Char, id.toList = display origin ++ [':'] ++ raw ∧ raw.length = 32 ∧
    ∀ c ∈ raw, lowerHex c = true

theorem qualified_of_validateOwnedId (h : validateOwnedId origin id = .ok ()) :
    Qualified origin id := by
  unfold validateOwnedId stripOrigin at h
  simp only at h
  by_cases hprefix : display origin ++ [':'] <+: id.toList
  · rw [if_pos hprefix] at h
    obtain ⟨raw, hraw⟩ := hprefix
    have hdrop : id.toList.drop (display origin ++ [':']).length = raw := by rw [← hraw, drop_left]
    rw [hdrop] at h
    obtain ⟨hvalid, _⟩ := Fallible.check_eq_ok h
    obtain ⟨hlength, hhex⟩ := not_or.mp hvalid
    refine ⟨raw, hraw.symm, ?_, ?_⟩
    · simpa using hlength
    · simpa using hhex
  · rw [if_neg hprefix] at h
    cases h

structure Leases.Bounded (L : Leases J) : Prop where
  bytes : L.bytes = (L.members.rows.map fun l => (leaseBytes l.channel l.member : ℤ)).sum
  covers : ∀ dropped : List (Lease J), dropped.Sublist L.members.rows →
    (dropped.map Lease.weight).sum ≤ L.bytes
  count : L.members.rows.length ≤ 256
  size : L.bytes ≤ 524288
  identity : ∀ l ∈ L.members.rows, Qualified l.origin l.member.connectionId

theorem Leases.Sound.bounded (h : L.Sound) : L.Bounded where
  bytes := by
    have hweights : L.members.rows.map Lease.weight =
        L.members.rows.map fun l => (leaseBytes l.channel l.member : ℤ) := by
      apply map_congr_left
      intro l hl
      exact congrArg Int.ofNat (h.valid l hl).bytes
    rw [h.bytes, ← hweights]
    rfl
  covers dropped hdropped := by
    rw [h.bytes]
    exact (tally_le_of_sublist weight_nonneg hdropped).2
  count := by
    have hcount : (L.members.rows.length : ℤ) ≤ 256 := h.within.1
    omega
  size := by
    rw [h.bytes]
    exact h.within.2
  identity l hl := qualified_of_validateOwnedId (h.valid l hl).owned

/-- The invariant of the lease tables, and that rejections leave them alone. -/
theorem presence_within_budget (here : DeviceId)
    (steps : List (Broker.Operation J × Surroundings J)) :
    (∀ a ∈ (Broker.after here steps).apps.rows, a.presence.Bounded) ∧
    (Broker.after here steps).total ≤ 8388608 ∧
    (∀ (L : Leases J) origin channel member allowance e,
      L.check origin channel member allowance = .error e → e ∈ rejections) ∧
    (∀ (L : Leases J) origin sequence records now nowMs allowance e,
      L.replaceRemote origin sequence records now nowMs allowance = .error e → e ∈ rejections) ∧
    ∀ step e, (Broker.exec step (Broker.after here steps)).result = .error e → e ∈ rejections →
      (Broker.after here steps).Expires step.2.now
        (Broker.exec step (Broker.after here steps)).broker := by
  have hsound := Broker.sound_after here steps
  refine ⟨?_, hsound.within, ?_, ?_, ?_⟩
  · intro a ha
    exact (hsound.leases a ha).bounded
  · intro L origin _ _ allowance e h
    exact check_error h
  · intro _ _ _ _ _ _ _ e h
    exact replaceRemote_error h
  · intro step e h he
    exact Broker.expires_of_rejected step h he

def PresenceJson.nulls : PresenceJson where
  Value := Unit
  dataBytes _ := 4
  memberBytes id subject _ :=
    31 + id.utf8ByteSize + (subject.map fun text => 13 + text.utf8ByteSize).getD 0
  listBytes members := 2 + (members.length - 1) + (members.map fun m =>
    31 + m.1.utf8ByteSize + (m.2.1.map fun text => 13 + text.utf8ByteSize).getD 0).sum

def thisServer : DeviceId := ⟨.replicate 32 0x00⟩

def otherServer : DeviceId := ⟨.replicate 32 0x11⟩

def shop : AppEnv := ⟨"shop/production"⟩

def atTime (now : ℕ) : Surroundings PresenceJson.nulls where
  now := now
  nowMs := now
  stores := true
  fences _ := true
  rows := some []
  encodes _ := true
  reaches _ := true

def visitor (origin : DeviceId) : PresenceMember PresenceJson.nulls where
  connectionId := qualified origin "abababababababababababababababab"
  subject := none
  data := ()

def oneVisitor : List (Broker.Operation PresenceJson.nulls × Surroundings PresenceJson.nulls) :=
  [(.register shop none, atTime 0),
    (.remote otherServer shop (.update "room" (visitor otherServer) 45000 1), atTime 0)]

def foreignUpdate : Broker.Operation PresenceJson.nulls × Surroundings PresenceJson.nulls :=
  (.remote otherServer shop (.update "room" (visitor thisServer) 90000 2), atTime 45000)

/-- `check` refuses the update, after the leases that were due are gone. -/
theorem rejection_drops_expired :
    (Broker.exec foreignUpdate (Broker.after thisServer oneVisitor)).result =
      .error (error "foreign presence connection identity") ∧
    ((Broker.after thisServer oneVisitor).apps.get? shop).map
      (fun a => a.presence.members.rows.length) = some 1 ∧
    ((Broker.exec foreignUpdate (Broker.after thisServer oneVisitor)).broker.apps.get? shop).map
      (fun a => a.presence.members.rows.length) = some 0 := by
  decide +kernel

end Tako.Presence
