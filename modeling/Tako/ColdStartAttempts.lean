import Tako.ColdStart

/-! The attempts of one app: what a step does to the manager, the waiters and the
leaders, and what every run keeps. -/
namespace Tako.ColdStart
open Tasks List Function
inductive Steps (maxQueued : ℕ) (s : Server) : Task → Bool → Task → Server → Prop
  | leads {input m} (hstate : s.manager.state = .idle ∨ s.manager.state = .failed)
      (hbegin : s.manager.begin maxQueued = (true, m)) :
      Steps maxQueued s .arriving input .begun
        { s with manager := m, spawned := s.spawned ++ [s.manager.attempts] }
  | follows {input} : Steps maxQueued s .arriving input .begun s
  | queues {input rx slots} (happ : s.manager.app = some ⟨.starting, some rx, some slots⟩)
      (hfree : s.manager.permits slots ≠ 0) :
      Steps maxQueued s .begun input (.waiting rx slots) { s with manager := { s.manager with
        permits := Function.update s.manager.permits slots (s.manager.permits slots - 1) } }
  | refused {input} (outcome : WaitForReadyOutcome) :
      Steps maxQueued s .begun input (.answered outcome none) s
  | answers {input rx slots outcome}
      (houtcome : outcome = .timeout ∨ s.manager.recv rx = some outcome) :
      Steps maxQueued s (.waiting rx slots) input (.answered outcome (some rx))
        { s with manager := s.manager.release slots }
  | picks {input n spawned} (hspawned : s.spawned = n :: spawned) :
      Steps maxQueued s .worker input (.leader n .leading) { s with spawned := spawned }
  | proceeds {input n phase phase'}
      (hactive : (Task.leader n phase').active → (Task.leader n phase).active) :
      Steps maxQueued s (.leader n phase) input (.leader n phase') s
  | reports {input n phase mark} (hmark : (Task.leader n phase).mark? input = some mark) :
      Steps maxQueued s (.leader n phase) input (.leader n .led) (s.mark mark)
  | handles (mark : Mark) : Steps maxQueued s (.marking mark) true .done (s.mark mark)
  | drops (mark : Mark) : Steps maxQueued s (.marking mark) false .done s

variable (maxQueued : ℕ)
theorem begin_cases (m : Manager) :
    ((m.state = .idle ∨ m.state = .failed) ∧ (m.begin maxQueued).1 = true) ∨
      m.begin maxQueued = (false, m) := by
  cases hstate : m.state <;> simp [Manager.begin, hstate]

theorem queue_cases (m : Manager) : (∃ outcome, m.queue = (.error outcome, m)) ∨
      ∃ rx slots, m.app = some ⟨.starting, some rx, some slots⟩ ∧ m.permits slots ≠ 0 ∧
        m.queue = (.ok (rx, slots), { m with
          permits := update m.permits slots (m.permits slots - 1) }) := by
  rw [Manager.queue]
  split
  · exact .inl ⟨_, rfl⟩
  · rename_i readyTx slots happ
    split
    · exact .inl ⟨_, rfl⟩
    · rename_i hfree
      cases readyTx with
      | none => exact .inl ⟨_, rfl⟩
      | some rx => exact .inr ⟨rx, slots, happ, hfree, rfl⟩
  · exact .inl ⟨_, rfl⟩
  · exact .inl ⟨_, rfl⟩

section
variable {maxQueued : ℕ} {t t' : Task} {input : Bool} {s s' : Server}
theorem steps_of_step (h : t.step maxQueued input s = some (t', s')) :
    Steps maxQueued s t input t' s' := by
  cases t with
  | arriving =>
    simp only [Task.step] at h
    obtain ⟨hstate, hleader⟩ | hfollows := begin_cases maxQueued s.manager
    · split at h
      · rename_i m hbegin
        cases h
        exact .leads hstate hbegin
      · rename_i hbegin
        rw [hbegin] at hleader
        cases hleader
    · rw [hfollows] at h
      cases h
      exact .follows
  | begun =>
    simp only [Task.step] at h
    obtain ⟨outcome, hqueue⟩ | ⟨rx, slots, happ, hfree, hqueue⟩ := queue_cases s.manager
    · rw [hqueue] at h
      cases h
      exact .refused outcome
    · rw [hqueue] at h
      cases h
      exact .queues happ hfree
  | waiting =>
    cases input with
    | true =>
      simp only [Task.step, Option.map_eq_some_iff] at h
      obtain ⟨outcome, houtcome, heq⟩ := h
      cases heq
      exact .answers (.inr houtcome)
    | false =>
      cases h
      exact .answers (.inl rfl)
  | answered | done => cases h
  | worker =>
    simp only [Task.step] at h
    split at h
    · cases h
    · rename_i hspawned
      cases h
      exact .picks hspawned
  | leader n phase =>
    cases phase with
    | leading =>
      cases h
      exact .proceeds fun _ => rfl
    | spawning =>
      cases h
      exact .proceeds fun _ => rfl
    | failing =>
      cases h
      exact .reports rfl
    | announcing =>
      cases input <;> cases h
      · exact .proceeds nofun
      · exact .reports rfl
    | led => cases h
  | marking mark =>
    cases input <;> cases h
    · exact .drops mark
    · exact .handles mark

namespace Manager
/-- The attempt that waiters can join has its channel and semaphore, and every other
one has its outcome. -/
structure Sound (m : Manager) : Prop where
  joined : ∀ n, m.current = some n →
    n < m.attempts ∧ m.app = some ⟨.starting, some n, some n⟩ ∧ m.channels n = .empty
  finished : m.current = none → ∀ coldStart, m.app = some coldStart →
    coldStart.state ≠ .starting ∧ coldStart.readyTx = none
  ended : ∀ n < m.attempts, m.current ≠ some n → m.channels n ≠ .empty

variable {m m' : Manager}
theorem Sound.readyTx (h : m.Sound) : m.app.bind AppColdStart.readyTx = m.current := by
  cases hcurrent : m.current with
  | none =>
    cases happ : m.app with
    | none => rfl
    | some coldStart => exact (h.finished hcurrent coldStart happ).2
  | some n =>
    rw [(h.joined n hcurrent).2.1]
    rfl

variable {rx : ℕ}
theorem channels_of_recv_ready (h : m.recv rx = some .ready) : m.channels rx = .sent true := by
  rw [recv] at h
  split at h <;> cases h
  assumption

theorem channels_of_recv_failed (h : m.recv rx = some .failed) :
    m.channels rx = .sent false ∨ m.channels rx = .closed := by
  rw [recv] at h
  split at h <;> cases h
  · left
    assumption
  · right
    assumption

theorem recv_isSome (h : m.channels rx ≠ .empty) : (m.recv rx).isSome := by
  rw [recv]
  split <;> first | rfl | contradiction

theorem begin_current {maxQueued : ℕ} (hbegin : m.begin maxQueued = (true, m')) :
    m' = { app := some ⟨.starting, some m.attempts, some m.attempts⟩
           attempts := m.attempts + 1
           channels := update m.channels m.attempts .empty
           permits := update m.permits m.attempts maxQueued } := by
  rw [begin] at hbegin
  split at hbegin <;> cases hbegin <;> rfl

theorem Sound.begin {maxQueued : ℕ} (h : m.Sound) (hbegin : m.begin maxQueued = (true, m'))
    (hcurrent : m.current = none) : m'.Sound := by
  rw [begin_current hbegin]
  constructor
  · intro n hn
    obtain rfl : m.attempts = n := Option.some.inj hn
    exact ⟨Nat.lt_succ_self _, rfl, update_self ..⟩
  · intro hnone
    cases hnone
  · intro n hn hne
    have hold : n ≠ m.attempts := fun heq => hne (congrArg some heq.symm)
    have hlt : n < m.attempts := Nat.lt_of_le_of_ne (Nat.le_of_lt_succ hn) hold
    have hchannel : m.channels n ≠ .empty := h.ended n hlt (by rw [hcurrent]; simp)
    simpa only [update_of_ne hold] using hchannel

theorem current_of_state (hstate : m.state = .idle ∨ m.state = .failed) : m.current = none := by
  rw [state] at hstate
  rw [current]
  cases happ : m.app with
  | none => rfl
  | some coldStart =>
    rw [happ] at hstate
    refine if_neg fun hstarting => ?_
    have hstarting : (Option.getD (some coldStart) {}).state = .starting := hstarting
    rw [hstarting] at hstate
    obtain hstate | hstate := hstate <;> cases hstate
end Manager

namespace Mark
variable {m : Manager}
def value : Mark → Channel
  | .ready _ => .sent true
  | .failed _ => .sent false
  | .reset => .closed

variable (mark : Mark)
theorem apply_kept : (mark.apply m).attempts = m.attempts ∧ (mark.apply m).permits = m.permits := by
  cases mark <;> simp only [apply, Manager.markReady, Manager.markFailed, Manager.finish]
  · split <;> exact ⟨rfl, rfl⟩
  · split <;> exact ⟨rfl, rfl⟩
  · exact ⟨rfl, rfl⟩

theorem apply_current : (mark.apply m).current = none := by
  have hfinish (ready : Bool) : (m.finish ready).current = none := by
    rw [Manager.finish]
    cases happ : m.app with
    | none => simp only [Manager.current, happ, Option.bind_none]
    | some => cases ready <;> rfl
  cases mark with
  | ready => exact hfinish true
  | failed => exact hfinish false
  | reset => rfl

theorem finish_channels (h : m.Sound) (ready : Bool) (n : ℕ) : (m.finish ready).channels n =
      if m.current = some n then .sent ready else m.channels n := by
  rw [Manager.finish, ← h.readyTx]
  cases m.app with
  | none => simp
  | some coldStart =>
    cases htx : coldStart.readyTx with
    | none => simp [htx]
    | some tx =>
      by_cases hn : n = tx
      · subst hn
        simp [htx]
      · have hne : tx ≠ n := fun heq => hn heq.symm
        simp [htx, hn, hne]

theorem apply_channels (h : m.Sound) (mark : Mark) (n : ℕ) :
    (mark.apply m).channels n = if m.current = some n then mark.value else m.channels n := by
  cases mark with
  | ready => exact finish_channels h true n
  | failed => exact finish_channels h false n
  | reset =>
    rw [apply, Manager.reset, ← h.readyTx]
    cases htx : m.app.bind AppColdStart.readyTx with
    | none => simp
    | some tx =>
      by_cases hn : n = tx
      · subst hn
        simp [value]
      · have hne : tx ≠ n := fun heq => hn heq.symm
        simp [hn, hne]

theorem apply_finished (coldStart : AppColdStart) (happ : (mark.apply m).app = some coldStart) :
    coldStart.state ≠ .starting ∧ coldStart.readyTx = none := by
  have hfinish (ready : Bool) (happ : (m.finish ready).app = some coldStart) :
      coldStart.state ≠ .starting ∧ coldStart.readyTx = none := by
    rw [Manager.finish] at happ
    split at happ
    · rename_i hnone
      rw [hnone] at happ
      cases happ
    · cases happ
      cases ready <;> exact ⟨by simp, rfl⟩
  cases mark with
  | ready => exact hfinish true happ
  | failed => exact hfinish false happ
  | reset => cases happ

theorem apply_sound (h : m.Sound) (mark : Mark) : (mark.apply m).Sound where
  joined n hn := by
    rw [apply_current] at hn
    cases hn
  finished _ := apply_finished mark
  ended n hn _ := by
    rw [mark.apply_kept.1] at hn
    rw [apply_channels h]
    split
    · cases mark <;> simp [value]
    · rename_i hne
      exact h.ended n hn hne
end Mark

theorem sound_steps (h : s.manager.Sound) (hsteps : Steps maxQueued s t input t' s') :
    s'.manager.Sound := by
  cases hsteps with
  | leads hstate hbegin => exact h.begin hbegin (Manager.current_of_state hstate)
  | follows | refused | picks | proceeds | drops => exact h
  | queues | answers => exact { h with }
  | reports => exact Mark.apply_sound h _
  | handles mark => exact Mark.apply_sound h mark

variable {p : Pool Task Server} {k : ℕ}
/-- A waiter has the channel and a permit of one attempt, and the permits add up. -/
structure Queued (maxQueued : ℕ) (p : Pool Task Server) : Prop where
  joined : ∀ rx slots, Task.waiting rx slots ∈ p.tasks →
    rx = slots ∧ slots < p.shared.manager.attempts
  permits : ∀ n < p.shared.manager.attempts,
    p.shared.manager.permits n + p.tasks.countP (Task.queuedOn n) = maxQueued

theorem Queued.unmade (h : Queued maxQueued p) {n : ℕ} (hn : p.shared.manager.attempts ≤ n) :
    p.tasks.countP (Task.queuedOn n) = 0 := by
  rw [countP_eq_zero]
  intro t ht hqueued
  cases t with
  | waiting rx slots =>
    have hslots : slots = n := of_decide_eq_true hqueued
    have hlt := (h.joined rx slots ht).2
    omega
  | _ => cases hqueued

def Mark.About (n : ℕ) : Mark → Prop
  | .ready about => about = some n
  | .failed about => about = some n
  | .reset => True

def Lost (log : List (Mark × Option ℕ)) (n : ℕ) : Prop :=
  (.failed (some n), some n) ∈ log ∨ (.reset, some n) ∈ log

/-- Nobody hears of an outcome but by a report of that attempt. -/
structure Answered (p : Pool Task Server) : Prop where
  sentReady : ∀ n, p.shared.manager.channels n = .sent true →
    (.ready (some n), some n) ∈ p.shared.log
  sentFailed : ∀ n, p.shared.manager.channels n = .sent false ∨
    p.shared.manager.channels n = .closed → Lost p.shared.log n
  ready : ∀ n, .answered .ready (some n) ∈ p.tasks → (.ready (some n), some n) ∈ p.shared.log
  failed : ∀ n, .answered .failed (some n) ∈ p.tasks → Lost p.shared.log n

theorem Answered.set (h : Answered p) (hother : ∀ outcome n, t' ≠ .answered outcome (some n)) :
    Answered ⟨p.tasks.set k t', p.shared⟩ where
  __ := h
  ready n hmem := by
    obtain hmem | heq := mem_or_eq_of_mem_set hmem
    · exact h.ready n hmem
    · exact absurd heq.symm (hother _ n)
  failed n hmem := by
    obtain hmem | heq := mem_or_eq_of_mem_set hmem
    · exact h.failed n hmem
    · exact absurd heq.symm (hother _ n)

theorem Answered.of_channels (h : Answered p)
    (hchannels : ∀ n, s.manager.channels n = p.shared.manager.channels n ∨
      s.manager.channels n = .empty) (hlog : s.log = p.shared.log) : Answered ⟨p.tasks, s⟩ where
  sentReady n hn := by
    rw [hlog]
    obtain heq | hempty := hchannels n
    · exact h.sentReady n (heq ▸ hn)
    · rw [hempty] at hn
      cases hn
  sentFailed n hn := by
    rw [hlog]
    obtain heq | hempty := hchannels n
    · exact h.sentFailed n (heq ▸ hn)
    · rw [hempty] at hn
      obtain hn | hn := hn <;> cases hn
  ready n hmem := hlog ▸ h.ready n hmem
  failed n hmem := hlog ▸ h.failed n hmem

theorem Lost.append {log : List (Mark × Option ℕ)} {n : ℕ} (h : Lost log n)
    (entry : Mark × Option ℕ) : Lost (log ++ [entry]) n :=
  h.imp (mem_append_left _) (mem_append_left _)

theorem Answered.mark (h : Answered p) (hsound : p.shared.manager.Sound) (mark : Mark)
    (habout : ∀ n ∈ p.shared.manager.current, mark.About n) :
    Answered ⟨p.tasks, p.shared.mark mark⟩ where
  sentReady n hn := by
    rw [Server.mark, Mark.apply_channels hsound] at hn
    rw [Server.mark]
    split at hn
    · rename_i hcurrent
      rw [hcurrent]
      refine mem_append_right _ (mem_singleton.mpr ?_)
      have hself := habout n hcurrent
      cases mark with
      | ready about => rw [show about = some n from hself]
      | failed | reset => cases hn
    · exact mem_append_left _ (h.sentReady n hn)
  sentFailed n hn := by
    rw [Server.mark, Mark.apply_channels hsound] at hn
    rw [Server.mark]
    split at hn
    · rename_i hcurrent
      rw [hcurrent]
      have hself := habout n hcurrent
      cases mark with
      | ready => obtain hn | hn := hn <;> cases hn
      | failed about =>
        rw [show about = some n from hself]
        exact .inl mem_concat_self
      | reset => exact .inr mem_concat_self
    · exact (h.sentFailed n hn).append _
  ready n hmem := mem_append_left _ (h.ready n hmem)
  failed n hmem := (h.failed n hmem).append _

/-- A channel is sent only what is reported of its own attempt. -/
theorem Answered.steps (h : Answered p) (hsound : p.shared.manager.Sound)
    (hmarks : ∀ mark ∈ t.mark? input, ∀ n ∈ p.shared.manager.current, mark.About n)
    (hsteps : Steps maxQueued p.shared t input t' s) : Answered ⟨p.tasks.set k t', s⟩ := by
  cases hsteps with
  | leads _ hbegin =>
    refine (h.set (by simp)).of_channels (fun n => ?_) rfl
    rw [Manager.begin_current hbegin]
    by_cases hn : n = p.shared.manager.attempts
    · rw [hn]
      exact .inr (update_self ..)
    · exact .inl (update_of_ne hn ..)
  | follows | refused | proceeds | drops => exact h.set (by simp)
  | queues | picks =>
    exact (h.set (by simp)).of_channels (fun _ => .inl rfl) rfl
  | @answers _ rx slots outcome houtcome =>
    have hset : Answered ⟨p.tasks.set k (.answered outcome (some rx)), p.shared⟩ := by
      refine ⟨h.sentReady, h.sentFailed, fun n hmem => ?_, fun n hmem => ?_⟩
      · obtain hmem | heq := mem_or_eq_of_mem_set hmem
        · exact h.ready n hmem
        · cases heq
          obtain houtcome | hrecv := houtcome
          · cases houtcome
          · exact h.sentReady rx (Manager.channels_of_recv_ready hrecv)
      · obtain hmem | heq := mem_or_eq_of_mem_set hmem
        · exact h.failed n hmem
        · cases heq
          obtain houtcome | hrecv := houtcome
          · cases houtcome
          · exact h.sentFailed rx (Manager.channels_of_recv_failed hrecv)
    exact hset.of_channels (fun _ => .inl rfl) rfl
  | reports hmark => exact (h.set (by simp)).mark hsound _ (hmarks _ hmark)
  | handles mark => exact (h.set (by simp)).mark hsound _ (hmarks _ rfl)

variable (ht : p.tasks[k]? = some t)
include ht
theorem Queued.pass (h : Queued maxQueued p)
    (hjoined : ∀ rx slots, t' = .waiting rx slots → rx = slots ∧ slots < p.shared.manager.attempts)
    (hattempts : s.manager.attempts = p.shared.manager.attempts)
    (hpermits : ∀ n, s.manager.permits n + (if t'.queuedOn n then 1 else 0) =
      p.shared.manager.permits n + if t.queuedOn n then 1 else 0) :
    Queued maxQueued ⟨p.tasks.set k t', s⟩ where
  joined rx slots hmem := by
    rw [hattempts]
    obtain hmem | heq := mem_or_eq_of_mem_set hmem
    · exact h.joined rx slots hmem
    · exact hjoined rx slots heq.symm
  permits n hn := by
    rw [hattempts] at hn
    have hadd := countP_set_add (p := Task.queuedOn n) ht t'
    have hold := h.permits n hn
    have hnew := hpermits n
    dsimp only
    omega

theorem Queued.steps (h : Queued maxQueued p) (hsound : p.shared.manager.Sound)
    (hsteps : Steps maxQueued p.shared t input t' s) :
    Queued maxQueued ⟨p.tasks.set k t', s⟩ := by
  cases hsteps with
  | leads _ hbegin =>
    rw [Manager.begin_current hbegin]
    constructor
    · intro rx slots hmem
      obtain hmem | heq := mem_or_eq_of_mem_set hmem
      · obtain ⟨hrx, hlt⟩ := h.joined rx slots hmem
        exact ⟨hrx, Nat.lt_succ_of_lt hlt⟩
      · cases heq
    · intro n hn
      have hcount : (p.tasks.set k .begun).countP (Task.queuedOn n) =
          p.tasks.countP (Task.queuedOn n) := countP_set_eq ht rfl
      dsimp only
      rw [hcount]
      by_cases heq : n = p.shared.manager.attempts
      · rw [heq, update_self, h.unmade (Nat.le_refl _), Nat.add_zero]
      · rw [update_of_ne heq]
        exact h.permits n (Nat.lt_of_le_of_ne (Nat.le_of_lt_succ hn) heq)
  | follows | refused | picks | proceeds | drops => exact h.pass ht nofun rfl fun _ => rfl
  | @queues _ rx slots happ hfree =>
    have hcurrent : p.shared.manager.current = some rx := by
      rw [Manager.current, happ]
      rfl
    obtain ⟨hlt, happ', _⟩ := hsound.joined rx hcurrent
    rw [happ] at happ'
    obtain rfl : slots = rx := by simpa using happ'
    refine h.pass ht (fun rx slots' heq => ?_) rfl fun n => ?_
    · cases heq
      exact ⟨rfl, hlt⟩
    · by_cases hslots : n = slots
      · simp only [hslots, Task.queuedOn, update_self, decide_true, if_true, Bool.false_eq_true,
          if_false]
        omega
      · simp [Task.queuedOn, update_of_ne hslots, Ne.symm hslots]
  | @answers _ rx slots =>
    refine h.pass ht nofun rfl fun n => ?_
    by_cases hslots : n = slots
    · simp [hslots, Task.queuedOn, Manager.release]
    · simp [Task.queuedOn, Manager.release, update_of_ne hslots, Ne.symm hslots]
  | reports | handles =>
    refine h.pass ht nofun (Mark.apply_kept _).1 fun n => ?_
    rw [Server.mark, (Mark.apply_kept _).2]
    rfl

/-- Every attempt has its leader, in the pool or still to be picked up. -/
def Led (p : Pool Task Server) : Prop :=
  ∀ n, p.tasks.countP (Task.leads n) + p.shared.spawned.count n =
    if n < p.shared.manager.attempts then 1 else 0

theorem Led.pass (h : Led p) (hleads : ∀ n, t'.leads n = t.leads n)
    (hattempts : s.manager.attempts = p.shared.manager.attempts)
    (hspawned : s.spawned = p.shared.spawned) : Led ⟨p.tasks.set k t', s⟩ := by
  intro n
  rw [hspawned, hattempts, countP_set_eq ht (hleads n)]
  exact h n

/-- Only the request that begins an attempt makes a leader. -/
theorem Led.steps (h : Led p) (hsteps : Steps maxQueued p.shared t input t' s) :
    Led ⟨p.tasks.set k t', s⟩ := by
  cases hsteps with
  | leads _ hbegin =>
    intro n
    have hn := h n
    have hcount : (p.tasks.set k .begun).countP (Task.leads n) =
        p.tasks.countP (Task.leads n) := countP_set_eq ht rfl
    rw [Manager.begin_current hbegin]
    rw [hcount, count_append, count_singleton]
    simp only [beq_iff_eq]
    by_cases heq : p.shared.manager.attempts = n
    · subst heq
      rw [if_neg (Nat.lt_irrefl _)] at hn
      rw [if_pos rfl, if_pos (Nat.lt_succ_self _)]
      omega
    · have hlt : n < p.shared.manager.attempts + 1 ↔ n < p.shared.manager.attempts := by omega
      rw [if_neg heq]
      simp only [hlt]
      omega
  | follows | queues happ hfree | refused outcome | answers houtcome | proceeds hactive
  | drops => exact h.pass ht (fun _ => rfl) rfl rfl
  | @picks _ m spawned hspawned =>
    intro n
    have hn := h n
    have hadd := countP_set_add (p := Task.leads n) ht (Task.leader m .leading)
    rw [hspawned, count_cons] at hn
    simp only [Task.leads, Bool.false_eq_true, if_false, decide_eq_true_eq] at hadd
    simp only [beq_iff_eq] at hn
    split at hn <;> rename_i heq
    · rw [if_pos heq] at hadd
      dsimp only
      omega
    · rw [if_neg heq] at hadd
      dsimp only
      omega
  | reports | handles => exact h.pass ht (fun _ => rfl) (Mark.apply_kept _).1 rfl

def Unled (p : Pool Task Server) : Prop :=
  p.shared.spawned = [] ∧ ∀ t ∈ p.tasks, t.active = false

/-- At most one leader has yet to end its spawn, and none when a request could make
another one. -/
structure Leading (p : Pool Task Server) : Prop where
  alone : Alone (fun t : Task => t.active = true) p.tasks
  first : p.shared.spawned ≠ [] → ∀ t ∈ p.tasks, t.active = false
  short : p.shared.spawned.length ≤ 1
  taken : p.shared.manager.state = .idle ∨ p.shared.manager.state = .failed → Unled p

theorem Leading.pass (h : Leading p) (hactive : t'.active → t.active)
    (hspawned : s.spawned = p.shared.spawned)
    (hstate : s.manager.state = .idle ∨ s.manager.state = .failed →
      p.shared.manager.state = .idle ∨ p.shared.manager.state = .failed ∨ Unled p) :
    Leading ⟨p.tasks.set k t', s⟩ := by
  have hinactive (hall : ∀ u ∈ p.tasks, u.active = false) : t'.active = false := by
    cases hactive' : t'.active with
    | false => rfl
    | true =>
      rw [hall t (mem_of_getElem? ht)] at hactive
      cases hactive hactive'
  constructor
  · exact h.alone.set ht fun hactive' => .inl (hactive hactive')
  · intro hne
    rw [hspawned] at hne
    exact forall_set (h.first hne) (hinactive (h.first hne))
  · dsimp only
    rw [hspawned]
    exact h.short
  · intro hidle
    have hunled : Unled p := by
      obtain hidle | hidle | hunled := hstate hidle
      · exact h.taken (.inl hidle)
      · exact h.taken (.inr hidle)
      · exact hunled
    exact ⟨hspawned.trans hunled.1, forall_set hunled.2 (hinactive hunled.2)⟩

def Mark.isReady : Mark → Bool
  | .ready _ => true
  | _ => false

theorem Leading.mark (h : Leading p) (hactive : t'.active → t.active) (mark : Mark)
    (hmark : mark.isReady = false → Unled p) :
    Leading ⟨p.tasks.set k t', p.shared.mark mark⟩ := by
  refine h.pass ht hactive rfl fun hstate => ?_
  cases mark with
  | ready =>
    simp only [Server.mark, Mark.apply, Manager.markReady, Manager.finish] at hstate
    split at hstate
    · exact hstate.imp_right .inl
    · obtain hstate | hstate := hstate <;> cases hstate
  | failed | reset => exact .inr (.inr (hmark rfl))

/-- No second leader comes before the first has ended its spawn. -/
theorem Leading.steps (h : Leading p)
    (hmarks : ∀ mark ∈ t.mark? input, mark.isReady = false → Unled p)
    (hsteps : Steps maxQueued p.shared t input t' s) : Leading ⟨p.tasks.set k t', s⟩ := by
  cases hsteps with
  | leads hstate hbegin =>
    obtain ⟨hnone, hall⟩ := h.taken hstate
    have hall' : ∀ u ∈ p.tasks.set k .begun, u.active = false := forall_set hall rfl
    constructor
    · exact h.alone.set ht nofun
    · exact fun _ => hall'
    · simp [hnone]
    · intro hidle
      rw [Manager.begin_current hbegin] at hidle
      obtain hidle | hidle := hidle <;> cases hidle
  | follows => exact h.pass ht id rfl (Or.imp_right .inl)
  | queues | refused | answers | drops =>
    exact h.pass ht nofun rfl (Or.imp_right .inl)
  | @picks _ n spawned hspawned =>
    have hne : p.shared.spawned ≠ [] := by simp [hspawned]
    have hall := h.first hne
    have hshort := h.short
    rw [hspawned, length_cons] at hshort
    have hempty : spawned = [] := eq_nil_of_length_eq_zero (by omega)
    constructor
    · refine h.alone.set ht fun _ => .inr ?_
      rintro ⟨u, hu, hactive⟩
      rw [hall u hu] at hactive
      cases hactive
    · exact absurd hempty
    · simp [hempty]
    · exact fun hidle => absurd (h.taken hidle).1 hne
  | proceeds hactive => exact h.pass ht hactive rfl (Or.imp_right .inl)
  | reports hmark => exact h.mark ht (fun hactive => by cases hactive) _ (hmarks _ hmark)
  | handles mark => exact h.mark ht (fun hactive => by cases hactive) _ (hmarks _ rfl)
end

/-- Where attempts are isolated: what is reported while one can be joined is about that
attempt, and no failure and no reset comes while a leader has yet to end its spawn. -/
def Timely : Event Party Bool → Pool Task Server → Prop
  | .start _, _ => True
  | .run k input, p => ∀ t ∈ p.tasks[k]?, ∀ mark ∈ t.mark? input,
      (∀ n ∈ p.shared.manager.current, mark.About n) ∧ (mark.isReady = false → Unled p)

structure Attended (maxQueued : ℕ) (p : Pool Task Server) : Prop where
  led : ∀ n < p.shared.manager.attempts,
    p.tasks.countP (Task.leads n) + p.shared.spawned.count n = 1
  queued : ∀ n, p.tasks.countP (Task.queuedOn n) ≤ maxQueued
  released : ∀ rx slots, .waiting rx slots ∈ p.tasks → p.shared.manager.current ≠ some rx →
    (p.shared.manager.recv rx).isSome

structure Isolated (p : Pool Task Server) : Prop where
  alone : Alone (fun t : Task => t.spawning = true) p.tasks
  ready : ∀ n, .answered .ready (some n) ∈ p.tasks → (.ready (some n), some n) ∈ p.shared.log
  failed : ∀ n, .answered .failed (some n) ∈ p.tasks → Lost p.shared.log n

structure Manned (maxQueued : ℕ) (p : Pool Task Server) : Prop where
  sound : p.shared.manager.Sound
  queued : Queued maxQueued p
  led : Led p

structure Invariant (maxQueued : ℕ) (p : Pool Task Server) : Prop extends Manned maxQueued p where
  answered : Answered p
  leading : Leading p

theorem mem_of_start {w : Party} {t : Task} {tasks : List Task} (ht : t ∈ tasks ++ [w.task])
    (hne : w.task ≠ t) : t ∈ tasks := by
  obtain ht | ht := mem_append.mp ht
  · exact ht
  · exact absurd (mem_singleton.mp ht).symm hne

theorem kept_manned :
    Kept Party.task (Task.step maxQueued) (fun _ _ => True) (Manned maxQueued) where
  start p w h _ := by
    have hidle (n : ℕ) : w.task.queuedOn n = false ∧ w.task.leads n = false := by
      cases w <;> exact ⟨rfl, rfl⟩
    refine ⟨h.sound, ⟨fun rx slots ht => ?_, fun n hn => ?_⟩, fun n => ?_⟩
    · exact h.queued.joined rx slots (mem_of_start ht (by cases w <;> simp [Party.task]))
    · rw [countP_append, countP_singleton, (hidle n).1]
      exact h.queued.permits n hn
    · rw [countP_append, countP_singleton, (hidle n).2]
      exact h.led n
  run p k input t t' s h _ ht hstep := by
    have hsteps := steps_of_step hstep
    exact ⟨sound_steps h.sound hsteps, h.queued.steps ht h.sound hsteps, h.led.steps ht hsteps⟩

theorem kept_invariant : Kept Party.task (Task.step maxQueued) Timely (Invariant maxQueued) where
  start p w h _ := by
    have hother : w.task.active = false ∧ ∀ outcome n, w.task ≠ .answered outcome n := by
      cases w <;> simp [Party.task, Task.active]
    refine ⟨(kept_manned maxQueued).start p w h.toManned trivial, ?_, ?_⟩
    · exact ⟨h.answered.sentReady, h.answered.sentFailed,
        fun n ht => h.answered.ready n (mem_of_start ht (hother.2 _ _)),
        fun n ht => h.answered.failed n (mem_of_start ht (hother.2 _ _))⟩
    · refine ⟨h.leading.alone.append (by simp [hother.1]), fun hne => ?_, h.leading.short,
        fun hidle => ?_⟩
      · exact forall_append (h.leading.first hne) hother.1
      · exact ⟨(h.leading.taken hidle).1, forall_append (h.leading.taken hidle).2 hother.1⟩
  run p k input t t' s h hC ht hstep := by
    have hsteps := steps_of_step hstep
    have hmarks := hC t ht
    exact ⟨(kept_manned maxQueued).run p k input t t' s h.toManned trivial ht hstep,
      h.answered.steps h.sound (fun mark hmark => (hmarks mark hmark).1) hsteps,
      h.leading.steps ht (fun mark hmark => (hmarks mark hmark).2) hsteps⟩

theorem initial_invariant : Invariant maxQueued ⟨[], {}⟩ where
  sound := by
    constructor
    · intro n hn
      cases hn
    · intro _ _ happ
      cases happ
    · intro n hn
      exact absurd hn (Nat.not_lt_zero n)
  queued := by
    constructor
    · exact nofun
    · exact fun n hn => absurd hn (Nat.not_lt_zero n)
  led n := rfl
  answered := by
    constructor
    · intro n hn
      cases hn
    · intro n hn
      obtain hn | hn := hn <;> cases hn
    · exact nofun
    · exact nofun
  leading := by
    refine ⟨fun j k t u ht => ?_, fun hne => absurd rfl hne, Nat.zero_le 1, fun _ => ⟨rfl, ?_⟩⟩
    · cases ht
    · exact nofun

section
variable {maxQueued : ℕ} {p : Pool Task Server}
theorem Manned.attended (h : Manned maxQueued p) : Attended maxQueued p where
  led n hn := by rw [h.led n, if_pos hn]
  queued n := by
    obtain hlt | hle := Nat.lt_or_ge n p.shared.manager.attempts
    · have hpermits := h.queued.permits n hlt
      omega
    · rw [h.queued.unmade hle]
      exact Nat.zero_le maxQueued
  released rx slots ht hover := by
    obtain ⟨rfl, hlt⟩ := h.queued.joined rx slots ht
    exact Manager.recv_isSome (h.sound.ended rx hlt hover)

theorem Invariant.isolated (h : Invariant maxQueued p) : Isolated p where
  alone j k t u ht hu hspawning hspawning' := by
    have hactive (v : Task) (hv : v.spawning = true) : v.active = true := by
      cases v with
      | leader n phase => cases phase <;> first | rfl | cases hv
      | _ => cases hv
    exact h.leading.alone j k t u ht hu (hactive t hspawning) (hactive u hspawning')
  ready := h.answered.ready
  failed := h.answered.failed
end

def work (events : List (Event Party Bool)) : Pool Task Server :=
  after Party.task (Task.step maxQueued) ⟨[], {}⟩ events

/-- Every attempt has its leader and at most so many waiters, all of whom it answers when
it is over. On a timely run one leader spawns at a time, and what a waiter is told was
reported of its own attempt. -/
theorem attempts_isolated (maxQueued : ℕ) (events : List (Event Party Bool)) :
    Attended maxQueued (work maxQueued events) ∧
      (Meets Party.task (Task.step maxQueued) Timely ⟨[], {}⟩ events →
        Isolated (work maxQueued events)) := by
  have hinitial := initial_invariant maxQueued
  refine ⟨?_, fun hevents => ((kept_invariant maxQueued).after hinitial hevents).isolated⟩
  exact ((kept_manned maxQueued).after hinitial.toManned (meets_always _ events)).attended

instance Mark.About.decidable (n : ℕ) : ∀ mark, Decidable (Mark.About n mark)
  | .ready about => inferInstanceAs (Decidable (about = some n))
  | .failed about => inferInstanceAs (Decidable (about = some n))
  | .reset => .isTrue trivial

instance Timely.decidable : ∀ event p, Decidable (Timely event p)
  | .start _, _ => .isTrue trivial
  | .run k input, p => inferInstanceAs (Decidable (∀ t ∈ p.tasks[k]?, ∀ mark ∈ t.mark? input,
      (∀ n ∈ p.shared.manager.current, mark.About n) ∧
        (mark.isReady = false → p.shared.spawned = [] ∧ ∀ t ∈ p.tasks, t.active = false)))

/-- Two requests wait for one instance; a third finds the queue full. -/
def oneInstance : List (Event Party Bool) :=
  [.start .request, .run 0 true, .run 0 true, .start .request, .run 1 true, .run 1 true,
    .start .request, .run 2 true, .run 2 true, .start .worker, .run 3 true, .run 3 true,
    .run 3 true, .run 3 true, .run 0 true, .run 1 false]

theorem attempts_isolated_oneInstance :
    (work 2 oneInstance).tasks = [.answered .ready (some 0), .answered .timeout (some 0),
        .answered .queueFull none, .leader 0 .led] ∧
      Isolated (work 2 oneInstance) :=
  ⟨by decide +kernel, (attempts_isolated 2 oneInstance).2 (by decide +kernel)⟩

/-- The app is found idle before the leader of its first attempt has allocated an
instance, and the attempt is reset. A second one is made, and the failure of the first
leader ends it. -/
def resetTooEarly : List (Event Party Bool) :=
  [.start .request, .run 0 true, .start (.event .reset), .run 1 true, .start .request,
    .run 2 true, .run 2 true, .start .worker, .run 3 true, .run 3 true, .start .worker,
    .run 4 true, .run 4 true, .run 3 false, .run 3 true, .run 2 true]

theorem two_spawns_and_a_foreign_failure :
    (work 2 (resetTooEarly.take 13)).tasks[3]? = some (.leader 0 .spawning) ∧
      (work 2 (resetTooEarly.take 13)).tasks[4]? = some (.leader 1 .spawning) ∧
      (work 2 resetTooEarly).tasks[2]? = some (.answered .failed (some 1)) ∧
      (work 2 resetTooEarly).tasks[4]? = some (.leader 1 .spawning) ∧
      (.failed (some 1), some 1) ∉ (work 2 resetTooEarly).shared.log ∧
      (.reset, some 1) ∉ (work 2 resetTooEarly).shared.log := by
  decide +kernel

end Tako.ColdStart
