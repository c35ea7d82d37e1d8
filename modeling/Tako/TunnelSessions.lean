import Mathlib.Data.List.Basic

/-! The tunnel of one app in the dev server: `enable_tunnel`, `disable_tunnel`,
`run_tunnel_session` and `unregister_app`, cut where they take the lock or wait. -/
namespace Tako.DevTunnel
inductive TunnelCloseReason
  | user | timeout | shutdown | connectionClosed | connectionError | limitExceeded | replaced
deriving DecidableEq, Repr

/-- The handle is the number of the task that it aborts. -/
structure TunnelRegistration where
  url : String
  expiresAt : ℕ
  abortHandle : ℕ
deriving DecidableEq, Repr

inductive Phase
  | waiting | running | finished
deriving DecidableEq, Repr

/-- The task of a session. It waits for `start_rx` first. -/
structure Session where
  url : String
  phase : Phase := .waiting
  aborted : Bool := false

def Session.active (x : Session) : Bool := x.phase ≠ .finished ∧ x.aborted = false

structure RuntimeApp where
  tunnel : Option TunnelRegistration := none

/-- `enabling` counts the calls of `enable_tunnel` that found no tunnel and have
not recorded theirs yet. -/
structure State where
  app : Option RuntimeApp := none
  enabling : ℕ := 0
  sessions : List Session := []

namespace State
variable (s : State) (k : ℕ)
def tunnel : Option TunnelRegistration := s.app.bind RuntimeApp.tunnel

def handle : Option ℕ := s.tunnel.map TunnelRegistration.abortHandle

def active : Bool := s.sessions[k]?.any Session.active

def live : Bool := s.sessions[k]?.any fun x => x.phase = .running ∧ x.aborted = false

def edit (f : Session → Session) : State := { s with sessions := s.sessions.modify k f }

/-- The first section of `enable_tunnel`. A tunnel that is there is the answer. -/
def beginEnable : State :=
  if s.app.isSome ∧ s.tunnel = none then { s with enabling := s.enabling + 1 } else s

/-- The second one, which does not look for a tunnel again. -/
def registerTunnel (url : String) (expiresAt : ℕ) : State where
  app := s.app.map fun _ => { tunnel := some ⟨url, expiresAt, s.sessions.length⟩ }
  enabling := s.enabling - 1
  sessions := s.sessions ++ [{ url, aborted := s.app.isNone }]

def abortTunnel : State :=
  match s.handle with
  | none => s
  | some k => s.edit k fun x => { x with aborted := true }

def disableTunnel (reason : TunnelCloseReason) : State :=
  { if reason = .user ∨ reason = .shutdown then s.abortTunnel else s with
    app := s.app.map fun _ => {} }

def tunnelIsCurrent (url : String) : Bool := s.tunnel.any (·.url = url)
end State

/-- A session closes when its connection ends for good. It does not wait between
that and `disable_tunnel`, and a task that is aborted stops where it waits. -/
inductive Event
  | beginEnable
  | failEnable
  | registerTunnel (url : String) (expiresAt : ℕ)
  | start (k : ℕ)
  | disable
  | register
  | unregister
  | close (k : ℕ) (reason : TunnelCloseReason)
  | recheck (k : ℕ)
  | stop (k : ℕ)

namespace Event
def step : Event → State → State
  | beginEnable, s => s.beginEnable
  | failEnable, s => { s with enabling := s.enabling - 1 }
  | registerTunnel url expiresAt, s =>
    if s.enabling = 0 then s else s.registerTunnel url expiresAt
  | start k, s => s.edit k fun x =>
    if x.phase = .waiting ∧ x.aborted = false then { x with phase := .running } else x
  | disable, s => s.disableTunnel .user
  | register, s => { s with app := some {} }
  | unregister, s => { s.abortTunnel with app := none }
  | close k reason, s =>
    if s.sessions[k]?.any (·.phase = .running) then
      (s.disableTunnel reason).edit k fun x => { x with phase := .finished }
    else s
  | recheck k, s => s.edit k fun x =>
    if x.phase = .running ∧ ¬s.tunnelIsCurrent x.url then { x with phase := .finished } else x
  | stop k, s => s.edit k fun x => if x.aborted then { x with phase := .finished } else x

/-- A tunnel and an app are recorded only where no tunnel is, and an aborted
session does not get to `disable_tunnel` while one is. -/
def Fits (s : State) : Event → Prop
  | registerTunnel .. | register => s.tunnel = none
  | close k _ => s.tunnel = none ∨ ∀ x ∈ s.sessions[k]?, x.aborted = false
  | _ => True

def session : Event → Option ℕ
  | start k | close k _ | recheck k | stop k => some k
  | _ => none
end Event

def run (s : State) (events : List Event) : State := events.foldl (fun s e => e.step s) s

inductive Reached : State → Prop
  | init : Reached {}
  | step {s : State} {e : Event} : Reached s → e.Fits s → Reached (e.step s)

variable {s : State} {e : Event}
namespace State
/-- Every session that may still run is the one recorded. -/
def Recorded (s : State) : Prop := ∀ k, s.active k → s.handle = some k

variable {k i : ℕ} {f : Session → Session}
theorem active_of_live (h : s.live k) : s.active k := by
  unfold live at h
  unfold active
  cases hx : s.sessions[k]? <;> simp_all [Session.active]

theorem active_of_edit (hf : ∀ x, (f x).active → x.active) (h : (s.edit i f).active k) :
    s.active k := by
  simp only [active, edit, List.getElem?_modify] at h ⊢
  cases hx : s.sessions[k]? <;> grind

theorem not_active_edit (hf : ∀ x, (f x).active = false) : ¬(s.edit k f).active k := by
  simp only [active, edit, List.getElem?_modify]
  cases s.sessions[k]? <;> simp [hf]

theorem active_of_abort (h : s.abortTunnel.active k) : s.active k ∧ s.handle ≠ some k := by
  unfold abortTunnel at h
  split at h
  · simp_all
  · rename_i i hi
    refine ⟨active_of_edit (by simp [Session.active]) h, ?_⟩
    rintro hk
    obtain rfl : i = k := Option.some.inj (hi.symm.trans hk)
    exact not_active_edit (by simp [Session.active]) h

theorem active_of_disable {reason : TunnelCloseReason} (h : (s.disableTunnel reason).active k) :
    s.active k := by
  unfold disableTunnel at h
  split_ifs at h
  · exact (active_of_abort h).1
  · exact h

theorem active_of_step (h : (e.step s).active k) :
    s.active k ∨ s.enabling ≠ 0 ∧ (e.step s).handle = some k := by
  cases e with
  | failEnable | register => exact .inl h
  | beginEnable =>
    simp only [Event.step, beginEnable] at h
    split_ifs at h <;> exact .inl h
  | registerTunnel url expiresAt =>
    simp only [Event.step] at h ⊢
    split_ifs at h ⊢ with h0
    · exact .inl h
    · obtain hk | rfl | hk := Nat.lt_trichotomy k s.sessions.length
      · left
        simpa [active, registerTunnel, List.getElem?_append_left hk] using h
      · right
        cases happ : s.app <;>
          simp_all [active, registerTunnel, handle, tunnel, Session.active]
      · have hnone (x : Session) : (s.sessions ++ [x])[k]? = none := by simp; omega
        simp [active, registerTunnel, hnone] at h
  | disable => exact .inl (active_of_disable h)
  | unregister => exact .inl (active_of_abort h).1
  | start i | recheck i | stop i =>
    refine .inl (active_of_edit (fun x hx => ?_) h)
    split_ifs at hx <;> simp_all [Session.active]
  | close i reason =>
    simp only [Event.step] at h
    split_ifs at h
    · exact .inl (active_of_disable (active_of_edit (by simp [Session.active]) h))
    · exact .inl h
end State

namespace Event
theorem step_enabling (he : e ≠ .beginEnable) (h : s.enabling = 0) :
    (e.step s).enabling = 0 := by
  cases e <;> simp_all [step, State.disableTunnel, State.abortTunnel, State.edit] <;> grind

variable {k : ℕ} (h : s.Recorded) (hfit : e.Fits s)
include h hfit
theorem step_tunnel (he : e.session = some k) :
    (e.step s).tunnel = s.tunnel ∨ s.handle = some k := by
  cases e with
  | start | recheck | stop => exact .inl rfl
  | close i reason =>
    cases he
    simp only [step]
    split_ifs with hrun
    · obtain hn | hrun' := hfit
      · left
        cases happ : s.app <;> simp_all [State.tunnel, State.disableTunnel, State.edit]
      · right
        apply h
        cases hx : s.sessions[k]? <;> simp_all [State.active, Session.active]
    · exact .inl rfl
  | _ => cases he

/-- A session is recorded only where no other is. -/
theorem step_recorded : (e.step s).Recorded := by
  intro k hk
  obtain hbefore | ⟨-, hnew⟩ := State.active_of_step hk
  · have hrec := h k hbefore
    cases e with
    | failEnable | start | recheck | stop => exact hrec
    | beginEnable =>
      simp only [step, State.beginEnable]
      split_ifs <;> exact hrec
    | registerTunnel | register => simp [State.handle, show s.tunnel = none from hfit] at hrec
    | disable | unregister => exact absurd hrec (State.active_of_abort hk).2
    | close i reason =>
      obtain hsame | hown := step_tunnel h hfit (k := i) rfl
      · rwa [State.handle, hsame]
      · obtain rfl : i = k := Option.some.inj (hown.symm.trans hrec)
        simp only [step] at hk ⊢
        split_ifs at hk ⊢
        · exact absurd hk (State.not_active_edit (by simp [Session.active]))
        · exact hrec
  · exact hnew
end Event

theorem Reached.recorded (hs : Reached s) : s.Recorded := by
  induction hs with
  | init => simp [State.Recorded, State.active]
  | step _ hfit ih => exact Event.step_recorded ih hfit

theorem run_quiet {events : List Event} (henabling : s.enabling = 0) (hquiet : ∀ k, ¬s.active k)
    (hlater : ∀ e ∈ events, e ≠ .beginEnable) (k : ℕ) :
    ¬(run s events).active k := by
  induction events generalizing s with
  | nil => exact hquiet k
  | cons e events ih =>
    refine ih ?_ ?_ (fun e he => hlater e (List.mem_cons_of_mem _ he))
    · exact Event.step_enabling (hlater e List.mem_cons_self) henabling
    · intro j hj
      obtain hbefore | ⟨hne, -⟩ := State.active_of_step hj
      · exact hquiet j hbefore
      · exact hne henabling

/-- In every run whose steps all fit: at most one session of the app runs, and it
is the one recorded; a step of a session removes no registration but its own; and
after a disable with no enable in progress no session runs until one is asked for. -/
theorem tunnel_one_session {s : State} (hs : Reached s) :
    (∀ j k, s.live j → s.live k → j = k) ∧ (∀ k, s.live k → s.handle = some k) ∧
    (∀ e k, Event.Fits s e → e.session = some k →
      (e.step s).tunnel = s.tunnel ∨ s.handle = some k) ∧
    ∀ events, s.enabling = 0 → (∀ e ∈ events, e ≠ Event.beginEnable) →
      ∀ k, ¬(run s (.disable :: events)).live k := by
  have h := hs.recorded
  have hrec (k : ℕ) (hk : s.live k) := h k (State.active_of_live hk)
  refine ⟨?_, hrec, ?_, ?_⟩
  · intro j k hj hk
    exact Option.some.inj ((hrec j hj).symm.trans (hrec k hk))
  · intro e k hfit he
    exact Event.step_tunnel h hfit he
  · intro events henabling hlater k hk
    refine run_quiet (Event.step_enabling (e := .disable) nofun henabling) ?_ hlater k
      (State.active_of_live hk)
    intro j hj
    obtain ⟨hactive, hne⟩ := State.active_of_abort hj
    exact hne (h j hactive)

theorem tunnel_one_session_enabled :
    let s := run {} [.register, .beginEnable, .registerTunnel "u" 0, .start 0]
    s.live 0 ∧ ∀ k, s.live k → s.handle = some k :=
  ⟨by decide, (tunnel_one_session (.step (e := .start 0) (.step (e := .registerTunnel "u" 0)
    (.step (e := .beginEnable) (.step (e := .register) .init rfl) trivial) rfl) trivial)).2.1⟩

/-- Two enables overlap and start two sessions. The first one, closed by the service
as replaced, takes the registration of the second, which no disable reaches then. -/
theorem tunnel_overlapping_enables :
    let both := run {} [.register, .beginEnable, .beginEnable, .registerTunnel "u" 0, .start 0,
      .registerTunnel "u" 0, .start 1]
    let later := run both [.close 0 .replaced, .disable]
    both.live 0 ∧ both.live 1 ∧ both.handle = some 1 ∧
      (run both [.close 0 .replaced]).handle = none ∧ later.enabling = 0 ∧ later.live 1 := by
  decide

end Tako.DevTunnel
