import Tako.FairRuns
import Tako.ChannelProgress

/-! On a fair run every message after the captured cursor is delivered, unless a reset or a stale
cursor closes the stream. -/
namespace Tako.Channel
open Execution StreamLog List
namespace Delivery
variable {E : Crates} {conn : Connection} {log : List (DurableMessage E)} {e : DurableMessage E}
  {r : ℕ}

/-- What the scheduler, the network and the publishers owe a subscriber that
stays connected: it gets to run, `select!` does not pass over a branch that is
ready again and again, and whoever commits notifies in the end. -/
structure Fair (state : ℕ → Delivery E) (run : ℕ → DeliveryStep E) : Prop where
  stays : ∀ n, run n ≠ .hangUp
  runs : ∀ n, ∃ m, n ≤ m ∧ ∃ now, run m = .run now
  announces : ∀ n, ∀ p ∈ (state n).unannounced, ∃ m, n ≤ m ∧ p ∉ (state m).unannounced
  selects : ∀ n, (∀ m, n ≤ m → ∃ k, m ≤ k ∧ (state k).phase = .asleep ∧ (state k).changesReady) →
    ∃ m, n ≤ m ∧ (state m).phase = .asleep ∧ (state m).changesReady ∧ run m = .changed

variable {run : ℕ → DeliveryStep E}
section
variable {state : ℕ → Delivery E} (hnext : ∀ n, state (n + 1) = (state n).exec conn (run n))
  (hinv : ∀ n, Invariant conn (state n)) (hexact : ∀ n, Exact conn (state n))
  (hfair : Fair state run)

include hnext hinv hexact hfair
variable {n : ℕ}
theorem asleep_of_idle (hidle : ∀ k, n ≤ k → Awaits conn log e r (state k) ∧ Idle (state k).phase)
    {m : ℕ} (hm : n ≤ m) : ∃ k, m ≤ k ∧ (state k).phase = .asleep := by
  by_contra hnever
  have hawake (k : ℕ) (hk : m ≤ k) : (state k).phase ≠ .asleep := fun h => hnever ⟨k, hk, h⟩
  -- awake and idle, each run takes it closer to sleep
  have hcloser (k : ℕ) (hk : m ≤ k) :
      distance (state (k + 1)).phase ≤ distance (state k).phase ∧
        ((∃ now, run k = .run now) →
          distance (state (k + 1)).phase < distance (state k).phase) := by
    obtain ⟨haw, hidle_k⟩ := hidle k (hm.trans hk)
    have hidle_next := (hidle (k + 1) (by omega)).2
    have hnot_closed : ¬Dismissed (state (k + 1)).phase := by
      rintro (hclosed | hclosed) <;>
      · rw [hclosed] at hidle_next
        exact hidle_next
    rw [hnext k] at hidle_next hnot_closed ⊢
    refine ⟨?_, ?_⟩
    · obtain hclosed | ⟨_, hreads | ⟨_, _, hasleep | hle⟩⟩ :=
        (acts_exec conn _ _).idle (hinv k) (hexact k) haw hidle_k (hfair.stays k)
      · exact absurd hclosed hnot_closed
      · exact absurd hidle_next hreads
      · exact absurd hasleep (hawake k hk)
      · exact hle
    · rintro ⟨now, hrun⟩
      rw [hrun] at hidle_next hnot_closed ⊢
      have hloop : LoopStep conn (state k) ((state k).exec conn (.run now)) :=
        loopStep_run (hinv k) (hexact k) hidle_k.looping now
      obtain hclosed | ⟨_, hreads | ⟨_, _, _, hasleep | hlt⟩⟩ := progress_idle haw hidle_k hloop
      · exact absurd hclosed hnot_closed
      · exact absurd hidle_next hreads
      · exact absurd hasleep (hawake k hk)
      · exact hlt
  have hsleeps : Execution.LeadsTo (fun k => m ≤ k) (fun _ => False) := by
    apply Execution.LeadsTo.of_measure (μ := fun k => distance (state k).phase) hfair.runs
    · intro k hk
      exact .inr ⟨Nat.le_succ_of_le hk, (hcloser k hk).1⟩
    · intro k hk hrun
      exact .inr ⟨Nat.le_succ_of_le hk, (hcloser k hk).2 hrun⟩
  obtain ⟨_, _, hfalse⟩ := hsleeps m (le_refl m)
  exact hfalse

/-- A subscriber with a message to come does not stay idle. -/
theorem idle_leadsTo (he : e ∈ log) (hchannel : e.channel = conn.channel) :
    Execution.LeadsTo (fun n => Awaits conn log e r (state n) ∧ Idle (state n).phase)
      (fun n => Answered e (state n) ∨
        (Awaits conn log e r (state n) ∧ ¬Idle (state n).phase)) := by
  intro n ⟨hw, hidle⟩
  by_contra hnever
  have hnot (m : ℕ) (hm : n ≤ m) : ¬Answered e (state m) ∧
      ¬(Awaits conn log e r (state m) ∧ ¬Idle (state m).phase) :=
    not_or.mp fun h => hnever ⟨m, hm, h⟩
  have hstep (m : ℕ) (hm : n ≤ m) (haw : Awaits conn log e r (state m) ∧ Idle (state m).phase) :
      (Awaits conn log e r (state (m + 1)) ∧ Idle (state (m + 1)).phase) ∧
        ((state m).changesReady = true → (state (m + 1)).changesReady = true) := by
    have hlater := hnot (m + 1) (by omega)
    rw [hnext m] at hlater ⊢
    obtain hclosed | ⟨haw', hreads | ⟨hidle', hready, _⟩⟩ :=
      (acts_exec conn _ _).idle (hinv m) (hexact m) haw.1 haw.2 (hfair.stays m)
    · exact absurd (.inr hclosed) hlater.1
    · exact absurd ⟨haw', hreads⟩ hlater.2
    · exact ⟨⟨haw', hidle'⟩, hready⟩
  -- so it stays idle
  have hstays (m : ℕ) (hm : n ≤ m) : Awaits conn log e r (state m) ∧ Idle (state m).phase := by
    induction m, hm using Nat.le_induction with
    | base => exact ⟨hw, hidle⟩
    | succ m hm ih => exact (hstep m hm ih).1
  -- from the announcement on a wake-up is pending
  obtain ⟨m, hm, hannounced⟩ : ∃ m, n ≤ m ∧ e.position ∉ (state m).unannounced := by
    by_cases hmem : e.position ∈ (state n).unannounced
    · exact hfair.announces n _ hmem
    · exact ⟨n, le_refl n, hmem⟩
  have hready (k : ℕ) (hk : m ≤ k) : (state k).changesReady = true := by
    induction k, hk using Nat.le_induction with
    | base =>
      obtain ⟨haw, hidle⟩ := hstays m hm
      exact ready_of_announced (hidle.covered (hinv m).settled) (haw.mem_ahead he hchannel)
        hannounced
    | succ k hk ih => exact (hstep k (hm.trans hk) (hstays k (hm.trans hk))).2 ih
  -- so its branch is taken, and the subscriber reads
  obtain ⟨k, hk, hasleep, hk_ready, hchanged⟩ := hfair.selects m fun k hk => by
    obtain ⟨k', hk', hasleep⟩ := asleep_of_idle hnext hinv hexact hfair hstays (hm.trans hk)
    exact ⟨k', hk', hasleep, hready k' (hk.trans hk')⟩
  have hidle' := (hstays (k + 1) (by omega)).2
  rw [hnext k, hchanged] at hidle'
  have htop : ((state k).exec conn .changed).phase = .top true := by
    show (state k).changed.phase = .top true
    rw [changed, if_pos ⟨hasleep, hk_ready⟩]
  rw [htop] at hidle'
  exact hidle'

variable {c : Capture}
theorem reading_leadsTo (he : e ∈ log) (hchannel : e.channel = conn.channel)
    (hlt : c.position < e.position) (hc : ∀ k, n ≤ k → c ∈ (state k).captured) :
    Execution.LeadsTo (fun k => n ≤ k ∧ Awaits conn log e r (state k) ∧ ¬Idle (state k).phase)
      (fun k => Answered e (state k) ∨ ∃ r' < r, Awaits conn log e r' (state k)) := by
  have hstep (k : ℕ) (hk : n ≤ k) (haw : Awaits conn log e r (state k))
      (hreads : ¬Idle (state k).phase) :
      (Answered e (state (k + 1)) ∨ ∃ r' < r, Awaits conn log e r' (state (k + 1))) ∨
        (Awaits conn log e r (state (k + 1)) ∧ ¬Idle (state (k + 1)).phase) ∧
          distance (state (k + 1)).phase ≤ distance (state k).phase ∧
          ((∃ now, run k = .run now) →
            distance (state (k + 1)).phase < distance (state k).phase) := by
    have hcaptured := hc (k + 1) (Nat.le_succ_of_le hk)
    rw [hnext k] at hcaptured ⊢
    obtain hanswered | hcloser | ⟨haw', hreads', hdistance⟩ :=
      (acts_exec conn _ _).reading (hinv k) (hexact k) haw he hchannel hreads hcaptured hlt
        (hfair.stays k)
    · exact .inl (.inl hanswered)
    · exact .inl (.inr hcloser)
    · exact .inr ⟨⟨haw', hreads'⟩, hdistance⟩
  apply Execution.LeadsTo.of_measure (μ := fun k => distance (state k).phase) hfair.runs
  · intro k ⟨hk, haw, hreads⟩
    obtain hgoal | ⟨hkeep, hle, _⟩ := hstep k hk haw hreads
    · exact .inl hgoal
    · exact .inr ⟨⟨Nat.le_succ_of_le hk, hkeep⟩, hle⟩
  · intro k ⟨hk, haw, hreads⟩ hrun
    obtain hgoal | ⟨hkeep, _, hdistance⟩ := hstep k hk haw hreads
    · exact .inl hgoal
    · exact .inr ⟨⟨Nat.le_succ_of_le hk, hkeep⟩, hdistance hrun⟩

/-- By induction on the messages in between: each round of sleeping and reading
delivers one of them. -/
theorem awaits_leadsTo (he : e ∈ log) (hchannel : e.channel = conn.channel)
    (hlt : c.position < e.position) (hc : ∀ k, n ≤ k → c ∈ (state k).captured) :
    ∀ k, n ≤ k → Awaits conn log e r (state k) → ∃ m, k ≤ m ∧ Answered e (state m) := by
  induction r using Nat.strongRecOn with
  | ind r ih =>
    have hreads (k : ℕ) (hk : n ≤ k) (haw : Awaits conn log e r (state k))
        (hidle : ¬Idle (state k).phase) : ∃ m, k ≤ m ∧ Answered e (state m) := by
      obtain ⟨m, hm, hanswered | ⟨r', hr', haw'⟩⟩ :=
        reading_leadsTo hnext hinv hexact hfair he hchannel hlt hc k ⟨hk, haw, hidle⟩
      · exact ⟨m, hm, hanswered⟩
      · obtain ⟨m', hm', hanswered⟩ := ih r' hr' m (hk.trans hm) haw'
        exact ⟨m', hm.trans hm', hanswered⟩
    intro k hk haw
    by_cases hidle : Idle (state k).phase
    · obtain ⟨m, hm, hanswered | ⟨haw', hidle'⟩⟩ :=
        idle_leadsTo hnext hinv hexact hfair he hchannel k ⟨haw, hidle⟩
      · exact ⟨m, hm, hanswered⟩
      · obtain ⟨m', hm', hanswered⟩ := hreads m (hk.trans hm) haw' hidle'
        exact ⟨m', hm.trans hm', hanswered⟩
    · exact hreads k hk haw hidle

theorem answered_of_fair (hattended : ∀ k, Attended (state k)) (hc : c ∈ (state n).captured)
    (he : e ∈ (state n).committed) (hchannel : e.channel = conn.channel)
    (hlt : c.position < e.position) : ∃ m, n ≤ m ∧ Answered e (state m) := by
  have hcaptured (k : ℕ) (hk : n ≤ k) : c ∈ (state k).captured := by
    induction k, hk using Nat.le_induction with
    | base => exact hc
    | succ k _ ih =>
      rw [hnext k]
      exact (acts_exec conn _ _).captured (hattended k) ih
  obtain hlooping | hclosed := hattended n (Option.ne_none_iff_exists'.mpr ⟨c, hc⟩)
  · obtain hdelivered | hcursor := delivered_or_ahead (hinv n) hc he hchannel hlt
    · exact ⟨n, le_refl n, .inl hdelivered⟩
    · exact awaits_leadsTo hnext hinv hexact hfair he hchannel hlt hcaptured n (le_refl n)
        ⟨hlooping, prefix_rfl, hcursor, le_refl _⟩
  · exact ⟨n, le_refl n, .inr hclosed⟩
end

/-- The head in the watch never decreases while its entry exists, and the entry
stays as long as the subscriber has a receiver. -/
def HeadGrows (d d' : Delivery E) : Prop :=
  ∀ w, d.changes = some w → (d'.changes = none ∧ d.phase.holdsChanges = false) ∨
    ∃ w', d'.changes = some w' ∧ ∀ v ∈ w.value, ∃ v' ∈ w'.value, v ≤ v'

/-- A sleeping subscriber with an announced message ahead has a wake-up pending.
Messages are delivered in order and without a gap from the captured cursor on,
after which every later commit lies, and on a fair run each of them is delivered
unless the stream is closed by a reset or a stale cursor. -/
structure NoLostWakeup (conn : Connection) (state : ℕ → Delivery E) (run : ℕ → DeliveryStep E) :
    Prop where
  wakeup : ∀ n, ∀ e ∈ (state n).committed, (state n).phase = .asleep → e.channel = conn.channel →
    cursorPosition (state n).after < e.position → e.position ∉ (state n).unannounced →
    (state n).changesReady = true
  inOrder : ∀ n, ∀ c ∈ (state n).captured, ∃ shown rest,
    (durableCoordinates E).since (state n).committed conn.channel c.position = shown ++ rest ∧
      List.Forall₂ Shows (state n).delivered shown
  later : ∀ n, ∀ c ∈ (state n).captured, ∀ e ∈ (state n).committed.drop c.commits,
    c.position < e.position
  answered : Fair state run → ∀ n, ∀ c ∈ (state n).captured, ∀ e ∈ (state n).committed,
    e.channel = conn.channel → c.position < e.position → ∃ m, n ≤ m ∧ Answered e (state m)

inductive Opened : ChannelStoreBackend → Prop
  | sqlite {limits : Option SqliteReplayLimits} {now : UnixMs} {epoch : Bytes16}
      {store : SqliteChannelStore}
      (h : SqliteChannelStore.openFile none limits now epoch = .ok store) : Opened (.sqlite store)
  | postgres (appId : String) : Opened (.postgres appId .empty)

theorem invariant_opened {backend : ChannelStoreBackend} (h : Opened backend) :
    Invariant conn (opened (E := E) backend) where
  backs := by
    cases h with
    | @sqlite _ _ _ store h =>
      have hholds : Holds store.db ([] : List (CommittedMessage E)) :=
        (extends_openFile h).holds [] (SqliteChannelStore.holds_created _)
      exact .sqlite hholds nofun
    | postgres =>
      have hholds : PostgresHolds (E := E) .empty [] := PostgresHolds.empty
      exact .postgres hholds
  head w hw := by cases hw
  seen hholds := by cases hholds
  cursor := backend.last_nonneg
  looping := False.elim
  follows c hc := by cases hc
  fresh _ := rfl
  settled := trivial

def DeliveryStep.Prunes : DeliveryStep E → Prop
  | .store (.postgres (.prune _)) => True
  | _ => False

theorem Acts.backend {step : DeliveryStep E} {d d' : Delivery E} (hacts : Acts conn d step d')
    (hstep : ∀ call, step ≠ .store call) : d'.backend = d.backend := by
  cases hacts with
  | store call => exact absurd rfl (hstep call)
  | run now => exact (run_frame conn d now).1
  | _ => rfl

theorem exact_of_no_prune {backend : ChannelStoreBackend} (h : Opened backend)
    (hrun : ∀ n, ¬DeliveryStep.Prunes (run n)) (n : ℕ) :
    Exact conn (states (exec conn) (opened backend) run n) := by
  have hunpruned : ∀ after, (states (exec conn) (opened backend) run n).backend.Unpruned
      conn.channel after := by
    apply states_induction (exec conn)
      (P := fun d => ∀ after, d.backend.Unpruned conn.channel after)
    · intro after
      cases h with
      | sqlite => trivial
      | postgres => exact fun _ => rfl
    · intro k hk after
      by_cases hstore : ∃ call, run k = .store call
      · obtain ⟨call, hstep⟩ := hstore
        have hcall (now : ℤ) : call ≠ .postgres (.prune now) := by
          intro hcall'
          rw [hcall'] at hstep
          exact hrun k (by rw [hstep]; trivial)
        rw [hstep]
        exact (hk after).exec hcall
      · rw [(acts_exec conn _ _).backend (fun call h => hstore ⟨call, h⟩)]
        exact hk after
  exact fun _ => hunpruned _

/-- All of it, as long as no read without a cursor comes after a prune of the channel. -/
theorem noLostWakeup_of_exact {backend : ChannelStoreBackend} (h : Opened backend)
    (hexact : ∀ n, Exact conn (states (exec conn) (opened backend) run n)) :
    NoLostWakeup conn (states (exec conn) (opened backend) run) run := by
  have hinv : ∀ n, Invariant conn (states (exec conn) (opened backend) run n) :=
    states_induction (exec conn) (invariant_opened h)
      fun n hn => invariant_exec hn (hexact n) (run n)
  refine ⟨?_, ?_, ?_, ?_⟩
  · intro n e he hasleep hchannel hlt hannounced
    have hcovered := (hinv n).settled
    rw [hasleep] at hcovered
    exact ready_of_announced hcovered (Coordinates.mem_since.mpr ⟨he, hchannel, hlt⟩) hannounced
  · intro n c hc
    obtain ⟨shown, hsince, hshows⟩ := ((hinv n).follows c hc).shown
    exact ⟨shown, _, hsince, hshows⟩
  · intro n c hc
    exact ((hinv n).follows c hc).later
  · intro hfair n c hc e he hchannel hlt
    have hattended : ∀ k, Attended (states (exec conn) (opened backend) run k) := by
      intro k
      induction k with
      | zero => exact absurd rfl
      | succ k ih => exact (acts_exec conn _ _).attended (hinv k) (hexact k) ih (hfair.stays k)
    exact answered_of_fair (fun _ => rfl) hinv hexact hfair hattended hc he hchannel hlt

/-- On every run of the subscriber and any number of publishers. A store that deletes
old messages is not among them: on PostgreSQL a subscriber that has captured no cursor
reads on behind what a prune deleted before its first read, and is not told. -/
theorem no_lost_wakeup (conn : Connection) {backend : ChannelStoreBackend} (h : Opened backend)
    (run : ℕ → DeliveryStep E) :
    (∀ n, HeadGrows (Execution.states (exec conn) (opened backend) run n)
      (Execution.states (exec conn) (opened backend) run (n + 1))) ∧
    ((∀ n, ¬DeliveryStep.Prunes (run n)) →
      NoLostWakeup conn (Execution.states (exec conn) (opened backend) run) run) := by
  refine ⟨?_, ?_⟩
  · intro n w hw
    obtain hdropped | ⟨w', hw', _, hgrows⟩ := (acts_exec conn _ (run n)).changes hw
    · exact .inl hdropped
    · exact .inr ⟨w', hw', hgrows⟩
  · intro hrun
    exact noLostWakeup_of_exact h (exact_of_no_prune h hrun)

def thenQuiet (steps : List (DeliveryStep E)) (n : ℕ) : DeliveryStep E :=
  steps[n]?.getD (.run .epoch)

variable {steps : List (DeliveryStep E)}
theorem forall_thenQuiet {P : DeliveryStep E → Prop} (hsteps : ∀ step ∈ steps, P step)
    (hrun : P (.run .epoch)) (n : ℕ) : P (thenQuiet steps n) := by
  unfold thenQuiet
  by_cases hn : n < steps.length
  · rw [getElem?_eq_getElem hn]
    exact hsteps _ (getElem_mem hn)
  · rw [getElem?_eq_none (not_lt.mp hn)]
    exact hrun

section
variable {start : Delivery E} {n : ℕ} (hsteps : steps.length ≤ n)
  (hasleep : (Execution.states (exec conn) start (thenQuiet steps) n).phase = .asleep)

include hsteps hasleep
theorem states_thenQuiet {m : ℕ} (hm : n ≤ m) : states (exec conn) start (thenQuiet steps) m =
      states (exec conn) start (thenQuiet steps) n := by
  apply states_of_fixed (exec conn) rfl _ hm
  intro k hk
  have hquiet : thenQuiet steps k = .run .epoch := by
    rw [thenQuiet, getElem?_eq_none (hsteps.trans hk), Option.getD_none]
  rw [hquiet]
  show run conn .epoch _ = _
  rw [run, hasleep]

theorem fair_thenQuiet (hstays : ∀ step ∈ steps, step ≠ .hangUp)
    (hannounced : (states (exec conn) start (thenQuiet steps) n).unannounced = [])
    (hready : (states (exec conn) start (thenQuiet steps) n).changesReady = false) :
    Fair (states (exec conn) start (thenQuiet steps)) (thenQuiet steps) where
  stays := forall_thenQuiet hstays nofun
  runs k := by
    refine ⟨k + steps.length, Nat.le_add_right _ _, .epoch, ?_⟩
    rw [thenQuiet, getElem?_eq_none (Nat.le_add_left _ _), Option.getD_none]
  announces k p _ := by
    refine ⟨k + n, Nat.le_add_right _ _, ?_⟩
    rw [states_thenQuiet hsteps hasleep (Nat.le_add_left n k), hannounced]
    exact not_mem_nil
  selects k hagain := by
    -- from the end of the steps on the branch is never ready
    obtain ⟨_, _, _, hready'⟩ := hagain (k + n) (Nat.le_add_right _ _)
    rw [states_thenQuiet hsteps hasleep (by omega), hready] at hready'
    cases hready'
end

def room : Connection := ⟨.sse, "room", none⟩

def roomStore : Delivery Crates.literals := opened (.postgres "app" .empty)

/-- The subscriber of a new channel reads nothing and sleeps. A note is committed
and announced, and the subscriber is woken. -/
def noteWhileAsleep : List (DeliveryStep Crates.literals) :=
  List.replicate 8 (.run .epoch) ++ [.store (.postgres (noteAt 0)), .notify 1, .changed]

theorem no_lost_wakeup_noteWhileAsleep :
    (∀ n, ¬DeliveryStep.Prunes (thenQuiet noteWhileAsleep n)) ∧
      Fair (Execution.states (exec room) roomStore (thenQuiet noteWhileAsleep))
        (thenQuiet noteWhileAsleep) ∧
      NoLostWakeup room (Execution.states (exec room) roomStore (thenQuiet noteWhileAsleep))
        (thenQuiet noteWhileAsleep) := by
  have hasleep : (states (exec room) roomStore (thenQuiet noteWhileAsleep) 17).phase =
      .asleep := by decide +kernel
  have hsteps : ∀ step ∈ noteWhileAsleep, step ≠ .hangUp ∧ ¬DeliveryStep.Prunes step := by
    intro step hstep
    simp only [noteWhileAsleep, mem_append, mem_replicate, mem_cons,
      not_mem_nil, or_false] at hstep
    obtain ⟨_, rfl⟩ | rfl | rfl | rfl := hstep <;> exact ⟨nofun, id⟩
  have hrun : ∀ n, ¬DeliveryStep.Prunes (thenQuiet noteWhileAsleep n) :=
    forall_thenQuiet (fun step h => (hsteps step h).2) id
  refine ⟨hrun, ?_, (no_lost_wakeup room (.postgres "app") (thenQuiet noteWhileAsleep)).2 hrun⟩
  apply fair_thenQuiet (by decide) hasleep (fun step h => (hsteps step h).1)
  · decide +kernel
  · decide +kernel
end Delivery
end Tako.Channel
