import Tako.ChannelDelivery

/-! No wake-up is lost between a commit and a sleeping subscriber, which marks the watch as seen
before it reads. -/
namespace Tako.Channel
open StreamLog List Option
namespace Delivery
variable {E : Crates} {conn : Connection} {d d' : Delivery E}
def ahead (conn : Connection) (d : Delivery E) : List (DurableMessage E) :=
  (durableCoordinates E).since d.committed conn.channel (cursorPosition d.after)

/-- Unless a wake-up is pending, nothing behind the next `n` messages has been
announced, and the head in the watch is none of it. -/
def Covered (conn : Connection) (d : Delivery E) (n : ℕ) : Prop :=
  d.changesReady = false → ∀ e ∈ (d.ahead conn).drop n,
    e.position ∈ d.unannounced ∧ ∀ w ∈ d.changes, ∀ v ∈ w.value, v < e.position

def Paged (conn : Connection) (d : Delivery E) (ms : List (ChannelMessage E)) : Prop :=
  List.Forall₂ Shows ms ((d.ahead conn).take ms.length)

def Settled (conn : Connection) (d : Delivery E) : Phase E → Prop
  | .page ms => Paged conn d ms ∧ (ms.length ≠ 100 → Covered conn d ms.length)
  | .deliver full ms => Paged conn d ms ∧ (full = false → Covered conn d ms.length)
  | .top false => Covered conn d 0
  | .asleep => Covered conn d 0
  | _ => True

structure Follows (conn : Connection) (d : Delivery E) (c : Capture) : Prop where
  le_last : c.position ≤ d.backend.last
  commits : c.commits ≤ d.committed.length
  later : ∀ e ∈ d.committed.drop c.commits, c.position < e.position
  shown : ∃ shown, (durableCoordinates E).since d.committed conn.channel c.position =
    shown ++ d.ahead conn ∧ List.Forall₂ Shows d.delivered shown

def Looping : Phase E → Prop
  | .connecting | .subscribing | .capturing | .closed _ => False
  | _ => True

def Starting : Phase E → Prop
  | .connecting | .subscribing | .capturing => True
  | _ => False

structure Invariant (conn : Connection) (d : Delivery E) : Prop where
  backs : d.backend.Backs d.committed
  head : ∀ w ∈ d.changes, ∀ v ∈ w.value,
    ∃ e ∈ d.committed, e.channel = conn.channel ∧ e.position = v
  seen : d.phase.holdsChanges → ∃ w ∈ d.changes, d.seenChanges ≤ w.version
  cursor : cursorPosition d.after ≤ d.backend.last
  looping : Looping d.phase → d.captured ≠ none ∧ d.backend.Readable conn.channel d.after
  follows : ∀ c ∈ d.captured, Follows conn d c
  fresh : Starting d.phase → d.delivered = []
  settled : Settled conn d d.phase

/-- A read without a cursor comes before anything of the channel is pruned. -/
def Exact (conn : Connection) (d : Delivery E) : Prop :=
  d.phase = .reading → d.backend.Unpruned conn.channel d.after

variable {p : Phase E}
theorem Looping.holdsChanges (h : Looping p) : p.holdsChanges := by
  cases p with
  | connecting | subscribing | closed => exact False.elim h
  | _ => rfl

theorem looping_of_holdsChanges (h : p.holdsChanges) (hp : ¬Starting p) : Looping p := by
  cases p with
  | connecting | subscribing | closed => cases h
  | capturing => exact absurd trivial hp
  | _ => trivial

structure Keeps (conn : Connection) (d d' : Delivery E) : Prop where
  ahead : ∃ more, d'.ahead conn = d.ahead conn ++ more
  covered : ∀ n, n ≤ (d.ahead conn).length → Covered conn d n → Covered conn d' n

variable {ms : List (ChannelMessage E)}
theorem Paged.length_le (h : Paged conn d ms) : ms.length ≤ (d.ahead conn).length := by
  have hlength := h.length_eq
  rw [length_take] at hlength
  omega

theorem Keeps.paged (hk : Keeps conn d d') (h : Paged conn d ms) : Paged conn d' ms := by
  obtain ⟨_, hmore⟩ := hk.ahead
  unfold Paged
  rw [hmore, take_append_of_le_length h.length_le]
  exact h

theorem Settled.keep (h : Settled conn d p) (hk : p.holdsChanges → Keeps conn d d') :
    Settled conn d' p := by
  cases p with
  | page =>
    have hk := hk rfl
    exact ⟨hk.paged h.1, fun hms => hk.covered _ h.1.length_le (h.2 hms)⟩
  | deliver =>
    have hk := hk rfl
    exact ⟨hk.paged h.1, fun hfull => hk.covered _ h.1.length_le (h.2 hfull)⟩
  | top readReplay =>
    cases readReplay with
    | false => exact (hk rfl).covered 0 (Nat.zero_le _) h
    | true => trivial
  | asleep => exact (hk rfl).covered 0 (Nat.zero_le _) h
  | connecting | subscribing | capturing | marking | reading | closed => trivial

theorem since_storeCall {position : ℤ} (hle : position ≤ d.backend.last) (call : StoreCall E) :
    (durableCoordinates E).since (d.storeCall conn call).committed conn.channel position =
      (durableCoordinates E).since d.committed conn.channel position ++
        (d.backend.exec E call).1.filter (fun e => e.channel = conn.channel) := by
  show (durableCoordinates E).since (d.committed ++ (d.backend.exec E call).1) _ _ = _
  rw [Coordinates.since_append]
  congr 1
  apply Coordinates.since_eq_stream
  intro e he
  exact hle.trans_lt (ChannelStoreBackend.later_exec call d.backend he)

section
variable (h : Invariant conn d)
include h
theorem ahead_storeCall (call : StoreCall E) : (d.storeCall conn call).ahead conn =
      d.ahead conn ++ (d.backend.exec E call).1.filter (fun e => e.channel = conn.channel) :=
  since_storeCall h.cursor call

theorem keeps_storeCall (call : StoreCall E) : Keeps conn d (d.storeCall conn call) := by
  have hahead := ahead_storeCall h call
  refine ⟨⟨_, hahead⟩, ?_⟩
  intro n hn hcovered hready e he
  rw [hahead, drop_append_of_le_length hn] at he
  obtain he | he := mem_append.mp he
  · obtain ⟨hmem, hlt⟩ := hcovered hready e he
    exact ⟨mem_append_left _ hmem, hlt⟩
  · refine ⟨mem_append_right _ (mem_map_of_mem he), ?_⟩
    intro w hw v hv
    obtain ⟨_, he', _, rfl⟩ := h.head w hw v hv
    exact (h.backs.le_last he').trans_lt
      (ChannelStoreBackend.later_exec call d.backend (mem_filter.mp he).1)

theorem follows_storeCall {c : Capture} (hc : Follows conn d c) (call : StoreCall E) :
    Follows conn (d.storeCall conn call) c where
  le_last := hc.le_last.trans (ChannelStoreBackend.last_le_exec call d.backend)
  commits := by
    show c.commits ≤ (d.committed ++ (d.backend.exec E call).1).length
    have hle := hc.commits
    rw [length_append]
    omega
  later e he := by
    replace he : e ∈ (d.committed ++ (d.backend.exec E call).1).drop c.commits := he
    rw [drop_append_of_le_length hc.commits] at he
    obtain he | he := mem_append.mp he
    · exact hc.later e he
    · exact hc.le_last.trans_lt (ChannelStoreBackend.later_exec call d.backend he)
  shown := by
    obtain ⟨shown, hsince, hshows⟩ := hc.shown
    refine ⟨shown, ?_, hshows⟩
    rw [ahead_storeCall h, ← append_assoc, ← hsince]
    exact since_storeCall hc.le_last call

theorem invariant_storeCall (call : StoreCall E) : Invariant conn (d.storeCall conn call) where
  __ := h
  backs := h.backs.exec call
  head w hw v hv := by
    obtain ⟨e, he, hv⟩ := h.head w hw v hv
    exact ⟨e, mem_append_left _ he, hv⟩
  cursor := h.cursor.trans (ChannelStoreBackend.last_le_exec call d.backend)
  looping hloop := ⟨(h.looping hloop).1, (h.looping hloop).2.exec call⟩
  follows c hc := follows_storeCall h (h.follows c hc) call
  settled := h.settled.keep fun _ => keeps_storeCall h call
end

theorem notifyCommitted_cases (w : Watch (Option ℤ)) (latest : ℤ) :
    (notifyCommitted w latest = ⟨some latest, w.version + 1⟩ ∧ ∀ v ∈ w.value, v < latest) ∨
      (notifyCommitted w latest = w ∧ ∃ v ∈ w.value, latest ≤ v) := by
  unfold notifyCommitted Watch.sendIfModified
  obtain ⟨value, _⟩ := w
  cases value with
  | none => exact .inl ⟨rfl, nofun⟩
  | some previous =>
    by_cases hlt : previous < latest
    · left
      refine ⟨by simp [hlt], ?_⟩
      intro v hv
      rw [← mem_some_iff.mp hv]
      exact hlt
    · right
      exact ⟨by simp [hlt], previous, rfl, not_lt.mp hlt⟩

theorem changesReady_eq {w : Watch (Option ℤ)} (hw : d.changes = some w) :
    d.changesReady = decide (w.version ≠ d.seenChanges) := by
  rw [changesReady, hw, all_some]

/-- How another party replaces the watch of the channel and what is left to
announce. An entry is dropped only when nobody listens to it. -/
inductive Tells (conn : Connection) (d : Delivery E) : Option (Watch (Option ℤ)) → List ℤ → Prop
  | nothing : Tells conn d d.changes d.unannounced
  | head {latest : ℤ} (h : ∃ e ∈ d.committed, e.channel = conn.channel ∧ e.position = latest) :
      Tells conn d (d.changes.map (fun w => notifyCommitted w latest))
        (d.unannounced.filter (fun p => latest < p))
  | hint : Tells conn d (d.changes.map (fun w => w.sendModify id)) []
  | listener : Tells conn d (some d.changesEntry) d.unannounced
  | dropped (h : d.phase.holdsChanges = false) : Tells conn d none d.unannounced

namespace Tells
variable {changes : Option (Watch (Option ℤ))} {unannounced : List ℤ}
  (ht : Tells conn d changes unannounced)

include ht
theorem forward {w : Watch (Option ℤ)} (hw : d.changes = some w) :
    (changes = none ∧ d.phase.holdsChanges = false) ∨
      ∃ w', changes = some w' ∧ w.version ≤ w'.version ∧ (∀ v ∈ w.value, ∃ v' ∈ w'.value, v ≤ v') ∧
        (w.version = w'.version → w' = w ∧
          ∀ p ∈ d.unannounced, (∀ v ∈ w.value, v < p) → p ∈ unannounced) := by
  have hvalue : ∀ v ∈ w.value, ∃ v' ∈ w.value, v ≤ v' := fun v hv => ⟨v, hv, le_refl v⟩
  cases ht with
  | nothing => exact .inr ⟨w, hw, le_refl _, hvalue, fun _ => ⟨rfl, fun p hp _ => hp⟩⟩
  | @head latest _ =>
    rw [hw, map_some]
    refine .inr ⟨_, rfl, ?_⟩
    obtain ⟨hnew, hlt⟩ | ⟨hsame, v, hv, _⟩ := notifyCommitted_cases w latest
    · rw [hnew]
      exact ⟨Nat.le_succ _, fun v hv => ⟨latest, rfl, (hlt v hv).le⟩,
        fun hversion => absurd hversion (Nat.succ_ne_self _).symm⟩
    · rw [hsame]
      refine ⟨le_refl _, hvalue, fun _ => ⟨rfl, ?_⟩⟩
      -- what lies above the head that is kept is not covered by a smaller one
      intro p hp hlt
      have hvp := hlt v hv
      exact mem_filter.mpr ⟨hp, by simp; omega⟩
  | hint =>
    rw [hw, map_some]
    exact .inr ⟨_, rfl, Nat.le_succ _, hvalue,
      fun hversion => absurd hversion (Nat.succ_ne_self _).symm⟩
  | listener =>
    rw [changesEntry, hw]
    exact .inr ⟨w, rfl, le_refl _, hvalue, fun _ => ⟨rfl, fun p hp _ => hp⟩⟩
  | dropped h => exact .inl ⟨rfl, h⟩

theorem head_committed (h : ∀ w ∈ d.changes, ∀ v ∈ w.value,
      ∃ e ∈ d.committed, e.channel = conn.channel ∧ e.position = v) :
    ∀ w ∈ changes, ∀ v ∈ w.value, ∃ e ∈ d.committed, e.channel = conn.channel ∧ e.position = v := by
  intro w hw v hv
  cases ht with
  | nothing => exact h w hw v hv
  | @head latest hcommitted =>
    obtain ⟨w₀, hw₀, rfl⟩ := mem_map.mp hw
    obtain ⟨hnew, _⟩ | ⟨hsame, _⟩ := notifyCommitted_cases w₀ latest
    · rw [hnew] at hv
      rw [← mem_some_iff.mp hv]
      exact hcommitted
    · rw [hsame] at hv
      exact h w₀ hw₀ v hv
  | hint =>
    obtain ⟨w₀, hw₀, rfl⟩ := mem_map.mp hw
    exact h w₀ hw₀ v hv
  | listener =>
    rw [← mem_some_iff.mp hw, changesEntry] at hv
    cases hchanges : d.changes with
    | none =>
      rw [hchanges] at hv
      cases hv
    | some w₀ =>
      rw [hchanges] at hv
      exact h w₀ hchanges v hv
  | dropped => cases hw
end Tells

/-- What a step does: the store commits, another party changes a watch, or the
subscriber runs, wakes up at its `select!` or ends. -/
inductive Acts (conn : Connection) (d : Delivery E) : DeliveryStep E → Delivery E → Prop
  | store (call : StoreCall E) : Acts conn d (.store call) (d.storeCall conn call)
  | tell {step : DeliveryStep E} {changes : Option (Watch (Option ℤ))} {unannounced : List ℤ}
      (resets : Option (Watch UInt64)) (h : Tells conn d changes unannounced)
      (hstep : ∀ now, step ≠ .run now) :
      Acts conn d step { d with changes := changes, unannounced := unannounced, resets := resets }
  | run (now : UnixMs) : Acts conn d (.run now) (d.run conn now)
  | wakeUp (h : d.phase = .asleep) :
      Acts conn d .changed
        { d with
          seenChanges := (d.changes.map Watch.version).getD d.seenChanges
          phase := .top true }
  | goOn {step : DeliveryStep E} {readReplay : Bool} (h : d.phase = .asleep)
      (hstep : ∀ now, step ≠ .run now) : Acts conn d step { d with phase := .top readReplay }
  | close {step : DeliveryStep E} {reason : CloseReason} (h : step = .hangUp ∨ reason = .reset)
      (hstep : ∀ now, step ≠ .run now) : Acts conn d step (d.close reason)

/-- A step of the system is the store's, another party's or the subscriber's. -/
theorem acts_exec (conn : Connection) (d : Delivery E) (step : DeliveryStep E) :
    Acts conn d step (d.exec conn step) := by
  have hnothing {step : DeliveryStep E} (hstep : ∀ now, step ≠ .run now) : Acts conn d step d :=
    .tell d.resets .nothing hstep
  cases step with
  | store call => exact .store call
  | run now => exact .run now
  | notify latest =>
    show Acts conn d _ (d.notify conn latest)
    unfold notify
    split
    · rename_i hcommitted
      exact .tell d.resets (.head hcommitted) nofun
    · exact hnothing nofun
  | wake => exact .tell d.resets .hint nofun
  | signalGap => exact .tell _ .nothing nofun
  | otherSubscriber => exact .tell d.resets .listener nofun
  | forgetChanges =>
    show Acts conn d _ (if d.phase.holdsChanges then d else { d with changes := none })
    split
    · exact hnothing nofun
    · rename_i hholds
      exact .tell d.resets (.dropped (Bool.not_eq_true _ ▸ hholds)) nofun
  | forgetResets =>
    show Acts conn d _ (if d.phase.holdsResets then d else { d with resets := none })
    split
    · exact hnothing nofun
    · exact .tell none .nothing nofun
  | changed =>
    show Acts conn d _ d.changed
    unfold changed
    split
    · rename_i hready
      exact .wakeUp hready.1
    · exact hnothing nofun
  | reset =>
    show Acts conn d _ d.reset
    unfold reset
    split
    · exact .close (.inr rfl) nofun
    · exact hnothing nofun
  | tick =>
    show Acts conn d _ (d.tick conn)
    unfold tick
    split
    · rename_i hasleep
      exact .goOn hasleep nofun
    · exact hnothing nofun
  | read =>
    show Acts conn d _ (d.read conn)
    unfold read
    split
    · rename_i hasleep
      exact .goOn hasleep.1 nofun
    · exact hnothing nofun
  | hangUp =>
    show Acts conn d _ d.hangUp
    unfold hangUp
    split
    · exact hnothing nofun
    · exact .close (.inl rfl) nofun

section
variable (h : Invariant conn d)
include h
theorem Invariant.tell {changes : Option (Watch (Option ℤ))} {unannounced : List ℤ}
    (ht : Tells conn d changes unannounced) (resets : Option (Watch UInt64)) : Invariant conn
      { d with changes := changes, unannounced := unannounced, resets := resets } := by
  -- as long as the subscriber listens, the watch is still there
  have hwatch (hholds : d.phase.holdsChanges) : ∃ w w', d.changes = some w ∧ changes = some w' ∧
      d.seenChanges ≤ w.version ∧ w.version ≤ w'.version ∧ (w.version = w'.version → w' = w ∧
        ∀ p ∈ d.unannounced, (∀ v ∈ w.value, v < p) → p ∈ unannounced) := by
    obtain ⟨w, hw, hseen⟩ := h.seen hholds
    obtain ⟨_, hnone⟩ | ⟨w', hw', hle, _, hsame⟩ := ht.forward hw
    · rw [hholds] at hnone
      cases hnone
    · exact ⟨w, w', hw, hw', hseen, hle, hsame⟩
  refine ⟨h.backs, ht.head_committed h.head, ?_, h.cursor, h.looping, ?_, h.fresh, ?_⟩
  · intro hholds
    obtain ⟨w, w', _, hw', hseen, hle, _⟩ := hwatch hholds
    exact ⟨w', hw', hseen.trans hle⟩
  · intro c hc
    exact { h.follows c hc with }
  · apply h.settled.keep
    intro hholds
    refine ⟨⟨[], (append_nil _).symm⟩, ?_⟩
    intro n _ hcovered hready e he
    obtain ⟨_, w', hw, hw', _, _, hsame⟩ := hwatch hholds
    -- a watch that is not ready still has the version that was marked
    rw [changesReady_eq hw', decide_eq_false_iff_not, not_not] at hready
    replace hready : w'.version = d.seenChanges := hready
    obtain ⟨rfl, hunannounced⟩ := hsame (by omega)
    have hready' : d.changesReady = false := by
      rw [changesReady_eq hw, decide_eq_false_iff_not, not_not]
      exact hready
    obtain ⟨hmem, hlt⟩ := hcovered hready' e he
    refine ⟨hunannounced _ hmem (hlt w' hw), ?_⟩
    intro w'' hw''
    replace hw'' : w'' ∈ changes := hw''
    rw [hw', ← hw] at hw''
    exact hlt w'' hw''

theorem Invariant.move (hloop : Looping p → Looping d.phase) (hstarting : ¬Starting p)
    (hsettled : Settled conn d p) : Invariant conn { d with phase := p } where
  __ := h
  seen hholds := by
    apply h.seen
    exact (hloop (looping_of_holdsChanges hholds hstarting)).holdsChanges
  looping hp := h.looping (hloop hp)
  follows c hc := { h.follows c hc with }
  fresh hp := absurd hp hstarting
  settled := by
    cases p with
    | top readReplay => cases readReplay <;> exact hsettled
    | _ => exact hsettled

theorem invariant_close (reason : CloseReason) : Invariant conn (d.close reason) :=
  h.move False.elim id trivial

theorem Invariant.mark (hlooping : Looping d.phase) (hstarting : ¬Starting p)
    (hsettled : ∀ d : Delivery E, Settled conn d p) : Invariant conn
      { d with seenChanges := (d.changes.map Watch.version).getD d.seenChanges, phase := p } where
  __ := h
  seen _ := by
    obtain ⟨w, hw, _⟩ := h.seen hlooping.holdsChanges
    refine ⟨w, hw, ?_⟩
    rw [mem_def.mp hw]
    exact le_refl _
  looping _ := h.looping hlooping
  follows c hc := { h.follows c hc with }
  fresh hp := absurd hp hstarting
  settled := hsettled _
end

inductive LoopStep (conn : Connection) (d : Delivery E) : Delivery E → Prop
  | reset : LoopStep conn d (d.close .reset)
  | stale : LoopStep conn d (d.close .staleCursor)
  | start {readReplay : Bool} (h : d.phase = .top readReplay) :
      LoopStep conn d { d with phase := .marking }
  | skip (h : d.phase = .top false) : LoopStep conn d { d with phase := .page [] }
  | mark (h : d.phase = .marking) :
      LoopStep conn d
        { d with
          seenChanges := (d.changes.map Watch.version).getD d.seenChanges
          phase := .reading }
  | read {ms : List (ChannelMessage E)} (h : d.phase = .reading)
      (hms : List.Forall₂ Shows ms ((d.ahead conn).take 100)) :
      LoopStep conn d { d with phase := .page ms }
  | unpack {ms : List (ChannelMessage E)} (h : d.phase = .page ms) :
      LoopStep conn d { d with phase := .deliver (ms.length = 100) ms }
  | deliver {full : Bool} {m : ChannelMessage E} {rest : List (ChannelMessage E)}
      (h : d.phase = .deliver full (m :: rest)) :
      LoopStep conn d (d.deliverMessage conn m full rest)
  | again (h : d.phase = .deliver true []) : LoopStep conn d { d with phase := .top true }
  | sleep (h : d.phase = .deliver false []) : LoopStep conn d { d with phase := .asleep }
  | stay (h : d.phase = .asleep) : LoopStep conn d d

theorem settled_page (hms : List.Forall₂ Shows ms ((d.ahead conn).take 100)) :
    Settled conn d (.page ms) := by
  have hlength : ms.length = min 100 (d.ahead conn).length := by rw [hms.length_eq, length_take]
  refine ⟨?_, ?_⟩
  · unfold Paged
    rw [take_eq_take_iff.mpr (show min ms.length _ = min 100 _ by omega)]
    exact hms
  · intro _ _ _ he
    have hall : (d.ahead conn).drop ms.length = [] := by
      apply drop_eq_nil_of_le
      omega
    rw [hall] at he
    cases he

section
variable (h : Invariant conn d)
include h
variable {rest : List (ChannelMessage E)}
theorem deliverMessage_eq {full : Bool} {m : ChannelMessage E}
    (hphase : d.phase = .deliver full (m :: rest)) :
    ∃ e tail c, d.ahead conn = e :: tail ∧ Shows m e ∧
      List.Forall₂ Shows rest (tail.take rest.length) ∧ c.position = e.position ∧
      d.deliverMessage conn m full rest =
        { d with
          delivered := d.delivered ++ [m], phase := .deliver full rest, after := some c } := by
  have hsettled := h.settled
  rw [hphase] at hsettled
  have hpaged := hsettled.1
  cases hahead : d.ahead conn with
  | nil =>
    have hle := hpaged.length_le
    rw [hahead] at hle
    cases hle
  | cons e tail =>
    unfold Paged at hpaged
    rw [hahead, length_cons, take_succ_cons] at hpaged
    cases hpaged with
    | cons hshows hrest =>
      obtain ⟨c, hid, hposition⟩ := hshows.id
      refine ⟨e, tail, c, rfl, hshows, hrest, hposition, ?_⟩
      unfold deliverMessage
      rw [hid]

theorem invariant_deliverMessage {full : Bool} {m : ChannelMessage E}
    (hphase : d.phase = .deliver full (m :: rest)) :
    Invariant conn (d.deliverMessage conn m full rest) := by
  obtain ⟨e, tail, c, hahead, hshows, hrest, hposition, hdeliver⟩ := deliverMessage_eq h hphase
  have hsettled := h.settled
  rw [hphase] at hsettled
  have htail : (durableCoordinates E).since d.committed conn.channel c.position = tail := by
    rw [hposition]
    exact Coordinates.since_head h.backs.ordered hahead
  have hmem : e ∈ d.committed := by
    have he : e ∈ d.ahead conn := by
      rw [hahead]
      exact mem_cons_self
    exact (Coordinates.mem_since.mp he).1
  have hlooping := h.looping (by rw [hphase]; trivial)
  rw [hdeliver]
  refine ⟨h.backs, h.head, fun _ => h.seen (by rw [hphase]; rfl), ?_, ?_, ?_, False.elim, ?_, ?_⟩
  · show c.position ≤ d.backend.last
    rw [hposition]
    exact h.backs.le_last hmem
  · intro _
    refine ⟨hlooping.1, ?_⟩
    have hreadable := hlooping.2
    revert hreadable
    cases d.backend with
    | sqlite => exact fun _ => some_ne_none c
    | postgres => exact id
  · intro capture hcapture
    have hfollows := h.follows capture hcapture
    obtain ⟨shown, hsince, hdelivered⟩ := hfollows.shown
    refine ⟨hfollows.le_last, hfollows.commits, hfollows.later, shown ++ [e], ?_, ?_⟩
    · show _ = _ ++ (durableCoordinates E).since d.committed conn.channel c.position
      rw [htail, append_assoc, singleton_append, ← hahead]
      exact hsince
    · exact rel_append hdelivered (List.Forall₂.cons hshows List.Forall₂.nil)
  · show List.Forall₂ Shows rest (((durableCoordinates E).since d.committed conn.channel
      c.position).take rest.length)
    rw [htail]
    exact hrest
  · intro hfull hready e' he'
    replace he' : e' ∈ ((durableCoordinates E).since d.committed conn.channel
      c.position).drop rest.length := he'
    rw [htail] at he'
    apply hsettled.2 hfull hready
    rw [hahead]
    exact he'

theorem invariant_capture (hphase : d.phase = .capturing) {now : UnixMs}
    {after : Option ReplayCursor}
    (hok : d.backend.replayCursor E now conn.channel conn.requested = .ok after) : Invariant conn
      { d with
        after := after
        captured := some ⟨cursorPosition after, d.committed.length⟩
        phase := .top true } := by
  obtain ⟨hreadable, hlast⟩ := h.backs.replayCursor hok
  refine ⟨h.backs, h.head, fun _ => h.seen (by rw [hphase]; rfl), hlast,
    fun _ => ⟨some_ne_none _, hreadable⟩, ?_, False.elim, trivial⟩
  intro c hc
  rw [← mem_some_iff.mp hc]
  have hfresh : d.delivered = [] := h.fresh (by rw [hphase]; trivial)
  refine ⟨hlast, le_refl _, ?_, [], rfl, ?_⟩
  · intro e he
    rw [drop_length] at he
    cases he
  · show List.Forall₂ Shows d.delivered []
    rw [hfresh]
    exact List.Forall₂.nil

theorem loopStep_run (hexact : Exact conn d) (hlooping : Looping d.phase) (now : UnixMs) :
    LoopStep conn d (d.run conn now) := by
  unfold run
  cases hphase : d.phase with
  | connecting | subscribing | capturing | closed =>
    exact absurd hlooping (by rw [hphase]; exact id)
  | top readReplay =>
    cases conn.kind with
    | sse => exact .start hphase
    | webSocket =>
      simp only
      split
      · exact .reset
      · cases readReplay with
        | false => exact .skip hphase
        | true => exact .start hphase
  | marking => exact .mark hphase
  | reading =>
    obtain hstale | ⟨ms, hok, hshows⟩ :=
      h.backs.readAfter (h.looping hlooping).2 (hexact hphase) now 100
    · simp only [hstale]
      exact .stale
    · simp only [hok]
      exact .read hphase hshows
  | page =>
    simp only
    split
    · exact .reset
    · exact .unpack hphase
  | deliver full ms =>
    cases ms with
    | nil =>
      cases full with
      | false => exact .sleep hphase
      | true => exact .again hphase
    | cons => exact .deliver hphase
  | asleep => exact .stay hphase

theorem LoopStep.invariant (hlooping : Looping d.phase) (hstep : LoopStep conn d d') :
    Invariant conn d' := by
  have hsettled := h.settled
  have hmove {p : Phase E} (hp : ¬Starting p) (hs : Settled conn d p) :
      Invariant conn { d with phase := p } :=
    h.move (fun _ => hlooping) hp hs
  cases hstep with
  | reset | stale => exact invariant_close h _
  | start | again => exact hmove id trivial
  | skip hphase =>
    rw [hphase] at hsettled
    exact hmove id ⟨List.Forall₂.nil, fun _ => hsettled⟩
  | mark => exact h.mark hlooping id (fun _ => trivial)
  | read _ hms => exact hmove id (settled_page hms)
  | unpack hphase =>
    rw [hphase] at hsettled
    exact hmove id ⟨hsettled.1, fun hpartial => hsettled.2 (of_decide_eq_false hpartial)⟩
  | deliver hphase => exact invariant_deliverMessage h hphase
  | sleep hphase =>
    rw [hphase] at hsettled
    exact hmove id (hsettled.2 rfl)
  | stay => exact h

theorem invariant_run (hexact : Exact conn d) (now : UnixMs) : Invariant conn (d.run conn now) := by
  by_cases hlooping : Looping d.phase
  · exact LoopStep.invariant h hlooping (loopStep_run h hexact hlooping now)
  · unfold run
    cases hphase : d.phase with
    | connecting =>
      have hfresh : d.delivered = [] := h.fresh (by rw [hphase]; trivial)
      exact ⟨h.backs, h.head, nofun, h.cursor, False.elim,
        fun c hc => { h.follows c hc with }, fun _ => hfresh, trivial⟩
    | subscribing =>
      have hfresh : d.delivered = [] := h.fresh (by rw [hphase]; trivial)
      exact ⟨h.backs, Tells.listener.head_committed h.head, fun _ => ⟨_, rfl, le_refl _⟩,
        h.cursor, False.elim, fun c hc => { h.follows c hc with }, fun _ => hfresh,
        trivial⟩
    | capturing =>
      simp only
      split
      · rename_i after hok
        exact invariant_capture h hphase hok
      · unfold closeError
        split <;> exact invariant_close h _
    | closed => exact h
    | _ => exact absurd (by rw [hphase]; trivial) hlooping

/-- No step loses what the subscriber has yet to be told. -/
theorem Acts.invariant (hexact : Exact conn d) {step : DeliveryStep E}
    (hacts : Acts conn d step d') : Invariant conn d' := by
  have hsettled := h.settled
  cases hacts with
  | store call => exact invariant_storeCall h call
  | tell resets ht => exact h.tell ht resets
  | run now => exact invariant_run h hexact now
  | wakeUp hasleep => exact h.mark (by rw [hasleep]; trivial) id (fun _ => trivial)
  | @goOn _ readReplay hasleep =>
    rw [hasleep] at hsettled
    refine h.move (fun _ => by rw [hasleep]; trivial) id ?_
    cases readReplay with
    | false => exact hsettled
    | true => trivial
  | close => exact invariant_close h _

theorem invariant_exec (hexact : Exact conn d) (step : DeliveryStep E) :
    Invariant conn (d.exec conn step) :=
  Acts.invariant h hexact (acts_exec conn d step)
end
end Delivery
end Tako.Channel
