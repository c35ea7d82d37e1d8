import Tako.ChannelWakeup

/-! Progress of a subscriber, step by step: a wake-up that is pending stays pending until it is
taken. -/
namespace Tako.Channel
open StreamLog List
namespace Delivery
variable {E : Crates} {conn : Connection} {d d' : Delivery E}
def Idle : Phase E → Prop
  | .top false | .page [] | .deliver false [] | .asleep => True
  | _ => False

def distance : Phase E → ℕ
  | .deliver true [] => 5
  | .top true => 4
  | .marking => 3
  | .reading => 2
  | .page (_ :: _) => 1
  | .top false => 3
  | .page [] => 2
  | .deliver false [] => 1
  | _ => 0

/-- The stream was closed in a way that tells the client to start again. -/
def Dismissed (p : Phase E) : Prop := p = .closed .reset ∨ p = .closed .staleCursor

/-- The message is delivered, or the client knows that it has to start again. -/
def Answered (e : DurableMessage E) (d : Delivery E) : Prop :=
  (∃ m ∈ d.delivered, Shows m e) ∨ Dismissed d.phase

/-- The subscriber has not reached `e`, a message of `log`. At most `r` messages
of `log` lie between. -/
structure Awaits (conn : Connection) (log : List (DurableMessage E)) (e : DurableMessage E) (r : ℕ)
    (d : Delivery E) : Prop where
  looping : Looping d.phase
  committed : log <+: d.committed
  cursor : cursorPosition d.after < e.position
  rank : ((durableCoordinates E).since log conn.channel (cursorPosition d.after)).length ≤ r

variable {log : List (DurableMessage E)} {e : DurableMessage E} {r : ℕ}
theorem Awaits.move (h : Awaits conn log e r d) (hlooping : Looping d'.phase)
    (hcommitted : d.committed <+: d'.committed) (hafter : d'.after = d.after) :
    Awaits conn log e r d' where
  looping := hlooping
  committed := h.committed.trans hcommitted
  cursor := by
    rw [hafter]
    exact h.cursor
  rank := by
    rw [hafter]
    exact h.rank

theorem Awaits.mem_ahead (h : Awaits conn log e r d) (he : e ∈ log)
    (hchannel : e.channel = conn.channel) : e ∈ d.ahead conn :=
  Coordinates.mem_since.mpr ⟨h.committed.subset he, hchannel, h.cursor⟩

theorem ready_of_announced (hcovered : Covered conn d 0) (he : e ∈ d.ahead conn)
    (hannounced : e.position ∉ d.unannounced) : d.changesReady = true := by
  by_contra hready
  rw [Bool.not_eq_true] at hready
  exact hannounced (hcovered hready e he).1

theorem Idle.looping {p : Phase E} (h : Idle p) : Looping p := by
  cases p with
  | connecting | subscribing | capturing | closed => exact h
  | _ => trivial

theorem Idle.covered {p : Phase E} (hidle : Idle p) (h : Settled conn d p) : Covered conn d 0 := by
  cases p with
  | top readReplay =>
    cases readReplay with
    | false => exact h
    | true => exact False.elim hidle
  | page ms =>
    cases ms with
    | nil => exact h.2 (Nat.zero_ne_add_one 99)
    | cons => exact False.elim hidle
  | deliver full ms =>
    cases full with
    | false =>
      cases ms with
      | nil => exact h.2 rfl
      | cons => exact False.elim hidle
    | true => cases ms <;> exact False.elim hidle
  | asleep => exact h
  | _ => exact False.elim hidle

/-- Once it has captured its cursor, a subscriber that is not hung up on is only
closed by a reset or a stale cursor. -/
def Attended (d : Delivery E) : Prop :=
  d.captured ≠ none → Looping d.phase ∨ Dismissed d.phase

variable {c : Capture}
section
variable (h : Invariant conn d)
include h
theorem LoopStep.looping (hstep : LoopStep conn d d') :
    Looping d'.phase ∨ Dismissed d'.phase := by
  cases hstep with
  | reset => exact .inr (.inl rfl)
  | stale => exact .inr (.inr rfl)
  | deliver hphase =>
    obtain ⟨_, _, _, _, _, _, _, hdeliver⟩ := deliverMessage_eq h hphase
    rw [hdeliver]
    exact .inl trivial
  | stay hphase =>
    rw [hphase]
    exact .inl trivial
  | _ => exact .inl trivial

theorem delivered_or_ahead (hc : c ∈ d.captured) (he : e ∈ d.committed)
    (hchannel : e.channel = conn.channel) (hlt : c.position < e.position) :
    (∃ m ∈ d.delivered, Shows m e) ∨ cursorPosition d.after < e.position := by
  obtain ⟨shown, hsince, hdelivered⟩ := (h.follows c hc).shown
  have hmem : e ∈ shown ++ d.ahead conn := by
    rw [← hsince]
    exact Coordinates.mem_since.mpr ⟨he, hchannel, hlt⟩
  obtain hmem | hmem := mem_append.mp hmem
  · left
    obtain ⟨i, hi, rfl⟩ := getElem_of_mem hmem
    have hi' : i < d.delivered.length := by
      rw [hdelivered.length_eq]
      exact hi
    exact ⟨d.delivered[i], getElem_mem hi', hdelivered.get hi' hi⟩
  · exact .inr (Coordinates.mem_since.mp hmem).2.2

variable (hw : Awaits conn log e r d) (he : e ∈ log) (hchannel : e.channel = conn.channel)
include hw he hchannel
theorem rank_deliverMessage {full : Bool} {m : ChannelMessage E} {rest : List (ChannelMessage E)}
    (hphase : d.phase = .deliver full (m :: rest)) :
    ((durableCoordinates E).since log conn.channel
      (cursorPosition (d.deliverMessage conn m full rest).after)).length < r := by
  obtain ⟨e₁, tail, c, hahead, _, _, hposition, hdeliver⟩ := deliverMessage_eq h hphase
  have hlog : (durableCoordinates E).Ordered log := h.backs.ordered.sublist hw.committed.sublist
  -- the part of the log that is left is the beginning of what lies ahead
  have hprefix : (durableCoordinates E).since log conn.channel (cursorPosition d.after) <+:
      e₁ :: tail := by
    rw [← hahead]
    exact hw.committed.filter _
  cases hleft : (durableCoordinates E).since log conn.channel (cursorPosition d.after) with
  | nil =>
    have hmem : e ∈ (durableCoordinates E).since log conn.channel (cursorPosition d.after) :=
      Coordinates.mem_since.mpr ⟨he, hchannel, hw.cursor⟩
    rw [hleft] at hmem
    cases hmem
  | cons _ left =>
    rw [hleft] at hprefix
    obtain ⟨rfl, _⟩ := cons_prefix_cons.mp hprefix
    have hrank := hw.rank
    have hnext : (durableCoordinates E).since log conn.channel c.position = left := by
      rw [hposition]
      exact Coordinates.since_head hlog hleft
    rw [hleft, length_cons] at hrank
    rw [hdeliver]
    show ((durableCoordinates E).since log conn.channel c.position).length < r
    rw [hnext]
    omega

theorem progress_reading (hreads : ¬Idle d.phase) (hinv : Invariant conn d') (hc : c ∈ d'.captured)
    (hlt : c.position < e.position) (hstep : LoopStep conn d d') :
    Answered e d' ∨ (∃ r' < r, Awaits conn log e r' d') ∨
      (Awaits conn log e r d' ∧ ¬Idle d'.phase ∧ distance d'.phase < distance d.phase) := by
  cases hstep with
  | reset => exact .inl (.inr (.inl rfl))
  | stale => exact .inl (.inr (.inr rfl))
  | @start readReplay hphase =>
    rw [hphase] at hreads ⊢
    cases readReplay with
    | false => exact absurd trivial hreads
    | true => exact .inr (.inr ⟨hw.move trivial prefix_rfl rfl, id, Nat.lt_succ_self 3⟩)
  | skip hphase | sleep hphase | stay hphase =>
    rw [hphase] at hreads
    exact absurd trivial hreads
  | mark hphase =>
    rw [hphase]
    exact .inr (.inr ⟨hw.move trivial prefix_rfl rfl, id, Nat.lt_succ_self 2⟩)
  | @read ms hphase hms =>
    rw [hphase]
    -- the message lies ahead, so the page is not empty
    cases ms with
    | nil =>
      have hmem := hw.mem_ahead he hchannel
      obtain hzero | hnil := take_eq_nil_iff.mp (forall₂_nil_left_iff.mp hms)
      · cases hzero
      · rw [hnil] at hmem
        cases hmem
    | cons => exact .inr (.inr ⟨hw.move trivial prefix_rfl rfl, id, Nat.lt_succ_self 1⟩)
  | @unpack ms hphase =>
    rw [hphase] at hreads ⊢
    cases ms with
    | nil => exact absurd trivial hreads
    | cons m rest =>
      refine .inr (.inr ⟨hw.move trivial prefix_rfl rfl, ?_, ?_⟩)
      · cases decide ((m :: rest).length = 100) <;> exact id
      · cases decide ((m :: rest).length = 100) <;> exact Nat.zero_lt_one
  | @deliver full m rest hphase =>
    have hrank := rank_deliverMessage h hw he hchannel hphase
    obtain ⟨_, _, _, _, _, _, _, hdeliver⟩ := deliverMessage_eq h hphase
    have hcommitted : log <+: (d.deliverMessage conn m full rest).committed := by
      rw [hdeliver]
      exact hw.committed
    obtain hdelivered | hcursor := delivered_or_ahead hinv hc (hcommitted.subset he) hchannel hlt
    · exact .inl (.inl hdelivered)
    · refine .inr (.inl ⟨_, hrank, ?_, hcommitted, hcursor, le_refl _⟩)
      rw [hdeliver]
      trivial
  | again hphase =>
    rw [hphase]
    exact .inr (.inr ⟨hw.move trivial prefix_rfl rfl, id, Nat.lt_succ_self 4⟩)
end

theorem progress_idle (hw : Awaits conn log e r d) (hidle : Idle d.phase)
    (hstep : LoopStep conn d d') : Dismissed d'.phase ∨ (Awaits conn log e r d' ∧ (¬Idle d'.phase ∨
        (Idle d'.phase ∧ d'.changes = d.changes ∧ d'.seenChanges = d.seenChanges ∧
          (d.phase = .asleep ∨ distance d'.phase < distance d.phase)))) := by
  cases hstep with
  | reset => exact .inl (.inl rfl)
  | stale => exact .inl (.inr rfl)
  | start => exact .inr ⟨hw.move trivial prefix_rfl rfl, .inl id⟩
  | skip hphase =>
    rw [hphase]
    exact .inr ⟨hw.move trivial prefix_rfl rfl, .inr ⟨trivial, rfl, rfl, .inr (Nat.lt_succ_self 2)⟩⟩
  | mark hphase | read hphase | again hphase =>
    rw [hphase] at hidle
    exact False.elim hidle
  | @unpack ms hphase =>
    rw [hphase] at hidle ⊢
    cases ms with
    | nil =>
      exact .inr ⟨hw.move trivial prefix_rfl rfl,
        .inr ⟨trivial, rfl, rfl, .inr (Nat.lt_succ_self 1)⟩⟩
    | cons => exact False.elim hidle
  | @deliver full m rest hphase =>
    rw [hphase] at hidle
    cases full <;> exact False.elim hidle
  | sleep hphase =>
    rw [hphase]
    exact .inr ⟨hw.move trivial prefix_rfl rfl, .inr ⟨trivial, rfl, rfl, .inr (Nat.lt_succ_self 0)⟩⟩
  | stay hphase => exact .inr ⟨hw, .inr ⟨hidle, rfl, rfl, .inl hphase⟩⟩

theorem run_frame (conn : Connection) (d : Delivery E) (now : UnixMs) :
    (d.run conn now).backend = d.backend ∧
      ((d.run conn now).changes = d.changes ∨ (d.run conn now).changes = some d.changesEntry) ∧
      ((d.run conn now).captured = d.captured ∨
        (d.phase = .capturing ∧ (d.run conn now).phase = .top true)) := by
  unfold run
  cases hphase : d.phase with
  | subscribing => exact ⟨rfl, .inr rfl, .inl rfl⟩
  | capturing =>
    simp only
    split
    · exact ⟨rfl, .inl rfl, .inr ⟨trivial, rfl⟩⟩
    · unfold closeError
      split <;> exact ⟨rfl, .inl rfl, .inl rfl⟩
  | top =>
    simp only
    split
    · exact ⟨rfl, .inl rfl, .inl rfl⟩
    · split <;> exact ⟨rfl, .inl rfl, .inl rfl⟩
  | reading | page =>
    simp only
    split <;> exact ⟨rfl, .inl rfl, .inl rfl⟩
  | deliver _ ms =>
    cases ms with
    | nil => exact ⟨rfl, .inl rfl, .inl rfl⟩
    | cons =>
      simp only [deliverMessage]
      split <;> exact ⟨rfl, .inl rfl, .inl rfl⟩
  | _ => exact ⟨rfl, .inl rfl, .inl rfl⟩

variable {w : Watch (Option ℤ)}
theorem changes_run (hw : d.changes = some w) (now : UnixMs) :
    (d.run conn now).changes = some w := by
  obtain ⟨_, hsame | hentry, _⟩ := run_frame conn d now
  · rw [hsame, hw]
  · rw [hentry, changesEntry, hw, Option.getD_some]

variable {step : DeliveryStep E} (hacts : Acts conn d step d')
include hacts
theorem Acts.changes (hw : d.changes = some w) :
    (d'.changes = none ∧ d.phase.holdsChanges = false) ∨
      ∃ w', d'.changes = some w' ∧ w.version ≤ w'.version ∧
        ∀ v ∈ w.value, ∃ v' ∈ w'.value, v ≤ v' := by
  have hsame {d' : Delivery E} (h : d'.changes = some w) :
      ∃ w', d'.changes = some w' ∧ w.version ≤ w'.version ∧
        ∀ v ∈ w.value, ∃ v' ∈ w'.value, v ≤ v' :=
    ⟨w, h, le_refl _, fun v hv => ⟨v, hv, le_refl v⟩⟩
  cases hacts with
  | tell _ ht =>
    obtain hnone | ⟨w', hw', hle, hvalue, _⟩ := ht.forward hw
    · exact .inl hnone
    · exact .inr ⟨w', hw', hle, hvalue⟩
  | run now => exact .inr (hsame (changes_run hw now))
  | _ => exact .inr (hsame hw)

theorem Acts.captured (ha : Attended d) (hc : c ∈ d.captured) :
    c ∈ d'.captured := by
  cases hacts with
  | run now =>
    obtain ⟨_, _, hsame | ⟨hphase, _⟩⟩ := run_frame conn d now
    · rw [hsame]
      exact hc
    · obtain hlooping | hclosed | hclosed := ha (Option.ne_none_iff_exists'.mpr ⟨c, hc⟩)
      · rw [hphase] at hlooping
        exact False.elim hlooping
      · rw [hphase] at hclosed
        cases hclosed
      · rw [hphase] at hclosed
        cases hclosed
  | _ => exact hc

variable (h : Invariant conn d)
include h
theorem Acts.changesReady (hholds : d.phase.holdsChanges) (hseen : d'.seenChanges = d.seenChanges)
    (hready : d.changesReady = true) : d'.changesReady = true := by
  obtain ⟨w, hw, _⟩ := h.seen hholds
  rw [changesReady_eq hw] at hready
  have hne : w.version ≠ d.seenChanges := of_decide_eq_true hready
  obtain ⟨_, hnone⟩ | ⟨_, hw', _, _⟩ := hacts.changes hw
  · rw [hholds] at hnone
    cases hnone
  · rw [changesReady_eq hw', hseen]
    apply decide_eq_true
    omega

variable (hexact : Exact conn d)
include hexact
theorem Acts.idle (hw : Awaits conn log e r d) (hidle : Idle d.phase) (hstays : step ≠ .hangUp) :
    Dismissed d'.phase ∨ (Awaits conn log e r d' ∧ (¬Idle d'.phase ∨
        (Idle d'.phase ∧ (d.changesReady = true → d'.changesReady = true) ∧
          (d.phase = .asleep ∨ distance d'.phase ≤ distance d.phase)))) := by
  have hlooping := hidle.looping
  have hready := hacts.changesReady h hlooping.holdsChanges
  cases hacts with
  | store =>
    exact .inr ⟨hw.move hlooping (prefix_append _ _) rfl,
      .inr ⟨hidle, hready rfl, .inr le_rfl⟩⟩
  | tell =>
    exact .inr ⟨hw.move hlooping prefix_rfl rfl,
      .inr ⟨hidle, hready rfl, .inr le_rfl⟩⟩
  | run now =>
    obtain hclosed | ⟨haw, hreads | ⟨hidle', _, hseen, hdistance⟩⟩ :=
      progress_idle hw hidle (loopStep_run h hexact hlooping now)
    · exact .inl hclosed
    · exact .inr ⟨haw, .inl hreads⟩
    · exact .inr ⟨haw, .inr ⟨hidle', hready hseen, hdistance.imp id le_of_lt⟩⟩
  | wakeUp => exact .inr ⟨hw.move trivial prefix_rfl rfl, .inl id⟩
  | @goOn _ readReplay hasleep =>
    refine .inr ⟨hw.move trivial prefix_rfl rfl, ?_⟩
    cases readReplay with
    | false => exact .inr ⟨trivial, hready rfl, .inl hasleep⟩
    | true => exact .inl id
  | close hreason =>
    obtain rfl | rfl := hreason
    · exact absurd rfl hstays
    · exact .inl (.inl rfl)

theorem Acts.reading (hw : Awaits conn log e r d) (he : e ∈ log)
    (hchannel : e.channel = conn.channel) (hreads : ¬Idle d.phase) (hc : c ∈ d'.captured)
    (hlt : c.position < e.position) (hstays : step ≠ .hangUp) :
    Answered e d' ∨ (∃ r' < r, Awaits conn log e r' d') ∨
      (Awaits conn log e r d' ∧ ¬Idle d'.phase ∧ distance d'.phase ≤ distance d.phase ∧
        ((∃ now, step = .run now) → distance d'.phase < distance d.phase)) := by
  have hinv := Acts.invariant h hexact hacts
  have hasleep (hphase : d.phase = .asleep) : False := hreads (by rw [hphase]; trivial)
  cases hacts with
  | store =>
    exact .inr (.inr ⟨hw.move hw.looping (prefix_append _ _) rfl, hreads, le_refl _, nofun⟩)
  | tell _ _ hstep =>
    exact .inr (.inr ⟨hw.move hw.looping prefix_rfl rfl, hreads, le_refl _,
      fun ⟨now, hrun⟩ => absurd hrun (hstep now)⟩)
  | run now =>
    obtain hanswered | hcloser | ⟨haw, hreads', hdistance⟩ :=
      progress_reading h hw he hchannel hreads hinv hc hlt (loopStep_run h hexact hw.looping now)
    · exact .inl hanswered
    · exact .inr (.inl hcloser)
    · exact .inr (.inr ⟨haw, hreads', le_of_lt hdistance, fun _ => hdistance⟩)
  | wakeUp hphase | goOn hphase => exact (hasleep hphase).elim
  | close hreason =>
    obtain rfl | rfl := hreason
    · exact absurd rfl hstays
    · exact .inl (.inr (.inl rfl))

theorem Acts.attended (ha : Attended d) (hstays : step ≠ .hangUp) : Attended d' := by
  intro hcaptured
  cases hacts with
  | store | tell => exact ha hcaptured
  | run now =>
    obtain ⟨_, _, hsame | ⟨_, htop⟩⟩ := run_frame conn d now
    · rw [hsame] at hcaptured
      obtain hlooping | hreset | hstale := ha hcaptured
      · exact (loopStep_run h hexact hlooping now).looping h
      · rw [Delivery.run, hreset]
        exact .inr (.inl hreset)
      · rw [Delivery.run, hstale]
        exact .inr (.inr hstale)
    · rw [htop]
      exact .inl trivial
  | wakeUp | goOn => exact .inl trivial
  | close hreason =>
    obtain rfl | rfl := hreason
    · exact absurd rfl hstays
    · exact .inr (.inl rfl)
end Delivery
end Tako.Channel
