import Tako.WorkflowCron

/-! Cron boundaries fire at most once: the runs of a schedule are kept apart by their IDs alone.
-/
namespace Tako.Workflow
open List Execution
open scoped Classical
variable {J : JsonCodec} (cal : Calendar)
variable {now : ℤ} {rest : List ScheduleRow} {id : String}
variable {rejects : Call J → RunsDbError → Prop} {schedule : cal.Schedule} {rows : List ScheduleRow}
theorem Calendar.not_isBoundary_of_nextAfter {t : ℤ} (h : cal.nextAfter schedule t = none) {b : ℤ}
    (hb : cal.IsBoundary schedule b) : ¬t < b := by
  intro hlt
  obtain ⟨least, hmem, hmin⟩ := Int.exists_least_of_bdd
    (P := fun b => cal.IsBoundary schedule b ∧ t < b) ⟨t, fun z hz => hz.2.le⟩ ⟨b, hb, hlt⟩
  have hnext : IsLeast {b | cal.IsBoundary schedule b ∧ t < b} least := ⟨hmem, hmin⟩
  rw [(cal.nextAfter_iff schedule t least).mpr hnext] at h
  cases h

theorem latestWithin_eq_some_iff (schedule : cal.Schedule) (now : ℤ) (fuel : ℕ) (after : ℤ)
    (latest : Option ℤ) (hfuel : now - after ≤ fuel) (t : ℤ) :
    latestWithin cal schedule now fuel after latest = some t ↔
      IsGreatest {b | cal.IsBoundary schedule b ∧ after < b ∧ b ≤ now} t ∨
        latest = some t ∧ ∀ b, cal.IsBoundary schedule b → after < b → now < b := by
  -- no boundary is due any more
  have hlast {after : ℤ} (hnone : ∀ b, cal.IsBoundary schedule b → after < b → now < b)
      (latest : Option ℤ) : latest = some t ↔
      IsGreatest {b | cal.IsBoundary schedule b ∧ after < b ∧ b ≤ now} t ∨
        latest = some t ∧ ∀ b, cal.IsBoundary schedule b → after < b → now < b := by
    constructor
    · intro h
      exact .inr ⟨h, hnone⟩
    · rintro (⟨⟨hb, hlt, hle⟩, -⟩ | ⟨h, -⟩)
      · exact absurd hle (not_le.mpr (hnone t hb hlt))
      · exact h
  induction fuel generalizing after latest with
  | zero =>
    apply hlast
    intro b _ hlt
    omega
  | succ fuel ih =>
    rw [latestWithin]
    cases hnext : cal.nextAfter schedule after with
    | none => exact hlast (fun b hb hlt =>
        absurd hlt (cal.not_isBoundary_of_nextAfter hnext hb)) latest
    | some u =>
      obtain ⟨⟨hbu, hafter⟩, hleast⟩ := (cal.nextAfter_iff schedule after u).mp hnext
      have hmin (b : ℤ) (hb : cal.IsBoundary schedule b) (hlt : after < b) : u ≤ b :=
        hleast ⟨hb, hlt⟩
      dsimp only
      by_cases hu : u > now
      · rw [if_pos hu]
        exact hlast (fun b hb hlt => lt_of_lt_of_le hu (hmin b hb hlt)) latest
      · have hfuel' : now - u ≤ fuel := by
          push_cast at hfuel
          omega
        rw [if_neg hu]
        refine (ih u (some u) hfuel').trans ?_
        constructor
        · rintro (⟨⟨hb, hlt, hle⟩, hmax⟩ | ⟨hut, hnone⟩)
          · refine .inl ⟨⟨hb, hafter.trans hlt, hle⟩, ?_⟩
            rintro b ⟨hb', hlt', hle'⟩
            by_cases hbu' : u < b
            · exact hmax ⟨hb', hbu', hle'⟩
            · omega
          · have htu : u = t := Option.some.inj hut
            subst htu
            refine .inl ⟨⟨hbu, hafter, not_lt.mp hu⟩, ?_⟩
            rintro b ⟨hb', hlt', hle'⟩
            by_contra hnot
            exact absurd (hnone b hb' (not_le.mp hnot)) (not_lt.mpr hle')
        · rintro (⟨⟨hb, hlt, hle⟩, hmax⟩ | ⟨-, hnone⟩)
          · rcases (hmin t hb hlt).eq_or_lt with htu | hlt'
            · right
              refine ⟨by rw [htu], ?_⟩
              intro b hb' hub
              by_contra hnot
              have hbt : b ≤ t := hmax ⟨hb', hafter.trans hub, not_lt.mp hnot⟩
              omega
            · refine .inl ⟨⟨hb, hlt', hle⟩, ?_⟩
              rintro b ⟨hb', hub, hle'⟩
              exact hmax ⟨hb', hafter.trans hub, hle'⟩
          · exact absurd (hnone u hbu hafter) hu

theorem latestBoundary_isGreatest {after t : ℤ}
    (h : latestBoundary cal schedule now after = some t) :
    IsGreatest {b | cal.IsBoundary schedule b ∧ b ≤ now} t := by
  rcases (latestWithin_eq_some_iff cal schedule now _ after none (by omega) t).mp h with
    ⟨⟨hb, hlt, hle⟩, hmax⟩ | ⟨hx, -⟩
  · refine ⟨⟨hb, hle⟩, ?_⟩
    rintro b ⟨hb', hle'⟩
    by_cases hab : after < b
    · exact hmax ⟨hb', hab, hle'⟩
    · omega
  · cases hx

/-- The loop over the missed boundaries ends with the last of them, if there is one. -/
theorem latest_boundary_exact (now after t : ℤ) :
    latestBoundary cal schedule now after = some t ↔
      IsGreatest {b | cal.IsBoundary schedule b ∧ after < b ∧ b ≤ now} t := by
  have hfuel : now - after ≤ (now - after).toNat := Int.self_le_toNat _
  rw [latestBoundary, latestWithin_eq_some_iff _ schedule now _ after none hfuel]
  simp only [reduceCtorEq, false_and, or_false]

theorem nextDue_eq_fire {row : ScheduleRow} {t : ℤ} (h : nextDue cal now rows = .fire row t rest) :
    row :: rest <:+ rows ∧ ∃ schedule, cal.fromStr row.cron = .ok schedule ∧
      IsGreatest {b | cal.IsBoundary schedule b ∧ b ≤ now} t := by
  induction rows with
  | nil => cases h
  | cons r rows ih =>
    rw [nextDue] at h
    split at h
    · exact ⟨(ih h).1.trans (suffix_cons r rows), (ih h).2⟩
    · rename_i schedule hschedule
      split at h
      · cases h
      · split at h
        · exact ⟨(ih h).1.trans (suffix_cons r rows), (ih h).2⟩
        · rename_i boundary hlatest
          cases h
          exact ⟨suffix_rfl, schedule, hschedule, latestBoundary_isGreatest cal hlatest⟩

theorem Step.run_none_cases {q q' : Queue} {c : Call J} {r : Result J} (hs : Step rejects q c r q')
    (hq : q.Inv) (id : String) : (q'.run id = none ↔ q.run id = none) ∨
    (q'.run id = none ∧ ∃ cutoffMs limit, c = .pruneFinishedBefore cutoffMs limit) ∨
    (q.run id = none ∧ ∃ now nanoid name payload opts,
      c = .enqueue now nanoid name payload opts ∧ id = opts.id.getD nanoid) := by
  have hrow := hs.row hq id
  generalize q.run id = a at hrow ⊢
  generalize q'.run id = b at hrow ⊢
  cases hrow with
  | created hc hid => exact .inr (.inr ⟨rfl, _, _, _, _, _, hc, hid⟩)
  | pruned hc => exact .inr (.inl ⟨rfl, _, _, hc⟩)
  | kept => exact .inl Iff.rfl
  | _ => exact .inl (by simp)

def Tick.remaining : Tick → Option (ℤ × List ScheduleRow)
  | .enqueueing now row _ rest _ => some (now, row :: rest)
  | .recording now _ _ rest _ => some (now, rest)
  | .returned _ => none
  | .panicked => none

/-- The row to enqueue comes first, and its boundary is the latest one. -/
def Tick.Due : Tick → Prop
  | .enqueueing now row boundary _ _ => ∃ schedule, cal.fromStr row.cron = .ok schedule ∧
    IsGreatest {b | cal.IsBoundary schedule b ∧ b ≤ now} boundary
  | _ => True

theorem Tick.loop_spec (now : ℤ) (rest : List ScheduleRow) (enqueued : ℕ) :
    (Tick.loop cal now rest enqueued).Due cal ∧
      ∀ now' rest', (Tick.loop cal now rest enqueued).remaining = some (now', rest') →
        now' = now ∧ rest' <:+ rest := by
  unfold Tick.loop
  cases h : nextDue cal now rest with
  | panicked | finished => exact ⟨trivial, nofun⟩
  | fire =>
    obtain ⟨hsuffix, hdue⟩ := nextDue_eq_fire cal h
    refine ⟨hdue, ?_⟩
    intro _ _ hr
    cases hr
    exact ⟨rfl, hsuffix⟩

theorem Tick.resume_spec (tick : Tick) (reply : Result J) : (tick.resume cal reply).Due cal ∧
      ∀ now rest, (tick.resume cal reply).remaining = some (now, rest) →
        ∃ rest₀, tick.remaining = some (now, rest₀) ∧ rest <:+ rest₀ := by
  cases reply with
  | error => exact ⟨trivial, nofun⟩
  | ok r =>
    cases tick with
    | enqueueing _ row _ rest =>
      refine ⟨trivial, ?_⟩
      intro now' rest' hr
      cases hr
      exact ⟨row :: rest, rfl, suffix_cons row rest⟩
    | recording now _ _ rest enqueued =>
      obtain ⟨hdue, hloop⟩ := Tick.loop_spec cal now rest (enqueued + 1)
      refine ⟨hdue, ?_⟩
      intro now' rest' hr
      obtain ⟨rfl, hsuffix⟩ := hloop now' rest' hr
      exact ⟨rest, rfl, hsuffix⟩
    | returned | panicked => exact ⟨trivial, nofun⟩

theorem Tick.start_spec (nowMs utcNow : ℤ) (listed : Result J) :
    (Tick.start cal nowMs utcNow listed).Due cal ∧
      ∀ now rest, (Tick.start cal nowMs utcNow listed).remaining = some (now, rest) →
        now = Tick.now cal nowMs utcNow ∧
          ∃ rows, listed = .ok (.schedules rows) ∧ rest <:+ rows := by
  unfold Tick.start
  split
  · rename_i rows
    obtain ⟨hdue, hloop⟩ := Tick.loop_spec cal (Tick.now cal nowMs utcNow) rows 0
    refine ⟨hdue, ?_⟩
    intro now rest hr
    obtain ⟨hnow, hsuffix⟩ := hloop now rest hr
    exact ⟨hnow, rows, rfl, hsuffix⟩
  · exact ⟨trivial, nofun⟩
  · exact ⟨trivial, nofun⟩

def CronEvent.Begins {ι : Type} (s : ι) : CronEvent ι J → Prop
  | .beginTick t .. => t = s
  | _ => False

namespace CronSystem
variable {ι : Type} [DecidableEq ι]
structure IsNew (sys : CronSystem ι) : Prop where
  store : sys.store.IsNew
  idle : ∀ s, ∃ r, sys.tick s = .returned r

def Creates (sys : CronSystem ι) (e : CronEvent ι J) (id : String) : Prop :=
  sys.store.abs.run id = none ∧ (sys.exec cal e).2.store.abs.run id ≠ none

theorem tick_setTick (sys : CronSystem ι) (s : ι) (tick : Tick) (t : ι) :
    (sys.setTick s tick).tick t = if t = s then tick else sys.tick t := by
  simp only [setTick, Function.update_apply]

variable {sys : CronSystem ι}
theorem exec_store (h : sys.store.Inv) (e : CronEvent ι J) : (sys.exec cal e).2.store.Inv ∧
    ((sys.exec cal e).2.store.abs = sys.store.abs ∨
      ∃ plan c, Step (J := J) sys.store.rejects sys.store.abs c (sys.store.call plan c).1
          (sys.exec cal e).2.store.abs ∧ (e = .store (.call plan c) ∨
          (∃ s clock nanoid, e = .tickStep s plan clock nanoid ∧
            (sys.tick s).request clock nanoid = some c) ∨
          ∃ clock schedules, c = .replaceSchedules clock schedules)) := by
  have hcall (plan : Planner) (c : Call J) : (sys.store.call plan c).2.Inv :=
    RunsDb.exec_inv h (.call plan c)
  cases e with
  | beginTick => exact ⟨h, .inl rfl⟩
  | tickStep s plan clock nanoid =>
    cases hreq : (sys.tick s).request (J := J) clock nanoid with
    | none =>
      have hsame : (sys.exec cal (.tickStep s plan clock nanoid : CronEvent ι J)).2 = sys := by
        simp only [exec, hreq]
      rw [hsame]
      exact ⟨h, .inl rfl⟩
    | some c =>
      have hstore : (sys.exec cal (.tickStep s plan clock nanoid : CronEvent ι J)).2.store =
          (sys.store.call plan c).2 := by
        simp only [exec, hreq]
      rw [hstore]
      exact ⟨hcall plan c, .inr ⟨plan, c, RunsDb.call_refines h plan c,
        .inr (.inl ⟨s, clock, nanoid, rfl, hreq⟩)⟩⟩
  | registerSchedules plan clock schedules =>
    simp only [exec, Workflow.registerSchedules]
    cases invalidCron cal schedules with
    | some => exact ⟨h, .inl rfl⟩
    | none => exact ⟨hcall plan _, .inr ⟨plan, _, RunsDb.call_refines h plan _,
        .inr (.inr ⟨clock, schedules, rfl⟩)⟩⟩
  | store se =>
    refine ⟨RunsDb.exec_inv h se, ?_⟩
    rcases RunsDb.exec_cases h se with ⟨plan, c, rfl, hs⟩ | habs
    · exact .inr ⟨plan, c, hs, .inl rfl⟩
    · exact .inl habs

theorem inv_after (h : sys.store.Inv) (events : List (CronEvent ι J)) :
    (sys.after cal events).store.Inv :=
  after_induction (P := fun t : CronSystem ι => t.store.Inv) _ _ _ h
    fun e _ _ ht => (exec_store cal ht e).1

theorem exec_gone (h : sys.store.Inv) {e : CronEvent ι J} (hsome : sys.store.abs.run id ≠ none)
    (hnone : (sys.exec cal e).2.store.abs.run id = none) :
    ∃ plan cutoffMs limit, e = .store (.call plan (.pruneFinishedBefore cutoffMs limit)) := by
  rcases (exec_store cal h e).2 with habs | ⟨plan, c, hstep, hby⟩
  · rw [habs] at hnone
    exact absurd hnone hsome
  · rcases hstep.run_none_cases h.abs id with hiff | ⟨-, cutoffMs, limit, rfl⟩ |
      ⟨hnew, -⟩
    · exact absurd (hiff.mp hnone) hsome
    · rcases hby with rfl | ⟨s, clock, nanoid, -, hreq⟩ | ⟨clock, schedules, hc⟩
      · exact ⟨plan, cutoffMs, limit, rfl⟩
      · -- a tick only enqueues and writes `last_run_at`
        cases htick : sys.tick s <;> rw [htick] at hreq <;> cases hreq
      · cases hc
    · exact absurd hnew hsome

variable {s : ι}
theorem tickStep_creates (h : sys.store.Inv) {plan : Planner} {clock : ClockMs} {nanoid : String}
    (hc : sys.Creates cal (.tickStep s plan clock nanoid : CronEvent ι J) id) :
    ∃ now row boundary rest enqueued, sys.tick s = .enqueueing now row boundary rest enqueued ∧
      id = cronId row.name (timestampMillis boundary) := by
  obtain ⟨hnone, hsome⟩ := hc
  rcases (exec_store cal h (.tickStep s plan clock nanoid)).2 with habs | ⟨plan', c, hstep, hby⟩
  · rw [habs] at hsome
    exact absurd hnone hsome
  · rcases hstep.run_none_cases h.abs id with hiff | ⟨hnone', -⟩ |
      ⟨-, now, nanoid', name, payload, opts, rfl, hid⟩
    · exact absurd (hiff.mpr hnone) hsome
    · exact absurd hnone' hsome
    · rcases hby with he | ⟨s', clock', nanoid'', he, hreq⟩ | ⟨clock, schedules, hx⟩
      · cases he
      · cases he
        cases htick : sys.tick s with
        | enqueueing now row boundary rest enqueued =>
          rw [htick] at hreq
          cases hreq
          exact ⟨now, row, boundary, rest, enqueued, rfl, hid⟩
        | recording | returned | panicked =>
          rw [htick] at hreq
          cases hreq
      · cases hx

theorem exec_tick (sys : CronSystem ι) (e : CronEvent ι J) (s : ι) :
    (∃ plan nowMs utcNow, e = .beginTick s plan nowMs utcNow ∧ (sys.exec cal e).2.tick s =
      .start cal nowMs utcNow (sys.store.call (J := J) plan .listSchedules).1) ∨
    ¬e.Begins s ∧ ((sys.exec cal e).2.tick s = sys.tick s ∨
      ∃ reply : Result J, (sys.exec cal e).2.tick s = (sys.tick s).resume cal reply) := by
  cases e with
  | beginTick t plan nowMs utcNow =>
    by_cases hs : s = t
    · subst hs
      exact .inl ⟨plan, nowMs, utcNow, rfl, (tick_setTick sys s _ s).trans (if_pos rfl)⟩
    · exact .inr ⟨fun h => hs h.symm, .inl ((tick_setTick sys t _ s).trans (if_neg hs))⟩
  | tickStep t _ clock nanoid =>
    refine .inr ⟨fun h => h, ?_⟩
    simp only [exec]
    cases (sys.tick t).request (J := J) clock nanoid with
    | none => exact .inl rfl
    | some =>
      by_cases hs : s = t
      · subst hs
        exact .inr ⟨_, (tick_setTick sys s _ s).trans (if_pos rfl)⟩
      · exact .inl ((tick_setTick sys t _ s).trans (if_neg hs))
  | registerSchedules | store => exact .inr ⟨fun h => h, .inl rfl⟩

/-- Every step of a tick keeps its first row due. -/
theorem exec_due (e : CronEvent ι J) (h : (sys.tick s).Due cal) :
    ((sys.exec cal e).2.tick s).Due cal := by
  rcases exec_tick cal sys e s with ⟨plan, nowMs, utcNow, -, ht⟩ | ⟨-, ht | ⟨reply, ht⟩⟩
  · rw [ht]
    exact (Tick.start_spec cal nowMs utcNow _).1
  · rw [ht]
    exact h
  · rw [ht]
    exact ((sys.tick s).resume_spec cal reply).1

theorem exec_remaining {e : CronEvent ι J} (hb : ¬e.Begins s)
    (h : ((sys.exec cal e).2.tick s).remaining = some (now, rest)) :
    ∃ rest₀, (sys.tick s).remaining = some (now, rest₀) ∧ rest <:+ rest₀ := by
  rcases exec_tick cal sys e s with ⟨plan, nowMs, utcNow, rfl, -⟩ | ⟨-, ht | ⟨reply, ht⟩⟩
  · exact absurd rfl hb
  · rw [ht] at h
    exact ⟨rest, h, suffix_rfl⟩
  · rw [ht] at h
    exact ((sys.tick s).resume_spec cal reply).2 now rest h

/-- The last tick that server `s` began read `rows`, and computes with `now`. -/
def Began (sys : CronSystem ι) (events : List (CronEvent ι J)) (s : ι) (now : ℤ)
    (rows : List ScheduleRow) : Prop :=
  ∃ earlier plan nowMs utcNow mid, events = earlier ++ .beginTick s plan nowMs utcNow :: mid ∧
    (∀ e ∈ mid, ¬e.Begins s) ∧ now = Tick.now cal nowMs utcNow ∧
    ((sys.after cal earlier).store.call (J := J) plan .listSchedules).1 = .ok (.schedules rows)

/-- What a tick has yet to do is an end of what it listed when it began. -/
theorem began_of_remaining (hnew : sys.IsNew) (events : List (CronEvent ι J))
    (h : ((sys.after cal events).tick s).remaining = some (now, rest)) :
    ∃ rows, sys.Began cal events s now rows ∧ rest <:+ rows := by
  induction events using List.reverseRecOn generalizing rest with
  | nil =>
    obtain ⟨r, hr⟩ := hnew.idle s
    have hnone : (sys.tick s).remaining = none := by rw [hr]; rfl
    exact absurd (hnone.symm.trans h) (by simp)
  | append_singleton events e ih =>
    have hlast : sys.after cal (events ++ [e]) = ((sys.after cal events).exec cal e).2 :=
      after_concat _ _ _ _
    rw [hlast] at h
    rcases exec_tick cal (sys.after cal events) e s with ⟨plan, nowMs, utcNow, rfl, ht⟩ | ⟨hb, -⟩
    · rw [ht] at h
      obtain ⟨hnow, rows, hlisted, hsuffix⟩ := (Tick.start_spec cal nowMs utcNow _).2 now rest h
      exact ⟨rows, ⟨events, plan, nowMs, utcNow, [], rfl, by simp, hnow, hlisted⟩, hsuffix⟩
    · obtain ⟨_, hrest₀, hsuffix₀⟩ := exec_remaining cal hb h
      obtain ⟨rows, ⟨earlier, plan, nowMs, utcNow, mid, rfl, hmid, hnow, hlisted⟩, hsuffix⟩ :=
        ih hrest₀
      refine ⟨rows, ⟨earlier, plan, nowMs, utcNow, mid ++ [e], by simp, ?_, hnow, hlisted⟩,
        hsuffix₀.trans hsuffix⟩
      intro e' he'
      rcases mem_append.mp he' with hm | hm
      · exact hmid e' hm
      · rw [mem_singleton.mp hm]
        exact hb
end CronSystem

theorem Step.listSchedules_nodup {q q' : Queue}
    (hs : Step rejects q (.listSchedules : Call J) (.ok (.schedules rows)) q') :
    (rows.map ScheduleRow.name).Nodup := by
  cases hs with
  | listSchedules hn => exact hn

namespace CronSystem
variable {ι : Type} [DecidableEq ι] {sys : CronSystem ι}
theorem remaining_nodup (hnew : sys.IsNew) (events : List (CronEvent ι J)) {s : ι}
    (h : ((sys.after cal events).tick s).remaining = some (now, rest)) :
    (rest.map ScheduleRow.name).Nodup := by
  obtain ⟨_, ⟨earlier, plan, _, _, _, -, -, -, hlisted⟩, hsuffix⟩ :=
    began_of_remaining cal hnew events h
  have hstep := RunsDb.call_refines (inv_after cal hnew.store.inv earlier) plan
    (.listSchedules : Call J)
  rw [hlisted] at hstep
  exact hstep.listSchedules_nodup.sublist (hsuffix.sublist.map _)

theorem remaining_excludes {s : ι} {name : String}
    (h0 : ∀ now rest, (sys.tick s).remaining = some (now, rest) → name ∉ rest.map ScheduleRow.name)
    (events : List (CronEvent ι J)) (hb : ∀ e ∈ events, ¬e.Begins s) :
    ∀ now rest, ((sys.after cal events).tick s).remaining = some (now, rest) →
      name ∉ rest.map ScheduleRow.name := by
  apply after_induction (P := fun t : CronSystem ι => ∀ now rest,
    (t.tick s).remaining = some (now, rest) → name ∉ rest.map ScheduleRow.name) _ _ _ h0
  intro e he _ ht now _ hrest
  obtain ⟨rest₀, hrest₀, hsuffix⟩ := exec_remaining cal (hb e he) hrest
  intro hm
  exact ht now rest₀ hrest₀ ((hsuffix.sublist.map _).subset hm)

theorem tickStep_remaining {s : ι} {boundary : ℤ} {row : ScheduleRow} {enqueued : ℕ}
    (ht : sys.tick s = .enqueueing now row boundary rest enqueued) (plan : Planner)
    (clock : ClockMs) (nanoid : String) {now' : ℤ} {rest' : List ScheduleRow}
    (h : ((sys.exec cal (.tickStep s plan clock nanoid : CronEvent ι J)).2.tick s).remaining =
      some (now', rest')) :
    rest' = rest := by
  have hreq : (sys.tick s).request (J := J) clock nanoid =
      some (.enqueue clock nanoid row.name J.emptyObject (Tick.cronOpts row.name boundary)) := by
    rw [ht]
    rfl
  simp only [exec, hreq] at h
  rw [tick_setTick, if_pos rfl, ht] at h
  revert h
  generalize (sys.store.call plan (.enqueue clock nanoid row.name J.emptyObject
    (Tick.cronOpts row.name boundary))).1 = reply
  intro h
  cases reply with
  | error => cases h
  | ok =>
    cases h
    rfl

def Prunes (sys : CronSystem ι) (events : List (CronEvent ι J)) (id : String) : Prop :=
  ∃ before plan cutoffMs limit later,
    events = before ++ .store (.call plan (.pruneFinishedBefore cutoffMs limit)) :: later ∧
    (sys.after cal before).store.abs.run id ≠ none ∧
    ((sys.after cal before).store.call (J := J) plan
      (.pruneFinishedBefore cutoffMs limit)).2.abs.run id = none

theorem prunes_of_gone (h : sys.store.Inv) (hsome : sys.store.abs.run id ≠ none)
    (events : List (CronEvent ι J)) (hnone : (sys.after cal events).store.abs.run id = none) :
    sys.Prunes cal events id := by
  obtain ⟨before, e, later, hsplit, hpresent, hlost⟩ := exists_losing_input (exec cal)
    (P := fun t : CronSystem ι => t.store.abs.run id ≠ none) sys events hsome (not_not.mpr hnone)
  have hgone := not_not.mp hlost
  obtain ⟨plan, cutoffMs, limit, rfl⟩ := exec_gone cal (inv_after cal h before) hpresent hgone
  exact ⟨before, plan, cutoffMs, limit, later, hsplit, hpresent, hgone⟩

theorem after_append_cons (sys : CronSystem ι) (before : List (CronEvent ι J)) (e : CronEvent ι J)
    (mid : List (CronEvent ι J)) : sys.after cal (before ++ e :: mid) =
      (((sys.after cal before).exec cal e).2).after cal mid := by
  rw [after, after_append]
  rfl
end CronSystem

/-- What holds of the events so far, with an event that is about to happen. -/
structure FiresOnce {ι : Type} [DecidableEq ι] (sys : CronSystem ι)
    (events : List (CronEvent ι J)) : Prop where
  /-- The run of a boundary is created again only after it was pruned. -/
  boundary : ∀ (before : List (CronEvent ι J)) (e₁ : CronEvent ι J) (mid : List (CronEvent ι J))
    (e₂ : CronEvent ι J) (name : String) (bucketMs : ℤ), events = before ++ e₁ :: mid →
    (sys.after cal before).Creates cal e₁ (cronId name bucketMs) →
    (sys.after cal events).Creates cal e₂ (cronId name bucketMs) →
    (((sys.after cal before).exec cal e₁).2).Prunes cal mid (cronId name bucketMs)
  /-- A tick creates runs for the schedules that it has read, each for the latest
  boundary that is not after its `now`. -/
  latest : ∀ (s : ι) (plan : Planner) (clock : ClockMs) (nanoid id : String),
    (sys.after cal events).Creates cal (.tickStep s plan clock nanoid : CronEvent ι J) id →
    ∃ now rows row schedule boundary, sys.Began cal events s now rows ∧ row ∈ rows ∧
      cal.fromStr row.cron = .ok schedule ∧
      IsGreatest {b | cal.IsBoundary schedule b ∧ b ≤ now} boundary ∧
      id = cronId row.name (timestampMillis boundary)
  /-- After it has created one run of a schedule, a server creates another one only
  in a new tick. -/
  single : ∀ (before : List (CronEvent ι J)) (s : ι) (plan₁ : Planner) (clock₁ : ClockMs)
    (nanoid₁ : String) (mid : List (CronEvent ι J)) (plan₂ : Planner) (clock₂ : ClockMs)
    (nanoid₂ name : String) (bucketMs₁ bucketMs₂ : ℤ),
    events = before ++ .tickStep s plan₁ clock₁ nanoid₁ :: mid →
    (sys.after cal before).Creates cal (.tickStep s plan₁ clock₁ nanoid₁ : CronEvent ι J)
      (cronId name bucketMs₁) →
    (sys.after cal events).Creates cal (.tickStep s plan₂ clock₂ nanoid₂ : CronEvent ι J)
      (cronId name bucketMs₂) →
    ∃ e ∈ mid, e.Begins s
  /-- Different schedules and boundaries have different IDs. -/
  injective : ∀ (name name' : String) (bucketMs bucketMs' : ℤ),
    cronId name bucketMs = cronId name' bucketMs' → name = name' ∧ bucketMs = bucketMs'

/-- Servers that share a store tick in any interleaving, with any clocks. -/
theorem cron_fires_once {ι : Type} [DecidableEq ι] {sys : CronSystem ι} (hnew : sys.IsNew)
    (events : List (CronEvent ι J)) : FiresOnce cal sys events := by
  have hinv (evs : List (CronEvent ι J)) : (sys.after cal evs).store.Inv :=
    CronSystem.inv_after cal hnew.store.inv evs
  refine ⟨?_, ?_, ?_, fun _ _ _ _ h => cronId_injective h⟩
  · intro before e₁ mid _ name _ hevents h₁ h₂
    have hgone := h₂.1
    rw [hevents, CronSystem.after_append_cons] at hgone
    exact CronSystem.prunes_of_gone cal (CronSystem.exec_store cal (hinv before) e₁).1 h₁.2
      mid hgone
  · intro s _ _ _ _ hc
    obtain ⟨now, row, boundary, rest, _, htick, hid⟩ :=
      CronSystem.tickStep_creates cal (hinv events) hc
    have hrest : ((sys.after cal events).tick s).remaining = some (now, row :: rest) := by
      rw [htick]
      rfl
    obtain ⟨rows, hbegan, hsuffix⟩ := CronSystem.began_of_remaining cal hnew events hrest
    have hdue : ((sys.after cal events).tick s).Due cal := by
      apply after_induction (P := fun t : CronSystem ι => (t.tick s).Due cal)
      · obtain ⟨r, hr⟩ := hnew.idle s
        rw [hr]
        trivial
      · intro e _ t ht
        exact CronSystem.exec_due cal e ht
    rw [htick] at hdue
    obtain ⟨schedule, hschedule, hgreatest⟩ := hdue
    exact ⟨now, rows, row, schedule, boundary, hbegan, hsuffix.subset mem_cons_self,
      hschedule, hgreatest, hid⟩
  · intro before s plan₁ clock₁ nanoid₁ mid _ _ _ name _ _
      hevents h₁ h₂
    obtain ⟨now₁, row₁, _, rest₁, _, htick₁, hid₁⟩ :=
      CronSystem.tickStep_creates cal (hinv before) h₁
    obtain ⟨now₂, row₂, _, rest₂, _, htick₂, hid₂⟩ :=
      CronSystem.tickStep_creates cal (hinv events) h₂
    have hname₁ := (cronId_injective hid₁).1
    have hname₂ := (cronId_injective hid₂).1
    have hrest₁ : ((sys.after cal before).tick s).remaining = some (now₁, row₁ :: rest₁) := by
      rw [htick₁]
      rfl
    have hnodup := CronSystem.remaining_nodup cal hnew before hrest₁
    by_contra hnone
    -- the first enqueue takes the schedule off the tick's list, and without a new
    -- tick nothing puts it back
    have hpassed : ∀ now rest, ((((sys.after cal before).exec cal
        (.tickStep s plan₁ clock₁ nanoid₁ : CronEvent ι J)).2).tick s).remaining =
        some (now, rest) → name ∉ rest.map ScheduleRow.name := by
      intro _ _ hrest
      rw [CronSystem.tickStep_remaining cal htick₁ plan₁ clock₁ nanoid₁ hrest, hname₁]
      exact (nodup_cons.mp hnodup).1
    have hlater := CronSystem.remaining_excludes cal hpassed mid
      (fun e he hb => hnone ⟨e, he, hb⟩)
    rw [← CronSystem.after_append_cons, ← hevents] at hlater
    apply hlater now₂ (row₂ :: rest₂) (by rw [htick₂]; rfl)
    rw [hname₂]
    exact mem_cons_self

def twoServers : CronSystem Bool := ⟨.sqlite .empty, fun _ => .returned (.ok 0)⟩

/-- Two servers read the schedule before either of them enqueues its run. -/
def bothBegin : List (CronEvent Bool JsonCodec.literals) :=
  [.registerSchedules .stored .epoch [⟨"job", "* * * * * *"⟩],
    .beginTick true .stored 5000 0,
    .beginTick false .stored 5999 0]

theorem bothBegin_creates : (twoServers.after .everySecond bothBegin).Creates .everySecond
      (.tickStep true .stored .epoch "nanoid" : CronEvent Bool JsonCodec.literals)
      "cron:job:5000" :=
  ⟨by decide +kernel, by decide +kernel⟩

theorem cron_fires_once_bothBegin :
    ∃ now rows row schedule boundary,
      twoServers.Began .everySecond bothBegin true now rows ∧ row ∈ rows ∧
      Calendar.everySecond.fromStr row.cron = .ok schedule ∧
      IsGreatest {b | Calendar.everySecond.IsBoundary schedule b ∧ b ≤ now} boundary ∧
      "cron:job:5000" = cronId row.name (timestampMillis boundary) :=
  (cron_fires_once .everySecond ⟨.sqlite, fun _ => ⟨_, rfl⟩⟩ bothBegin).latest true .stored .epoch
    "nanoid" "cron:job:5000" bothBegin_creates

end Tako.Workflow
