import Mathlib
import Tako.TaskPools

/-! The cap on the requests of one address that are served at the same time. -/
namespace Tako.RequestLimits
open Tasks List Function
/-- The `AtomicU32` of an address, and the references into the map that keep it there. -/
structure Entry where
  counter : Option ℕ := none
  guards : ℕ := 0

/-- Where a request is: in `try_acquire`, served, or in `release`. -/
inductive Phase where
  | begun
  | missing
  | found
  | rejecting
  | rejected
  | held
  | releasing
  | removing
  | released
  deriving DecidableEq

namespace Phase
def guarded : Phase → Bool
  | found | rejecting | releasing => true
  | _ => false

def counted : Phase → Bool
  | rejecting | held | releasing => true
  | _ => false

def unreleased : Phase → Bool
  | held | releasing => true
  | _ => false

/-- A counter of zero is not the last word yet. -/
def clears : Phase → Bool
  | found | removing => true
  | _ => false

def inCall : Phase → Bool
  | rejected | held | released => false
  | _ => true
end Phase

open Phase
def fetchAdd (n : ℕ) : ℕ := (n + 1) % 2 ^ 32

def fetchSub (n : ℕ) : ℕ := (n + (2 ^ 32 - 1)) % 2 ^ 32

/-- One operation on the map or on the counter. Under the write lock, which waits for the
references to go, nobody else is at the entry, so that what is done there is one step. -/
def Entry.step (limit : ℕ) (e : Entry) : Phase → Option (Phase × Entry)
  -- `try_acquire`
  | .begun =>
    if e.counter.isSome then some (.found, { e with guards := e.guards + 1 })
    else some (.missing, e)
  | .missing =>
    if e.guards ≠ 0 then none
    else
      let prev := e.counter.getD 0
      if limit ≤ prev then some (.rejected, { e with counter := some (fetchSub (fetchAdd prev)) })
      else some (.held, { e with counter := some (fetchAdd prev) })
  | .found =>
    let prev := e.counter.getD 0
    if limit ≤ prev then some (.rejecting, { e with counter := some (fetchAdd prev) })
    else some (.held, ⟨some (fetchAdd prev), e.guards - 1⟩)
  | .rejecting => some (.rejected, ⟨e.counter.map fetchSub, e.guards - 1⟩)
  -- `release`
  | .held =>
    if e.counter.isSome then some (.releasing, { e with guards := e.guards + 1 })
    else some (.released, e)
  | .releasing =>
    some (if e.counter = some 1 then .removing else .released,
      ⟨e.counter.map fetchSub, e.guards - 1⟩)
  | .removing =>
    if e.guards ≠ 0 then none else some (.released, if e.counter = some 0 then {} else e)
  | .rejected | .released => none

/-- No rejected attempt lowers a counter to zero, and no counter comes to its end. -/
def Entry.orderly (e : Entry) (phase : Phase) : Bool :=
  e.counter.getD 0 + 1 < 2 ^ 32 && !(phase = .rejecting && e.counter = some 1)

structure Request (Ip : Type) where
  ip : Ip
  phase : Phase

variable {Ip : Type} [DecidableEq Ip] {limit : ℕ}
def Request.start (ip : Ip) : Request Ip := ⟨ip, .begun⟩

def Request.step (limit : ℕ) (r : Request Ip) (_ : Unit) (entries : Ip → Entry) :
    Option (Request Ip × (Ip → Entry)) :=
  ((entries r.ip).step limit r.phase).map fun (phase, e) => (⟨r.ip, phase⟩, update entries r.ip e)

abbrev Tracker (Ip : Type) := Pool (Request Ip) (Ip → Entry)

def serve (limit : ℕ) (events : List (Event Ip Unit)) : Tracker Ip :=
  after Request.start (Request.step limit) ⟨[], fun _ => {}⟩ events

def count (f : Phase → Bool) (ip : Ip) (requests : List (Request Ip)) : ℕ :=
  requests.countP fun r => r.ip = ip && f r.phase

def orderly : Event Ip Unit → Tracker Ip → Bool
  | .start _, _ => true
  | .run k _, p => p.tasks[k]?.all fun r => (p.shared r.ip).orderly r.phase

theorem Entry.step_spec {e e' : Entry} {phase phase' : Phase} (hlimit : 0 < limit)
    (h : e.step limit phase = some (phase', e')) (hguard : phase.guarded → 0 < e.guards)
    (hcounter : phase.counted → 0 < e.counter.getD 0) (hkept : e.counter = none → e.guards = 0)
    (horderly : e.orderly phase) :
    e'.guards + phase.guarded.toNat = e.guards + phase'.guarded.toNat ∧
      e'.counter.getD 0 + phase.counted.toNat = e.counter.getD 0 + phase'.counted.toNat ∧
      (e'.counter = none → e'.guards = 0) ∧
      (e'.counter = some 0 → phase'.clears ∨ e.counter = some 0 ∧ phase.clears = false) ∧
      (phase'.unreleased → phase.unreleased ∨ e.counter.getD 0 < limit) := by
  -- where the request is; the counter neither wraps nor is at zero when it is lowered
  obtain ⟨counter, guards⟩ := e
  cases counter <;> cases phase <;> simp only [Entry.step] at h <;>
    grind [fetchAdd, fetchSub, orderly, guarded, counted, clears,
      unreleased]

/-- A counter has a share for each request that is served or about to be turned away, and an
entry with none is about to be taken or removed. -/
structure Sound (limit : ℕ) (ip : Ip) (e : Entry) (requests : List (Request Ip)) : Prop where
  guards : e.guards = count guarded ip requests
  counter : e.counter.getD 0 = count counted ip requests
  kept : e.counter = none → e.guards = 0
  cleared : e.counter = some 0 → 0 < count clears ip requests
  capped : count unreleased ip requests ≤ limit

section
variable {requests : List (Request Ip)} {e : Entry} {k : ℕ} {r : Request Ip}
theorem count_unreleased_le (requests : List (Request Ip)) (ip : Ip) :
    count unreleased ip requests ≤ count counted ip requests := by
  refine countP_mono_left fun r _ => ?_
  cases r.phase <;> simp [unreleased, counted]

theorem Sound.of_count {ip : Ip} {requests' : List (Request Ip)} (h : Sound limit ip e requests)
    (hcount : ∀ f : Phase → Bool, f .begun = false → count f ip requests' = count f ip requests) :
    Sound limit ip e requests' := by
  constructor
  · rw [hcount _ rfl]
    exact h.guards
  · rw [hcount _ rfl]
    exact h.counter
  · exact h.kept
  · rw [hcount _ rfl]
    exact h.cleared
  · rw [hcount _ rfl]
    exact h.capped

/-- A request takes its share before it is served and gives it back once. -/
theorem Sound.run (hr : requests[k]? = some r) (h : Sound limit r.ip e requests)
    (hlimit : 0 < limit) (horderly : e.orderly r.phase) {phase : Phase} {e' : Entry}
    (hstep : e.step limit r.phase = some (phase, e')) :
    Sound limit r.ip e' (requests.set k ⟨r.ip, phase⟩) := by
  have hold {f : Phase → Bool} (hf : f r.phase) : 0 < count f r.ip requests :=
    countP_pos_iff.mpr ⟨r, mem_of_getElem? hr, by simp [hf]⟩
  have hnew (f : Phase → Bool) : count f r.ip (requests.set k ⟨r.ip, phase⟩) +
      (f r.phase).toNat = count f r.ip requests + (f phase).toNat := by
    simpa [count, Bool.toNat, cond_eq_ite] using
      countP_set_add (p := fun u : Request Ip => u.ip = r.ip && f u.phase) hr ⟨r.ip, phase⟩
  obtain ⟨hguards, hcounter, hkept, hcleared, hcapped⟩ := Entry.step_spec hlimit hstep
    (fun hf => h.guards ▸ hold hf) (fun hf => h.counter ▸ hold hf) h.kept horderly
  refine ⟨?_, ?_, hkept, fun hzero => ?_, ?_⟩
  · have hadd := hnew guarded
    have heq := h.guards
    omega
  · have hadd := hnew counted
    have heq := h.counter
    omega
  · have hadd := hnew clears
    obtain hclears | ⟨hbefore, hnot⟩ := hcleared hzero
    · have hpos := hold (f := clears)
      grind [Bool.toNat]
    · have hpos := h.cleared hbefore
      grind [Bool.toNat]
  · have hadd := hnew unreleased
    have hle := count_unreleased_le requests r.ip
    have heq := h.counter
    have hcap := h.capped
    grind [Bool.toNat]

theorem Sound.settled {ip : Ip} (h : Sound limit ip e requests)
    (hdone : ∀ r ∈ requests, r.phase.inCall = false)
    (hnone : count unreleased ip requests = 0) : e.counter = none := by
  have hcounted : count counted ip requests = 0 := by
    rw [← hnone]
    refine countP_congr fun r hr => ?_
    have hr := hdone r hr
    cases hphase : r.phase <;> simp_all [counted, unreleased, inCall]
  cases hcounter : e.counter with
  | none => rfl
  | some n =>
    have hzero : e.counter.getD 0 = 0 := h.counter.trans hcounted
    rw [hcounter] at hzero
    obtain ⟨r, hr, hclears⟩ := countP_pos_iff.mp (h.cleared (hcounter.trans (congrArg some hzero)))
    have hr := hdone r hr
    cases hphase : r.phase <;> simp_all [clears, inCall]
end

theorem sound_kept (hlimit : 0 < limit) : Kept Request.start (Request.step limit)
    (fun event p => orderly event p = true)
    fun p : Tracker Ip => ∀ ip, Sound limit ip (p.shared ip) p.tasks where
  start p new hI _ ip := (hI ip).of_count fun f hf => by simp [count, Request.start, hf]
  run p k _ r r' entries hI hC hr hstep ip := by
    obtain ⟨⟨phase, e⟩, he, heq⟩ := Option.map_eq_some_iff.mp hstep
    obtain ⟨rfl, rfl⟩ := Prod.mk.inj heq
    dsimp only
    obtain rfl | hne := eq_or_ne ip r.ip
    · rw [update_self]
      rw [orderly, hr] at hC
      exact (hI r.ip).run hr hlimit hC he
    · rw [update_of_ne hne]
      exact (hI ip).of_count fun f _ => countP_set_eq hr (by simp [hne.symm])

theorem request_cap (hlimit : 0 < limit) {events : List (Event Ip Unit)}
    (h : Meets Request.start (Request.step limit) (fun event p => orderly event p = true)
      ⟨[], fun _ => {}⟩ events) (ip : Ip) :
    let p := serve limit events
    count unreleased ip p.tasks ≤ limit ∧
      (p.shared ip).counter.getD 0 = count counted ip p.tasks ∧
      (∀ r ∈ p.tasks, r.ip = ip → r.phase.counted → 0 < (p.shared ip).counter.getD 0) ∧
      ((∀ r ∈ p.tasks, r.phase.inCall = false) → count unreleased ip p.tasks = 0 →
        (p.shared ip).counter = none) := by
  have hsound : Sound limit ip ((serve limit events).shared ip) (serve limit events).tasks :=
    (sound_kept hlimit).after (fun ip => by constructor <;> simp [count]) h ip
  refine ⟨hsound.capped, hsound.counter, fun r hr hip hcounted => ?_, hsound.settled⟩
  have hpos : 0 < count counted ip _ :=
    countP_pos_iff.mpr ⟨r, hr, by simp [hip, hcounted]⟩
  rw [← hsound.counter] at hpos
  exact hpos

def steps (requests : List ℕ) : List (Event ℕ Unit) := requests.map fun k => .run k ()

theorem request_cap_two : let p := serve 1 (.start 7 :: .start 7 :: steps [0, 0, 1, 1, 1, 0, 0, 0])
    (p.shared 7).counter = none := by
  refine (request_cap (by decide : 0 < 1) ?_ 7).2.2.2 ?_ ?_ <;> decide +kernel

/-- A request is released while another is being turned away, which then leaves the entry. -/
theorem rejected_request_leaves_entry :
    let p := serve 1 (.start 7 :: .start 7 :: steps [0, 0, 1, 1, 0, 0, 1])
    (∀ r ∈ p.tasks, r.phase.inCall = false) ∧ count unreleased 7 p.tasks = 0 ∧
      (p.shared 7).counter = some 0 := by
  decide +kernel

end Tako.RequestLimits
