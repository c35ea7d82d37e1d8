import Tako.TaskPools

/-! The locks that keep the lifecycle operations of one app apart. An operation finds
the mutex of its app in a map, and `delete_app` takes the entry out again. -/
namespace Tako.DeployLocks
open Tasks List
/-- The `Arc` of a mutex, by the order in which they were created. -/
abbrev LockId := ℕ

structure ServerState where
  deployLocks : String → Option LockId := fun _ => none
  created : ℕ := 0
  locked : List LockId := []

namespace ServerState
variable (s : ServerState) (app : String)
def insertLock : ServerState :=
  { s with deployLocks := fun a => if a = app then some s.created else s.deployLocks a
           created := s.created + 1 }

def removeLock : ServerState :=
  { s with deployLocks := fun a => if a = app then none else s.deployLocks a }

theorem insertLock_self : (s.insertLock app).deployLocks app = some s.created := if_pos rfl

theorem insertLock_of_ne {app a : String} (h : a ≠ app) :
    (s.insertLock app).deployLocks a = s.deployLocks a := if_neg h

theorem removeLock_self : (s.removeLock app).deployLocks app = none := if_pos rfl

theorem removeLock_of_ne {app a : String} (h : a ≠ app) :
    (s.removeLock app).deployLocks a = s.deployLocks a := if_neg h

def lock (l : LockId) : ServerState := { s with locked := l :: s.locked }

def unlock (l : LockId) : ServerState :=
  { s with locked := s.locked.filter (· ≠ l) }
end ServerState

/-- Whether an operation waits for the mutex or only tries it. Deleting waits. -/
inductive Kind where
  | waits
  | tries
  | deletes
  deriving DecidableEq

/-- Where an operation is. `get_deploy_lock` looks the mutex up under the read lock of
the map and, if there is none, once more under the write lock. -/
inductive Phase where
  | begun
  | missed
  | cloned (l : LockId)
  | inside (l : LockId)
  | removed (l : LockId)
  | done
  deriving DecidableEq

structure Lifecycle where
  app : String
  kind : Kind
  phase : Phase := .begun
  deriving DecidableEq

namespace Lifecycle
variable (t : Lifecycle)
def enters (phase : Phase) : Lifecycle := { t with phase := phase }

/-- One access to the map or to the mutex. A failed deletion returns before it
removes the entry. -/
def step (succeeds : Bool) (s : ServerState) : Option (Lifecycle × ServerState) :=
  match t.phase with
  | .begun =>
    match s.deployLocks t.app with
    | some l => some (t.enters (.cloned l), s)
    | none => some (t.enters .missed, s)
  | .missed =>
    match s.deployLocks t.app with
    | some l => some (t.enters (.cloned l), s)
    | none => some (t.enters (.cloned s.created), s.insertLock t.app)
  | .cloned l =>
    if l ∈ s.locked then
      if t.kind = .tries then some (t.enters .done, s) else none
    else some (t.enters (.inside l), s.lock l)
  | .inside l =>
    if t.kind = .deletes ∧ succeeds = true then
      some (t.enters (.removed l), s.removeLock t.app)
    else some (t.enters .done, s.unlock l)
  | .removed l => some (t.enters .done, s.unlock l)
  | .done => none

def clone : Option LockId :=
  match t.phase with
  | .cloned l | .inside l | .removed l => some l
  | _ => none

def held : Option LockId :=
  match t.phase with
  | .inside l | .removed l => some l
  | _ => none

def Working (app : String) (t : Lifecycle) : Prop := t.app = app ∧ t.held.isSome

def removed : Bool :=
  match t.phase with
  | .removed _ => true
  | _ => false

def create (w : String × Kind) : Lifecycle := { app := w.1, kind := w.2 }
end Lifecycle

open Lifecycle
/-- Where the lock protocol is safe: a deletion takes an entry out only when no other
operation has a clone of the mutex, and no entry is put in before the deletion has
dropped its guard. -/
def Unshared : Event (String × Kind) Bool → Pool Lifecycle ServerState → Prop
  | .start _, _ => True
  | .run k succeeds, p => ∀ t ∈ p.tasks[k]?,
      (t.phase = .missed → ∀ u ∈ p.tasks, u.app = t.app → u.removed = false) ∧
      (t.kind = .deletes ∧ succeeds = true → t.held.isSome ∧ t.removed = false →
        ∀ u ∈ p.tasks.eraseIdx k, u.app = t.app → u.clone = none)

instance Unshared.decidable : ∀ event p, Decidable (Unshared event p)
  | .start _, _ => .isTrue trivial
  | .run k succeeds, p => inferInstanceAs (Decidable (∀ t ∈ p.tasks[k]?,
      (t.phase = .missed → ∀ u ∈ p.tasks, u.app = t.app → u.removed = false) ∧
      (t.kind = .deletes ∧ succeeds = true → t.held.isSome ∧ t.removed = false →
        ∀ u ∈ p.tasks.eraseIdx k, u.app = t.app → u.clone = none)))

/-- A clone is of the mutex that the map has, except after the entry was taken out,
and a guard is the only one of its mutex. -/
structure Guarded (p : Pool Lifecycle ServerState) : Prop where
  current : ∀ t ∈ p.tasks, t.removed = false → ∀ l ∈ t.clone, p.shared.deployLocks t.app = some l
  vanished : ∀ t ∈ p.tasks, t.removed → p.shared.deployLocks t.app = none
  sole : ∀ app, Alone (fun t : Lifecycle => t.app = app ∧ t.removed) p.tasks
  locked : ∀ t ∈ p.tasks, ∀ l ∈ t.held, l ∈ p.shared.locked
  alone : ∀ l, Alone (fun t : Lifecycle => t.held = some l) p.tasks

namespace Guarded
variable {p : Pool Lifecycle ServerState} {k : ℕ} {t : Lifecycle}
theorem waits (h : Guarded p) (ht : p.tasks[k]? = some t) {phase : Phase}
    (hguard : (t.enters phase).held = none)
    (hclone : ∀ l ∈ (t.enters phase).clone, p.shared.deployLocks t.app = some l)
    (hremoved : (t.enters phase).removed = false) :
    Guarded ⟨p.tasks.set k (t.enters phase), p.shared⟩ where
  current := forall_set h.current fun _ => hclone
  vanished := forall_set h.vanished fun hphase => by
    rw [hremoved] at hphase
    cases hphase
  sole app := (h.sole app).set ht fun hphase => by
    rw [hremoved] at hphase
    cases hphase.2
  locked := forall_set h.locked fun l hl => by
    rw [hguard] at hl
    cases hl
  alone l := (h.alone l).set ht fun hl => by
    rw [hguard] at hl
    cases hl

theorem inserts (h : Guarded p) (ht : p.tasks[k]? = some t)
    (hnone : p.shared.deployLocks t.app = none)
    (hopen : ∀ u ∈ p.tasks, u.app = t.app → u.removed = false) :
    Guarded ⟨p.tasks.set k (t.enters (.cloned p.shared.created)), p.shared.insertLock t.app⟩ where
  current := by
    refine forall_set (fun u hu hremoved l hl => ?_) fun _ l hl => ?_
    · have hcurrent := h.current u hu hremoved l hl
      have happ : u.app ≠ t.app := by
        intro happ
        rw [happ, hnone] at hcurrent
        cases hcurrent
      exact (p.shared.insertLock_of_ne happ).trans hcurrent
    · exact (p.shared.insertLock_self t.app).trans hl
  vanished := by
    refine forall_set (fun u hu hremoved => ?_) nofun
    have happ : u.app ≠ t.app := fun happ => by
      rw [hopen u hu happ] at hremoved
      cases hremoved
    exact (p.shared.insertLock_of_ne happ).trans (h.vanished u hu hremoved)
  sole app := (h.sole app).set ht fun hphase => by cases hphase.2
  locked := forall_set h.locked nofun
  alone l := (h.alone l).set ht nofun

variable {l : LockId}
theorem locks (h : Guarded p) (ht : p.tasks[k]? = some t) (hphase : t.phase = .cloned l)
    (hfree : l ∉ p.shared.locked) :
    Guarded ⟨p.tasks.set k (t.enters (.inside l)), p.shared.lock l⟩ where
  current := forall_set h.current fun _ m hm => by
    have hclone : l ∈ t.clone := by
      rw [clone, hphase]
      rfl
    have hopen : t.removed = false := by rw [removed, hphase]
    cases hm
    exact h.current t (mem_of_getElem? ht) hopen l hclone
  vanished := forall_set h.vanished nofun
  sole app := (h.sole app).set ht fun hremoved => by cases hremoved.2
  locked := by
    refine forall_set (fun u hu m hm => ?_) fun m hm => ?_
    · exact mem_cons_of_mem l (h.locked u hu m hm)
    · cases hm
      exact mem_cons_self
  alone m := by
    refine (h.alone m).set ht fun hm => .inr ?_
    obtain rfl : l = m := Option.some.inj hm
    exact fun ⟨u, hu, hguard⟩ => hfree (h.locked u hu l hguard)

/-- The entry is taken out while nobody else has a clone of the mutex. -/
theorem removes (h : Guarded p) (ht : p.tasks[k]? = some t) (hphase : t.phase = .inside l)
    (hsole : ∀ u ∈ p.tasks.eraseIdx k, u.app = t.app → u.clone = none) :
    Guarded ⟨p.tasks.set k (t.enters (.removed l)), p.shared.removeLock t.app⟩ := by
  have hother (j : ℕ) (u : Lifecycle) (hkj : k ≠ j) (hu : p.tasks[j]? = some u)
      (hclone : u.clone ≠ none) : u.app ≠ t.app := by
    intro happ
    exact hclone (hsole u (mem_eraseIdx_iff_getElem?.mpr ⟨j, hkj.symm, hu⟩) happ)
  have hguard : t.held = some l := by rw [held, hphase]
  constructor
  · refine forall_set_ne (fun j u hkj hu hremoved m hm => ?_) nofun
    have happ := hother j u hkj hu fun hnone => by
      rw [hnone] at hm
      cases hm
    have hcurrent := h.current u (mem_of_getElem? hu) hremoved m hm
    exact (p.shared.removeLock_of_ne happ).trans hcurrent
  · refine forall_set (fun u hu hremoved => ?_) fun _ => p.shared.removeLock_self t.app
    by_cases happ : u.app = t.app
    · rw [happ]
      exact p.shared.removeLock_self t.app
    · exact (p.shared.removeLock_of_ne happ).trans (h.vanished u hu hremoved)
  · intro app
    refine (h.sole app).set ht fun hremoved => .inr ?_
    rintro ⟨u, hu, happ, hgone⟩
    -- an earlier deletion would have left nothing for this one to hold
    have hvanished := h.vanished u hu hgone
    have hcurrent := h.current t (mem_of_getElem? ht) (by rw [removed, hphase]) l
      (by rw [clone, hphase]; rfl)
    have htapp : t.app = app := hremoved.1
    rw [happ, ← htapp, hcurrent] at hvanished
    cases hvanished
  · exact forall_set h.locked fun m hm => by
      cases hm
      exact h.locked t (mem_of_getElem? ht) l hguard
  · intro m
    refine (h.alone m).set ht fun hm => .inl ?_
    rw [hguard]
    exact hm

theorem unlocks (h : Guarded p) (ht : p.tasks[k]? = some t) (hguard : t.held = some l) :
    Guarded ⟨p.tasks.set k (t.enters .done), p.shared.unlock l⟩ where
  current := forall_set h.current nofun
  vanished := forall_set h.vanished nofun
  sole app := (h.sole app).set ht fun hremoved => by cases hremoved.2
  locked := by
    refine forall_set_ne (fun j u hkj hu m hm => ?_) nofun
    have hne : m ≠ l := by
      rintro rfl
      exact hkj (h.alone m k j t u ht hu hguard hm)
    rw [ServerState.unlock, mem_filter]
    exact ⟨h.locked u (mem_of_getElem? hu) m hm, decide_eq_true hne⟩
  alone m := (h.alone m).set ht nofun

theorem kept : Kept create step Unshared Guarded where
  start p w h _ := by
    constructor
    · exact forall_append h.current nofun
    · exact forall_append h.vanished nofun
    · exact fun app => (h.sole app).append fun hremoved => by cases hremoved.2
    · exact forall_append h.locked nofun
    · exact fun l => (h.alone l).append nofun
  run p k succeeds t t' s h hC ht hstep := by
    obtain ⟨hopen, hsole⟩ := hC t ht
    cases hphase : t.phase with
    | begun =>
      simp only [step, hphase] at hstep
      split at hstep
      · rename_i l hl
        cases hstep
        exact h.waits ht rfl (fun m hm => hl.trans hm) rfl
      · cases hstep
        exact h.waits ht rfl nofun rfl
    | missed =>
      simp only [step, hphase] at hstep
      split at hstep
      · rename_i l hl
        cases hstep
        exact h.waits ht rfl (fun m hm => hl.trans hm) rfl
      · rename_i hnone
        cases hstep
        exact h.inserts ht hnone (hopen hphase)
    | cloned l =>
      simp only [step, hphase] at hstep
      split at hstep
      · split at hstep
        · cases hstep
          exact h.waits ht rfl nofun rfl
        · cases hstep
      · rename_i hfree
        cases hstep
        exact h.locks ht hphase hfree
    | inside l =>
      have hguard : t.held = some l := by rw [held, hphase]
      simp only [step, hphase] at hstep
      split at hstep
      · rename_i hdelete
        cases hstep
        have hremoved : t.removed = false := by rw [removed, hphase]
        exact h.removes ht hphase (hsole hdelete ⟨by rw [hguard]; rfl, hremoved⟩)
      · cases hstep
        exact h.unlocks ht hguard
    | removed l =>
      have hguard : t.held = some l := by rw [held, hphase]
      simp only [step, hphase] at hstep
      cases hstep
      exact h.unlocks ht hguard
    | done => simp only [step, hphase, reduceCtorEq] at hstep

theorem initial : Guarded ⟨[], {}⟩ where
  current t ht := absurd ht not_mem_nil
  vanished t ht := absurd ht not_mem_nil
  sole _ j _ t _ ht := by cases ht
  locked t ht := absurd ht not_mem_nil
  alone _ j _ t _ ht := by cases ht

theorem working (h : Guarded p) (app : String) : Alone (Working app) p.tasks := by
  intro j k t u ht hu hworking hworking'
  obtain ⟨l, hl⟩ := Option.isSome_iff_exists.mp hworking.2
  obtain ⟨m, hm⟩ := Option.isSome_iff_exists.mp hworking'.2
  have happ : t.app = u.app := hworking.1.trans hworking'.1.symm
  have hclone (v : Lifecycle) (n : LockId) (hn : v.held = some n) : n ∈ v.clone := by
    cases hphase : v.phase <;> simp_all [held, clone]
  have hcurrent := h.current t (mem_of_getElem? ht)
  have hcurrent' := h.current u (mem_of_getElem? hu)
  cases hremoved : t.removed with
  | true =>
    have hvanished := h.vanished t (mem_of_getElem? ht) hremoved
    cases hremoved' : u.removed with
    | true => exact h.sole app j k t u ht hu ⟨hworking.1, hremoved⟩ ⟨hworking'.1, hremoved'⟩
    | false =>
      rw [happ, hcurrent' hremoved' m (hclone u m hm)] at hvanished
      cases hvanished
  | false =>
    have hentry := hcurrent hremoved l (hclone t l hl)
    cases hremoved' : u.removed with
    | true =>
      rw [happ, h.vanished u (mem_of_getElem? hu) hremoved'] at hentry
      cases hentry
    | false =>
      rw [happ, hcurrent' hremoved' m (hclone u m hm)] at hentry
      exact h.alone l j k t u ht hu hl (hm.trans hentry)
end Guarded

def operations (events : List (Event (String × Kind) Bool)) : Pool Lifecycle ServerState :=
  after create step ⟨[], {}⟩ events

theorem one_operation_per_app (events : List (Event (String × Kind) Bool))
    (hevents : Meets create step Unshared ⟨[], {}⟩ events) (app : String) :
    Alone (Working app) (operations events).tasks :=
  (Guarded.kept.after Guarded.initial hevents).working app

def inTurn : List (Event (String × Kind) Bool) :=
  [.start ("shop", .deletes), .run 0 true, .run 0 true, .run 0 true, .run 0 true, .run 0 true,
    .start ("shop", .tries), .run 1 true, .run 1 true, .run 1 true,
    .start ("shop", .waits), .run 2 true, .run 2 true]

theorem one_operation_per_app_inTurn :
    (∃ t ∈ (operations inTurn).tasks, Working "shop" t) ∧
      ∀ app, Alone (Working app) (operations inTurn).tasks :=
  ⟨⟨⟨"shop", .tries, .inside 1⟩, by decide +kernel, rfl, rfl⟩,
    one_operation_per_app inTurn (by decide +kernel)⟩

/-- A replacement has its clone when the app is deleted. It tries the mutex after the
deletion has dropped the guard, and the next deployment finds another one. -/
def staleClone : List (Event (String × Kind) Bool) :=
  [.start ("shop", .deletes), .run 0 true, .run 0 true, .run 0 true,
    .start ("shop", .tries), .run 1 true, .run 0 true, .run 0 true, .run 1 true,
    .start ("shop", .waits), .run 2 true, .run 2 true, .run 2 true]

theorem two_operations_of_one_app :
    (operations staleClone).tasks[1]? = some ⟨"shop", .tries, .inside 0⟩ ∧
      (operations staleClone).tasks[2]? = some ⟨"shop", .waits, .inside 1⟩ ∧
      ¬Alone (Working "shop") (operations staleClone).tasks := by
  have htries : (operations staleClone).tasks[1]? = some ⟨"shop", .tries, .inside 0⟩ := by
    decide +kernel
  have hwaits : (operations staleClone).tasks[2]? = some ⟨"shop", .waits, .inside 1⟩ := by
    decide +kernel
  refine ⟨htries, hwaits, fun halone => ?_⟩
  have heq := halone 1 2 _ _ htries hwaits ⟨rfl, rfl⟩ ⟨rfl, rfl⟩
  omega

end Tako.DeployLocks
