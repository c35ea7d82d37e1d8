import Mathlib.Logic.Embedding.Basic
import Tako.TaskPools

/-! The hand-over between the management primaries of a network directory, under the exclusive and
the shared lock of the activity file. -/
namespace Tako.Primaries
open Tasks List
abbrev Inode := ℕ

/-- The entries of the two files. The activity file is empty; the generation file has the
token of the claim that replaced it last. -/
structure Directory where
  activity : Option Inode := none
  inodes : ℕ := 0
  generation : Option String := none
  written : ℕ := 0

inductive Lock where
  | shared
  | exclusive
deriving DecidableEq

/-- How far a claim or a call of `admit` is, with its descriptor of the activity file.
A generation is numbered by the token that it has. -/
inductive Task where
  | opening
  | checking
  | creating
  | probing (f : Inode)
  | probed (f : Inode)
  | reopening
  | waiting (f : Inode)
  | locked (f : Inode)
  | written (f : Inode) (n : ℕ)
  | handoff (f : Inode) (n : ℕ)
  | admitting (n : ℕ)
  | sharing (n : ℕ) (f : Inode)
  | reading (n : ℕ) (f : Inode)
  | guard (n : ℕ) (f : Inode)
  | closed
deriving DecidableEq

namespace Task
def file : Task → Option Inode
  | probing f | probed f | waiting f | locked f | written f _ | handoff f _ => some f
  | sharing _ f | reading _ f | guard _ f => some f
  | _ => none

def lock : Task → Option Lock
  | probed _ | locked _ | written .. | handoff .. => some .exclusive
  | reading .. | guard .. => some .shared
  | _ => none

/-- The generation that the generation file has as long as the lock is held. -/
def generation : Task → Option ℕ
  | written _ n | handoff _ n | guard n _ => some n
  | _ => none

/-- Where `flock` refuses a lock on the file to another descriptor. -/
def refuses (wanted : Lock) (f : Inode) (t : Task) : Bool :=
  t.file = some f && (t.lock = some .exclusive || wanted = .exclusive && t.lock.isSome)

theorem exists_file {t : Task} (h : t.lock.isSome) : ∃ f, t.file = some f := by
  cases t with
  | probed f | locked f | written f | handoff f | reading _ f | guard _ f => exact ⟨f, rfl⟩
  | _ => cases h

theorem lock_of_generation {t : Task} {n : ℕ} (h : t.generation = some n) : t.lock.isSome := by
  cases t with
  | written | handoff | guard => rfl
  | _ => cases h
end Task

inductive Call where
  | claim
  | dispatch (generation : ℕ)

def Call.task : Call → Task
  | .claim => .opening
  | .dispatch n => .admitting n

/-- What happens. A task is closed when its process stops, when it returns an error and
when what it has returned is dropped; each closes its descriptor. -/
inductive Moment where
  | start (call : Call)
  | go (k : ℕ)
  | close (k : ℕ)

section
variable (token : ℕ ↪ String) (tasks : List Task) (d : Directory)
/-- One access to the directory or to the lock. The `i`-th token is `token i`. -/
def step : Task → Option (Task × Directory)
  -- `activity_file`
  | .opening => some (d.activity.elim .checking .waiting, d)
  | .checking => some (if d.generation.isSome then .closed else .creating, d)
  | .creating =>
    match d.activity with
    | some f => some (.probing f, d)
    | none => some (.probing d.inodes, { d with activity := some d.inodes, inodes := d.inodes + 1 })
  | .probing f => some (if tasks.any (Task.refuses .exclusive f) then .reopening else .probed f, d)
  | .probed _ => some (.reopening, d)
  | .reopening => some (d.activity.elim .closed .waiting, d)
  -- `claim_in`, and `finish` of what it returned
  | .waiting f => if tasks.any (Task.refuses .exclusive f) then none else some (.locked f, d)
  | .locked f =>
    some (.written f d.written,
      { d with generation := some (token d.written), written := d.written + 1 })
  | .written f n => some (.handoff f n, d)
  | .handoff .. => some (.closed, d)
  -- `admit`
  | .admitting n => some (d.activity.elim .closed (.sharing n), d)
  | .sharing n f => some (if tasks.any (Task.refuses .shared f) then .closed else .reading n f, d)
  | .reading n f => some (if d.generation = some (token n) then .guard n f else .closed, d)
  | .guard .. | .closed => none

def exec (p : Pool Task Directory) : Moment → Pool Task Directory
  | .start call => { p with tasks := p.tasks ++ [call.task] }
  | .close k => { p with tasks := p.tasks.set k .closed }
  | .go k =>
    match p.tasks[k]? with
    | none => p
    | some t =>
      match step token p.tasks p.shared t with
      | none => p
      | some (t', d) => ⟨p.tasks.set k t', d⟩

def run (moments : List Moment) : Pool Task Directory := moments.foldl (exec token) ⟨[], {}⟩
end

variable {token : ℕ ↪ String} {past : Directory} {p : Pool Task Directory} {k : ℕ} {t t' : Task}
def Directory.Shows (token : ℕ ↪ String) (d : Directory) (n : ℕ) : Prop :=
  d.generation = some (token n)

/-- The locks are as `flock` grants them, and the directory is as it was in the past, but
for later claims. -/
structure Fenced (token : ℕ ↪ String) (past : Directory) (p : Pool Task Directory) : Prop where
  file : ∀ t ∈ p.tasks, ∀ f ∈ t.file, p.shared.activity = some f
  apart : Apart (fun t : Task => t.lock = some .exclusive) (fun t : Task => t.lock.isSome) p.tasks
  shows : ∀ t ∈ p.tasks, ∀ n ∈ t.generation, p.shared.Shows token n
  written : ∀ n, p.shared.Shows token n → n < p.shared.written
  same : ∀ f, past.activity = some f → p.shared.activity = some f
  since : ∀ n, past.Shows token n → ∃ m, n ≤ m ∧ p.shared.Shows token m

namespace Fenced
variable (h : Fenced token past p)
include h
def Locks (p : Pool Task Directory) (t t' : Task) : Prop :=
  t'.lock = none ∨ t'.lock = t.lock ∨
    ∃ wanted f, t'.lock = some wanted ∧ p.shared.activity = some f ∧
      ¬p.tasks.any (Task.refuses wanted f)

theorem set (ht : p.tasks[k]? = some t) (hlocks : Locks p t t') :
    Apart (fun t : Task => t.lock = some .exclusive) (fun t : Task => t.lock.isSome)
      (p.tasks.set k t') := by
  have hfree {wanted : Lock} {f : Inode} (hf : p.shared.activity = some f)
      (hany : ¬p.tasks.any (Task.refuses wanted f)) (u : Task) (hu : u ∈ p.tasks)
      (hlock : u.lock.isSome) : ¬(u.lock = some .exclusive ∨ wanted = .exclusive) := by
    obtain ⟨g, hg⟩ := Task.exists_file hlock
    obtain rfl : f = g := Option.some.inj (hf.symm.trans (h.file u hu g hg))
    intro hmode
    refine hany (any_eq_true.mpr ⟨u, hu, ?_⟩)
    simp [Task.refuses, hg, hlock, hmode]
  apply h.apart.set ht
  · intro hexclusive
    obtain hnone | hsame | ⟨wanted, f, hwanted, hf, hany⟩ := hlocks
    · rw [hnone] at hexclusive
      cases hexclusive
    · exact .inl (hsame ▸ hexclusive)
    · obtain rfl := Option.some.inj (hwanted.symm.trans hexclusive)
      exact .inr fun ⟨u, hu, hlock⟩ => hfree hf hany u hu hlock (.inr rfl)
  · intro hsome
    obtain hnone | hsame | ⟨_, _, _, hf, hany⟩ := hlocks
    · rw [hnone] at hsome
      cases hsome
    · exact .inl (hsame ▸ hsome)
    · refine .inr fun ⟨u, hu, hlock⟩ => hfree hf hany u hu ?_ (.inl hlock)
      rw [hlock]
      rfl

theorem stays (ht : p.tasks[k]? = some t) (hlocks : Locks p t t')
    (hfile : ∀ f ∈ t'.file, p.shared.activity = some f)
    (hshows : ∀ n ∈ t'.generation, p.shared.Shows token n) :
    Fenced token past ⟨p.tasks.set k t', p.shared⟩ :=
  { h with
    file := forall_set h.file hfile
    apart := h.set ht hlocks
    shows := forall_set h.shows hshows }

theorem waits (ht : p.tasks[k]? = some t) (hlock : t'.lock = none)
    (hfile : ∀ f ∈ t'.file, p.shared.activity = some f) :
    Fenced token past ⟨p.tasks.set k t', p.shared⟩ := by
  refine h.stays ht (.inl hlock) hfile fun n hn => ?_
  have hsome := Task.lock_of_generation hn
  rw [hlock] at hsome
  cases hsome

theorem opens (ht : p.tasks[k]? = some t) {missing : Task} {found : Inode → Task}
    (hmissing : missing.lock = none ∧ missing.file = none)
    (hfound : ∀ f, (found f).lock = none ∧ (found f).file = some f) :
    Fenced token past ⟨p.tasks.set k (p.shared.activity.elim missing found), p.shared⟩ := by
  cases hactivity : p.shared.activity with
  | none =>
    refine h.waits ht hmissing.1 fun f hf => ?_
    rw [Option.elim_none, hmissing.2] at hf
    cases hf
  | some f => exact h.waits ht (hfound f).1 fun g hg => hactivity.trans ((hfound f).2.symm.trans hg)

/-- A process changes the directory only under the lock it has. -/
theorem step (ht : p.tasks[k]? = some t) {d : Directory}
    (hstep : step token p.tasks p.shared t = some (t', d)) :
    Fenced token past ⟨p.tasks.set k t', d⟩ := by
  have hfile := h.file t (mem_of_getElem? ht)
  have hshows := h.shows t (mem_of_getElem? ht)
  have hlocks {u : Task} {wanted : Lock} {f : Inode} (hlock : u.lock = some wanted)
      (hf : f ∈ t.file) (hany : ¬p.tasks.any (Task.refuses wanted f)) : Locks p t u :=
    .inr (.inr ⟨wanted, f, hlock, hfile f hf, hany⟩)
  cases t with
  | opening | reopening | admitting =>
    cases hstep
    exact h.opens ht ⟨rfl, rfl⟩ fun _ => ⟨rfl, rfl⟩
  | checking =>
    cases hstep
    split <;> exact h.waits ht rfl nofun
  | creating =>
    simp only [Primaries.step] at hstep
    split at hstep
    · rename_i f hf
      cases hstep
      exact h.waits ht rfl fun g hg => hf.trans hg
    · rename_i hnone
      cases hstep
      refine { h with
        file := forall_set (fun u hu f hf => ?_) fun f hf => hf
        apart := h.set ht (.inl rfl)
        shows := forall_set h.shows nofun
        same := fun f hf => ?_ }
      · cases hnone.symm.trans (h.file u hu f hf)
      · cases hnone.symm.trans (h.same f hf)
  | probing f | sharing n f =>
    cases hstep
    split
    · exact h.waits ht rfl nofun
    · rename_i hany
      exact h.stays ht (hlocks rfl rfl hany) hfile nofun
  | probed | handoff =>
    cases hstep
    exact h.waits ht rfl nofun
  | waiting f =>
    simp only [Primaries.step] at hstep
    split at hstep
    · cases hstep
    · rename_i hany
      cases hstep
      exact h.stays ht (hlocks rfl rfl hany) hfile nofun
  | locked =>
    cases hstep
    refine ⟨forall_set h.file hfile, h.set ht (.inr (.inl rfl)),
      forall_set_ne (fun j u hkj hu n hn => ?_) fun n hn => ?_, fun n hn => ?_, h.same,
      fun n hn => ⟨p.shared.written, ?_, rfl⟩⟩
    · -- whoever else relies on the generation file would hold a lock
      exact absurd (h.apart k j _ u ht hu rfl (Task.lock_of_generation hn)) hkj
    · cases hn
      rfl
    · rw [← token.injective (Option.some.inj hn)]
      exact Nat.lt_succ_self _
    · obtain ⟨m, hnm, hm⟩ := h.since n hn
      exact Nat.le_of_lt (Nat.lt_of_le_of_lt hnm (h.written m hm))
  | written =>
    cases hstep
    exact h.stays ht (.inr (.inl rfl)) hfile hshows
  | reading n f =>
    cases hstep
    split
    · rename_i hread
      refine h.stays ht (.inr (.inl rfl)) hfile fun m hm => ?_
      cases hm
      exact hread
    · exact h.waits ht rfl nofun
  | guard | closed => cases hstep

theorem exec (moment : Moment) : Fenced token past (exec token p moment) := by
  cases moment with
  | start call =>
    have hidle : call.task.file = none ∧ call.task.lock = none ∧ call.task.generation = none := by
      cases call <;> exact ⟨rfl, rfl, rfl⟩
    refine { h with
      file := forall_append h.file ?_
      apart := h.apart.append ?_ ?_
      shows := forall_append h.shows ?_ } <;> simp [hidle]
  | close k =>
    cases ht : p.tasks[k]? with
    | none =>
      have hsame : p.tasks.set k .closed = p.tasks :=
        set_eq_of_length_le (getElem?_eq_none_iff.mp ht)
      simpa only [Primaries.exec, hsame] using h
    | some => exact h.waits ht rfl nofun
  | go k =>
    simp only [Primaries.exec]
    split
    · exact h
    · rename_i t ht
      split
      · exact h
      · rename_i t' d hstep
        exact h.step ht hstep

theorem foldl (moments : List Moment) :
    Fenced token past (moments.foldl (Primaries.exec token) p) := by
  induction moments generalizing p with
  | nil => exact h
  | cons moment _ ih => exact ih (h.exec moment)
end Fenced

/-- While a handoff is held there is no guard, so that none was outstanding when the claim
returned and `admit` does not succeed. -/
theorem primaries_never_overlap (token : ℕ ↪ String) (moments later : List Moment) :
    (∀ f n, .handoff f n ∈ (run token moments).tasks →
      (∀ m g, .guard m g ∉ (run token moments).tasks) ∧
      ∀ m g, .guard m g ∈ (run token (moments ++ later)).tasks → n ≤ m) ∧
    (∀ m n f g, .guard m f ∈ (run token moments).tasks → .guard n g ∈ (run token moments).tasks →
      m = n) ∧
    ∀ t ∈ (run token moments).tasks, ∀ u ∈ (run token (moments ++ later)).tasks,
      ∀ f ∈ t.file, ∀ g ∈ u.file, f = g := by
  have hstart : Fenced token {} ⟨[], {}⟩ :=
    ⟨nofun, nofun, nofun, nofun, nofun, nofun⟩
  have hnow : Fenced token {} (run token moments) := hstart.foldl moments
  have hthen : Fenced token (run token moments).shared (run token (moments ++ later)) := by
    have hsplit : run token (moments ++ later) = later.foldl (exec token) (run token moments) :=
      foldl_append
    rw [hsplit]
    exact Fenced.foldl { hnow with
      same := fun _ hf => hf, since := fun n hn => ⟨n, Nat.le_refl n, hn⟩ } later
  refine ⟨fun f n hn => ⟨fun m g hm => ?_, fun m g hm => ?_⟩, fun m n f g hm hn => ?_, ?_⟩
  · obtain ⟨j, hj⟩ := getElem?_of_mem hn
    obtain ⟨k, hk⟩ := getElem?_of_mem hm
    obtain rfl := hnow.apart j k _ _ hj hk rfl rfl
    cases hj.symm.trans hk
  · obtain ⟨_, _, hl⟩ := hthen.since n (hnow.shows _ hn n rfl)
    have hread := hthen.shows _ hm m rfl
    rwa [token.injective (Option.some.inj (hread.symm.trans hl))]
  · have hread := hnow.shows _ hm m rfl
    exact token.injective (Option.some.inj (hread.symm.trans (hnow.shows _ hn n rfl)))
  · intro t ht u hu f hf g hg
    have hsame := hthen.same f (hnow.file t ht f hf)
    exact Option.some.inj (hsame.symm.trans (hthen.file u hu g hg))

def marks : ℕ ↪ String where
  toFun n := .ofList (.replicate n '0')
  inj' m n h := by
    have hlength := congrArg String.length h
    simpa using hlength

/-- The first primary is up and has a guard; the claim of a second one waits for it. -/
def guarded : List Moment :=
  .start .claim :: .replicate 10 (.go 0) ++ .start (.dispatch 0) :: .replicate 3 (.go 1) ++
    [.start .claim, .go 2, .go 2]

/-- The guard is dropped, the second primary takes over, and `admit` refuses the first. -/
def handedOver : List Moment :=
  .close 1 :: .replicate 3 (.go 2) ++ [.start (.dispatch 0), .go 3, .go 3]

theorem primaries_never_overlap_handedOver :
    (run marks guarded).tasks = [.closed, .guard 0 0, .waiting 0] ∧
    (run marks (guarded ++ handedOver)).tasks = [.closed, .closed, .handoff 0 1, .closed] ∧
    ∀ later m g, .guard m g ∈ (run marks (guarded ++ handedOver ++ later)).tasks → 1 ≤ m := by
  have htasks : (run marks (guarded ++ handedOver)).tasks =
      [.closed, .closed, .handoff 0 1, .closed] := by decide +kernel
  refine ⟨by decide +kernel, htasks, fun later => ?_⟩
  have hhandoff : .handoff 0 1 ∈ (run marks (guarded ++ handedOver)).tasks := by
    rw [htasks]
    decide
  exact ((primaries_never_overlap marks (guarded ++ handedOver) later).1 0 1 hhandoff).2

end Tako.Primaries
