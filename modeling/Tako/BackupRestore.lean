import Mathlib.Data.List.Basic

/-! The restore of a backup, step by step. It returns at the first step that fails,
and the process may stop after any of them. -/
namespace Tako.Backups
open List
inductive AppState where
  | running
  | idle
  | deploying
  | stopped
  | error
deriving DecidableEq

/-- The steps of `restore_backup_inner` and of `restore_data_tree`. -/
inductive Phase where
  | prepare
  | download
  | checksum
  | decrypt
  | extract
  | stopWorkflows
  | stopApp
  | checkTree
  | removeTransient
  | createParent
  | movePrevious
  | moveExtracted
  | moveBack
  | removePrevious
  | provision
  | syncWorkflows
  | startApp
deriving DecidableEq

def restoreSteps : List Phase :=
  [.prepare, .download, .checksum, .decrypt, .extract, .stopWorkflows, .stopApp, .checkTree,
    .removeTransient, .createParent, .movePrevious, .moveExtracted, .removePrevious, .provision,
    .syncWorkflows, .startApp]

/-- What goes wrong: the steps that fail, those after which the process stops, and how
many instances were killed or started when that failed. -/
structure Faults where
  fails : Phase → Bool
  stops : Phase → Bool
  killed : ℕ
  started : ℕ

variable {Tree : Type}
/-- The data directory, the one that was moved aside, and what is running. -/
structure Site (Tree : Type) where
  data : Option Tree
  previous : Option Tree
  workflows : Bool
  instances : ℕ
  state : AppState
deriving DecidableEq

/-- The backup to restore, which has none of the stores that a restore removes, and
the configuration of the app. -/
structure Request (Tree : Type) where
  content : Tree
  minInstances : ℕ
  hasWorkflows : Bool

inductive Result where
  | ok
  | error (phase : Phase)
  | stopped
deriving DecidableEq

namespace Request
variable (q : Request Tree) (f : Faults)
def returnsError : Phase → Bool
  | .stopWorkflows | .removePrevious | .syncWorkflows => false
  | .startApp => 0 < q.minInstances
  | _ => true

variable (s : Site Tree)
def done : Phase → Site Tree
  | .stopWorkflows => { s with workflows := false }
  | .stopApp => { s with state := .stopped, instances := 0 }
  | .movePrevious => { s with previous := s.data, data := none }
  | .moveExtracted => { s with data := some q.content }
  | .moveBack => { s with data := s.previous, previous := none }
  | .removePrevious => { s with previous := none }
  | .syncWorkflows => { s with workflows := q.hasWorkflows }
  | .startApp =>
    if 0 < q.minInstances then { s with state := .running, instances := q.minInstances }
    else { s with state := .idle }
  | _ => s

variable (p : Phase)
/-- A step that is not returned from. Two of them may have failed. -/
def passed : Site Tree :=
  if f.fails p ∧ (p = .removePrevious ∨ p = .syncWorkflows) then s else q.done s p

def failed : Phase → Site Tree
  | .stopApp => { s with state := .stopped, instances := s.instances - f.killed }
  | .moveExtracted => if f.fails .moveBack then s else q.done s .moveBack
  | .startApp => { s with state := .running, instances := f.started }
  | _ => s

def run : List Phase → Site Tree → Site Tree × Result
  | [], s => (s, .ok)
  | p :: rest, s =>
    -- a data directory that is not there is not moved
    if f.fails p ∧ q.returnsError p ∧ (p = .movePrevious → s.data ≠ none) then
      -- the process may also stop before the old directory is moved back
      if p = .moveExtracted ∧ f.stops p then (s, .stopped) else (q.failed f s p, .error p)
    else if f.stops p then (q.passed f s p, .stopped)
    else run rest (q.passed f s p)

def restoreBackup : Site Tree × Result := q.run f restoreSteps s

/-- An error changes nothing, a stop leaves the old tree or the new one, and a success
the new one. -/
def AllOrNothing : Prop :=
  match q.restoreBackup f s with
  | (s', .error _) => s' = s
  | (s', .stopped) => s'.data = s.data ∨ s'.data = some q.content
  | (s', .ok) => s'.data = some q.content

def troubles : Bool := f.fails p && q.returnsError p || f.stops p

/-- The first step at which something goes wrong fails before anything is stopped, or
the process stops after it and not between the two renames. -/
def Harmless : Prop :=
  ∀ p, restoreSteps.find? (q.troubles f) = some p →
    if f.fails p && q.returnsError p then p ∈ [.prepare, .download, .checksum, .decrypt, .extract]
    else p ≠ .movePrevious

variable {q f}
theorem run_append {before rest : List Phase} (h : ∀ p ∈ before, q.troubles f p = false) :
    q.run f (before ++ rest) s = q.run f rest (before.foldl (q.passed f) s) := by
  induction before generalizing s with
  | nil => rfl
  | cons p _ ih =>
    have hp := h p mem_cons_self
    simp only [troubles, Bool.or_eq_false_iff, Bool.and_eq_false_iff] at hp
    rw [cons_append, run, if_neg (by rintro ⟨hf, hr, _⟩; simp [hf, hr] at hp),
      if_neg (by simp [hp.2])]
    exact ih _ fun r hr => h r (mem_cons_of_mem p hr)

@[simp] theorem passed_data : (q.passed f s p).data =
    match p with
    | .movePrevious => none
    | .moveExtracted => some q.content
    | .moveBack => s.previous
    | _ => s.data := by
  cases p <;> simp only [passed, done] <;> split_ifs <;> simp_all

theorem passed_workflows {p : Phase} (hp : p ≠ .syncWorkflows) :
    (q.passed f s p).workflows = (s.workflows && p != .stopWorkflows) := by
  cases p <;> simp_all [passed, done] <;> split_ifs <;> simp

variable (q f) in
def reached (s : Site Tree) : Site Tree :=
  (restoreSteps.takeWhile (· ≠ p)).foldl (q.passed f) s

theorem restoreBackup_of_trouble {p : Phase} (h : restoreSteps.find? (q.troubles f) = some p)
    {s : Site Tree} (hdata : p = .movePrevious → s.data ≠ none) : q.restoreBackup f s =
      if f.fails p && q.returnsError p then
        if p = .moveExtracted ∧ f.stops p then (q.reached f p s, .stopped)
        else (q.failed f (q.reached f p s) p, .error p)
      else (q.passed f (q.reached f p s) p, .stopped) := by
  obtain ⟨hp, before, _, hsteps, hcalm⟩ := find?_eq_some_iff_append.mp h
  have hne : ∀ r ∈ before, decide (r ≠ p) = true := by
    intro r hr
    have hcalm_r := hcalm r hr
    rw [decide_eq_true_eq]
    rintro rfl
    simp [hp] at hcalm_r
  have hreached : q.reached f p s = before.foldl (q.passed f) s := by
    rw [reached, hsteps, takeWhile_append_of_pos hne, takeWhile_cons_of_neg (by simp),
      append_nil]
  have hthere : p = .movePrevious → (q.reached f p s).data ≠ none := by
    rintro rfl
    simpa [reached, restoreSteps] using hdata
  rw [restoreBackup, hsteps, run_append s fun r hr => by simpa using hcalm r hr, ← hreached, run]
  rw [troubles, Bool.or_eq_true] at hp
  by_cases herror : f.fails p && q.returnsError p
  · have hboth := herror
    rw [Bool.and_eq_true] at hboth
    rw [if_pos ⟨hboth.1, hboth.2, hthere⟩, if_pos herror]
  · rw [if_neg fun h => herror (by simp [h.1, h.2.1]), if_neg herror,
      if_pos (hp.resolve_left herror)]

theorem passed_reached_data {p : Phase} (hp : p ≠ .movePrevious) (hback : p ≠ .moveBack)
    (s : Site Tree) : (q.passed f (q.reached f p s) p).data = s.data ∨
      (q.passed f (q.reached f p s) p).data = some q.content := by
  cases p <;> simp_all [reached, restoreSteps]

theorem failed_reached_ne {p : Phase} (hsteps : p ∈ restoreSteps)
    (hreturns : q.returnsError p = true)
    (hearly : p ∉ [.prepare, .download, .checksum, .decrypt, .extract]) {s : Site Tree}
    (hworkflows : s.workflows = true) (hinstances : s.instances = f.started + 1) :
    q.failed f (q.reached f p s) p ≠ s := by
  intro heq
  by_cases hstart : p = .startApp
  · subst hstart
    have h := congrArg Site.instances heq
    rw [hinstances] at h
    simp [failed] at h
  -- every other step after the workflows were stopped leaves them stopped
  have h := congrArg Site.workflows heq
  clear heq
  cases p <;> simp_all [failed, reached, restoreSteps, passed_workflows, returnsError, done]
  -- whether or not the old directory was moved back
  split_ifs at h <;> simp [passed_workflows] at h

theorem allOrNothing_of_harmless (h : q.Harmless f) (s : Site Tree) : q.AllOrNothing f s := by
  rw [AllOrNothing]
  cases htrouble : restoreSteps.find? (q.troubles f) with
  | none =>
    have hcalm := find?_eq_none.mp htrouble
    rw [restoreBackup, ← append_nil restoreSteps,
      run_append s fun p hp => by simpa using hcalm p hp]
    simp [restoreSteps, run]
  | some p =>
    have hp := h p htrouble
    split_ifs at hp with herror
    · rw [restoreBackup_of_trouble htrouble (by rintro rfl; simp at hp), if_pos herror,
        if_neg (by rintro ⟨rfl, _⟩; simp at hp)]
      simp only [mem_cons, not_mem_nil, or_false] at hp
      rcases hp with rfl | rfl | rfl | rfl | rfl <;>
        simp [failed, reached, restoreSteps, passed, done]
    · rw [restoreBackup_of_trouble htrouble fun h => absurd h hp, if_neg herror]
      refine passed_reached_data hp ?_ s
      rintro rfl
      exact absurd (mem_of_find?_eq_some htrouble) (by decide)

theorem harmless_of_allOrNothing (h : ∀ s, q.AllOrNothing f s) : q.Harmless f := by
  intro p htrouble
  have hp := h ⟨some q.content, none, true, f.started + 1, .running⟩
  rw [AllOrNothing, restoreBackup_of_trouble htrouble (by simp)] at hp
  split_ifs at hp ⊢ with herror hstop
  · obtain ⟨rfl, _⟩ := hstop
    simp [reached, restoreSteps] at hp
  · by_contra hearly
    rw [Bool.and_eq_true] at herror
    exact failed_reached_ne (mem_of_find?_eq_some htrouble) herror.2 hearly rfl rfl hp
  · rintro rfl
    simp at hp

theorem all_or_nothing_iff (q : Request Tree) (f : Faults) :
    (∀ s, q.AllOrNothing f s) ↔ q.Harmless f :=
  ⟨harmless_of_allOrNothing, allOrNothing_of_harmless⟩

/-- The app does not start on the new data, and the process stops between the renames. -/
theorem failed_restore_keeps_new_tree :
    let q : Request ℕ := ⟨2, 1, true⟩
    let s : Site ℕ := ⟨some 1, none, true, 1, .running⟩
    let start : Faults := ⟨(· = .startApp), fun _ => false, 0, 0⟩
    let crash : Faults := ⟨fun _ => false, (· = .movePrevious), 0, 0⟩
    q.restoreBackup start s = (⟨some 2, none, true, 0, .running⟩, .error .startApp) ∧
      ¬q.AllOrNothing start s ∧
      q.restoreBackup crash s = (⟨none, some 1, false, 0, .stopped⟩, .stopped) ∧
      ¬q.AllOrNothing crash s := by
  refine ⟨rfl, ?_, rfl, ?_⟩ <;>
    simp [AllOrNothing, restoreBackup, restoreSteps, run, passed, done, failed, returnsError]
end Request

end Tako.Backups
