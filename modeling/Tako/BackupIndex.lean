import Mathlib
import Tako.TaskPools
import Tako.Texts

/-! The backups of one deployment in its object storage. `backup_app_now` runs under the
management lock, so the spelling of the deployment's id, which chooses the deploy lock, lets no
second command in. -/
namespace Tako.BackupIndex
open Tasks Texts List
structure BackupInfo where
  id : Text
  createdAtUnixSecs : ℤ
deriving DecidableEq

/-- `index.json` and the keys of the other objects, without their common prefix. -/
structure Storage where
  index : Option (List BackupInfo)
  objects : List Text
deriving DecidableEq

def Storage.listed (s : Storage) : List BackupInfo := s.index.getD []

namespace BackupInfo
variable (info : BackupInfo)
def archiveKey : Text := info.id ++ ".tar.zst.enc".toList

def manifestKey : Text := info.id ++ ".json".toList

def Expired (retentionDays : ℕ) (now : ℤ) : Prop :=
  info.createdAtUnixSecs < now - retentionDays * 24 * 60 * 60

instance (retentionDays : ℕ) (now : ℤ) : Decidable (info.Expired retentionDays now) :=
  inferInstanceAs (Decidable (_ < _))

def Stored (s : Storage) : Prop := info.archiveKey ∈ s.objects ∧ info.manifestKey ∈ s.objects

/-- Newest first. -/
def entered (index : List BackupInfo) : List BackupInfo :=
  (index.filter (·.id ≠ info.id) ++ [info]).insertionSort fun a b =>
    b.createdAtUnixSecs < a.createdAtUnixSecs ∨
      a.createdAtUnixSecs = b.createdAtUnixSecs ∧ b.id ≤ a.id
end BackupInfo

inductive Request where
  | getIndex
  | put (key : Text)
  | delete (key : Text)
  | putIndex (backups : List BackupInfo)

def Request.perform : Request → Storage → Storage
  | .getIndex, s => s
  | .put key, s => { s with objects := key :: s.objects }
  | .delete key, s => { s with objects := s.objects.filter (· ≠ key) }
  | .putIndex backups, s => { s with index := some backups }

/-- A request that fails may have taken effect all the same. Where the process
stops, it is not made. -/
inductive Fate where
  | answered
  | failed (effect : Bool)
  | stopped
deriving DecidableEq

def Fate.effective : Fate → Bool
  | .answered => true
  | .failed effect => effect
  | .stopped => false

/-- How far a command has come: before the lock, and before each of its requests. -/
inductive Task where
  | waiting (id : Text)
  | reading (info : BackupInfo)
  | uploading (info : BackupInfo) (index : List BackupInfo)
  | describing (info : BackupInfo) (index : List BackupInfo)
  | pruning (info : BackupInfo) (keys : List Text) (retained : List BackupInfo)
  | done (result : Option BackupInfo)
deriving DecidableEq

structure Server where
  management : Bool
  storage : Storage

abbrev Backups := Pool Task Server

abbrev Moment := Event Text (Fate × ℤ)

namespace Task
def request : Task → Option Request
  | .reading _ => some .getIndex
  | .uploading info _ => some (.put info.archiveKey)
  | .describing info _ => some (.put info.manifestKey)
  | .pruning _ (key :: _) _ => some (.delete key)
  | .pruning _ [] retained => some (.putIndex retained)
  | _ => none

def works (t : Task) : Prop := t.request.isSome

variable (retentionDays : ℕ) (now : ℤ) (s : Storage)
/-- `prune_retention` takes the backups in order, each with two deletions. -/
def answered : Task → Task
  | .reading info => .uploading info s.listed
  | .uploading info index => .describing info index
  | .describing info index =>
    let expired := (info.entered index).filter (·.Expired retentionDays now)
    .pruning info (expired.flatMap fun b => [b.archiveKey, b.manifestKey])
      ((info.entered index).filter (¬·.Expired retentionDays now))
  | .pruning info (_ :: keys) retained => .pruning info keys retained
  | .pruning info [] _ => .done (some info)
  | t => t

/-- Only what a deletion returns is not looked at. -/
def failed : Task → Task
  | .pruning info (_ :: keys) retained => .pruning info keys retained
  | _ => .done none

def next (t : Task) : Fate → Task
  | .answered => t.answered retentionDays now s
  | .failed _ => t.failed
  | .stopped => .done none
end Task

section
variable (retentionDays : ℕ)
def step : Task → Fate × ℤ → Server → Option (Task × Server)
  | .waiting id, (fate, now), s =>
    if fate = .stopped then some (.done none, s)
    else if s.management then none else some (.reading ⟨id, now⟩, { s with management := true })
  | t, (fate, now), s => t.request.map fun r =>
    let t' := t.next retentionDays now s.storage fate
    (t', ⟨t'.request.isSome, if fate.effective then r.perform s.storage else s.storage⟩)

/-- A command that comes to prune finds nothing that has expired. -/
def spares : Moment → Backups → Bool
  | .start _, _ => true
  | .run k (_, now), p =>
    match p.tasks[k]? with
    | some (.describing info index) => (info.entered index).all (¬·.Expired retentionDays now)
    | _ => true

abbrev serve (events : List Moment) : Backups :=
  after Task.waiting (step retentionDays) ⟨[], false, none, []⟩ events

abbrev Spares (events : List Moment) : Prop :=
  Meets Task.waiting (step retentionDays) (fun event p => spares retentionDays event p = true)
    ⟨[], false, none, []⟩ events
end

def Storage.Lists (s : Storage) (info : BackupInfo) : Prop := ∃ b ∈ s.listed, b.id = info.id

/-- What a command has read and made is still there. -/
def Relies (s : Storage) : Task → Prop
  | .uploading _ index => index = s.listed
  | .describing info index => index = s.listed ∧ info.archiveKey ∈ s.objects
  | .pruning info keys retained => keys = [] ∧ info ∈ retained ∧ (∀ b ∈ retained, b.Stored s) ∧
      ∀ b ∈ s.listed, ∃ b' ∈ retained, b'.id = b.id
  | .done (some info) => s.Lists info
  | _ => True

structure Truthful (p : Backups) : Prop where
  mutex : Mutex Task.works p.shared.management p.tasks
  stored : ∀ b ∈ p.shared.storage.listed, b.Stored p.shared.storage
  relies : ∀ t ∈ p.tasks, Relies p.shared.storage t

/-- No backup disappears from the index, and the index has only what is stored. -/
def Extends (s s' : Storage) : Prop :=
  (∀ b ∈ s'.listed, b.Stored s') ∧ ∀ info, s.Lists info → s'.Lists info

section
variable {retentionDays : ℕ} {now : ℤ} {s : Storage} {t : Task} {r : Request} {info : BackupInfo}
  {index : List BackupInfo}

theorem mem_entered {b : BackupInfo} :
    b ∈ info.entered index ↔ b ∈ index ∧ b.id ≠ info.id ∨ b = info := by
  simp [BackupInfo.entered]

theorem exists_entered {b : BackupInfo} (hb : b ∈ index) :
    ∃ b' ∈ info.entered index, b'.id = b.id := by
  by_cases hid : b.id = info.id
  · exact ⟨info, mem_entered.mpr (.inr rfl), hid.symm⟩
  · exact ⟨b, mem_entered.mpr (.inl ⟨hb, hid⟩), rfl⟩

/-- A task that writes the index keeps what others entered. -/
theorem extends_perform (hstored : ∀ b ∈ s.listed, b.Stored s) (hrelies : Relies s t)
    (hr : t.request = some r) : Extends s (r.perform s) := by
  have hput (key : Text) : Extends s ((Request.put key).perform s) :=
    ⟨fun b hb => ⟨mem_cons_of_mem _ (hstored b hb).1, mem_cons_of_mem _ (hstored b hb).2⟩,
      fun _ h => h⟩
  cases t with
  | waiting | done => cases hr
  | reading =>
    cases hr
    exact ⟨hstored, fun _ h => h⟩
  | uploading info =>
    cases hr
    exact hput info.archiveKey
  | describing info =>
    cases hr
    exact hput info.manifestKey
  | pruning =>
    obtain ⟨rfl, -, hretained, hlisted⟩ := hrelies
    cases hr
    refine ⟨hretained, ?_⟩
    rintro b ⟨b', hb', hid⟩
    obtain ⟨b'', hb'', hid'⟩ := hlisted b' hb'
    exact ⟨b'', hb'', hid'.trans hid⟩

theorem relies_answered (hstored : ∀ b ∈ s.listed, b.Stored s) (hrelies : Relies s t)
    (hr : t.request = some r) (hspares : ∀ info index, t = .describing info index →
      ∀ b ∈ info.entered index, ¬b.Expired retentionDays now) :
    Relies (r.perform s) (t.answered retentionDays now s) := by
  cases t with
  | waiting | done => cases hr
  | reading =>
    cases hr
    rfl
  | uploading =>
    cases hr
    exact ⟨hrelies, mem_cons_self⟩
  | describing info =>
    cases hr
    obtain ⟨rfl, harchive⟩ := hrelies
    have hkept := hspares info s.listed rfl
    have hretained : (info.entered s.listed).filter (¬·.Expired retentionDays now) =
        info.entered s.listed := filter_eq_self.mpr fun b hb => by simpa using hkept b hb
    have hexpired : (info.entered s.listed).filter (·.Expired retentionDays now) = [] :=
      filter_eq_nil_iff.mpr fun b hb => by simpa using hkept b hb
    simp only [Task.answered, hretained, hexpired]
    refine ⟨rfl, mem_entered.mpr (.inr rfl), fun b hb => ?_, fun b hb => exists_entered hb⟩
    obtain ⟨hb, -⟩ | rfl := mem_entered.mp hb
    · exact ⟨mem_cons_of_mem _ (hstored b hb).1, mem_cons_of_mem _ (hstored b hb).2⟩
    · exact ⟨mem_cons_of_mem _ harchive, mem_cons_self⟩
  | pruning info =>
    obtain ⟨rfl, hmem, -⟩ := hrelies
    cases hr
    exact ⟨info, hmem, rfl⟩

theorem relies_next {fate : Fate} (hstored : ∀ b ∈ s.listed, b.Stored s) (hrelies : Relies s t)
    (hr : t.request = some r) (hspares : ∀ info index, t = .describing info index →
      ∀ b ∈ info.entered index, ¬b.Expired retentionDays now) :
    Relies (if fate.effective then r.perform s else s) (t.next retentionDays now s fate) := by
  cases fate with
  | answered => exact relies_answered hstored hrelies hr hspares
  | stopped => trivial
  | failed =>
    -- no deletion is left whose failure would go unnoticed
    have hdone : t.failed = .done none := by
      cases t with
      | pruning =>
        obtain ⟨rfl, -⟩ := hrelies
        rfl
      | _ => rfl
    simp only [Task.next, hdone]
    trivial

theorem Relies.of_extends {s' : Storage} (h : Relies s t) (hidle : ¬t.works) (hext : Extends s s') :
    Relies s' t := by
  cases t with
  | waiting => trivial
  | done result =>
    cases result with
    | none => trivial
    | some info => exact hext.2 info h
  | pruning _ keys => cases keys <;> exact absurd rfl hidle
  | _ => exact absurd rfl hidle

theorem Truthful.request {p : Backups} {k : ℕ} {fate : Fate} (h : Truthful p)
    (ht : p.tasks[k]? = some t) (hr : t.request = some r)
    (hspares : spares retentionDays (.run k (fate, now)) p = true) :
    Truthful ⟨p.tasks.set k (t.next retentionDays now p.shared.storage fate),
      ⟨(t.next retentionDays now p.shared.storage fate).request.isSome,
        if fate.effective then r.perform p.shared.storage else p.shared.storage⟩⟩ := by
  have hworks : t.works := by simp [Task.works, hr]
  have hrelies := h.relies t (mem_of_getElem? ht)
  have hext : Extends p.shared.storage
      (if fate.effective then r.perform p.shared.storage else p.shared.storage) := by
    split
    · exact extends_perform h.stored hrelies hr
    · exact ⟨h.stored, fun _ hlists => hlists⟩
  refine ⟨h.mutex.inside ht hworks fun hfree => ?_, hext.1, ?_⟩
  · simpa [Task.works] using hfree
  · refine h.mutex.alone.forall_set ht hworks h.relies
      (fun u hidle hu => hu.of_extends hidle hext) (relies_next h.stored hrelies hr ?_)
    rintro _ _ rfl
    simpa [spares, ht] using hspares

theorem truthful_kept : Kept Task.waiting (step retentionDays)
    (fun event p => spares retentionDays event p = true) Truthful where
  start p id h _ := ⟨h.mutex.append nofun, h.stored, forall_append h.relies trivial⟩
  run p k input t t' s h hspares ht hstep := by
    cases t with
    | waiting =>
      simp only [step] at hstep
      split at hstep
      · cases hstep
        exact ⟨h.mutex.outside ht nofun, h.stored, forall_set h.relies trivial⟩
      · split at hstep
        · cases hstep
        · next hopen =>
          cases hstep
          exact ⟨h.mutex.acquire ht (by simpa using hopen), h.stored, forall_set h.relies trivial⟩
    | done => cases hstep
    | pruning _ keys =>
      cases keys <;>
      · cases hstep
        exact h.request ht rfl hspares
    | _ =>
      cases hstep
      exact h.request ht rfl hspares
end

/-- Where no command finds an expired backup, every backup in the index has its archive
and its manifest, and every backup that was made is in the index while it is young. -/
theorem index_true_unless_pruned (retentionDays : ℕ) (events : List Moment)
    (hspares : Spares retentionDays events) :
    (∀ b ∈ (serve retentionDays events).shared.storage.listed,
      b.Stored (serve retentionDays events).shared.storage) ∧
    ∀ info now, .done (some info) ∈ (serve retentionDays events).tasks →
      ¬info.Expired retentionDays now →
      (serve retentionDays events).shared.storage.Lists info := by
  have hempty : Truthful ⟨[], false, none, []⟩ := ⟨⟨nofun, nofun⟩, nofun, nofun⟩
  have h := truthful_kept.after hempty hspares
  exact ⟨h.stored, fun info _ hdone _ => h.relies _ hdone⟩

def answers (n now : ℕ) : List Moment := replicate 5 (.run n (.answered, now))

theorem index_true_unless_pruned_twoBackups :
    Spares 30 (.start ['a'] :: answers 0 0 ++ .start ['b'] :: answers 1 86400) ∧
      (serve 30
        (.start ['a'] :: answers 0 0 ++ .start ['b'] :: answers 1 86400)).shared.storage.Lists
        ⟨['a'], 0⟩ := by
  have hspares : Spares 30 (.start ['a'] :: answers 0 0 ++ .start ['b'] :: answers 1 86400) := by
    decide +kernel
  exact ⟨hspares, (index_true_unless_pruned 30 _ hspares).2 _ 0 (by decide +kernel) (by decide)⟩

/-- The index still lists the first backup when its archive has just been deleted. -/
theorem expired_backup_listed_without_archive :
    ∃ b ∈ (serve 30 (.start ['a'] :: answers 0 0 ++
        .start ['b'] :: answers 1 2592001)).shared.storage.listed,
      b.archiveKey ∉ (serve 30 (.start ['a'] :: answers 0 0 ++
        .start ['b'] :: answers 1 2592001)).shared.storage.objects := by
  decide +kernel

end Tako.BackupIndex
