import Tako.DeploymentIdentity

/-! The deletion of an app: eight statements without a transaction, whose error is only logged,
and then the removal of the directory. -/
namespace Tako.Deployments
open Texts List
/-- The tables that `SqliteStateStore::delete_app` deletes from. The rows of `app_routes`
go with those of `apps`. -/
inductive Table where
  | appSecrets
  | appRuntimeCredentials
  | appStorages
  | appSsl
  | appBackups
  | appComposePending
  | appComposeScales
  | apps
deriving DecidableEq

def Table.statements : List Table :=
  [.appSecrets, .appRuntimeCredentials, .appStorages, .appSsl, .appBackups, .appComposePending,
    .appComposeScales, .apps]

/-- Whether a table has a row for an id, and whether the id has a directory. -/
structure Site where
  rows : Table → Text → Bool
  root : Text → Bool

inductive Update where
  | set (table : Table) (app : AppId)
  -- `commit_compose_deployment`
  | commit (table : Table) (app : AppId)
  | provision (app : AppId)

def Table.key (app : AppId) : Table → Text
  | .appComposePending | .appComposeScales | .apps => qualified app.text
  | _ => app.text

def Site.insert (s : Site) (table : Table) (key : Text) : Site :=
  { s with rows := fun t k => s.rows t k || (t = table && k = key) }

def Update.apply (s : Site) : Update → Site
  | .set table app => s.insert table (table.key app)
  | .commit table app => s.insert table (qualified app.text)
  | .provision app => { s with root := fun k => s.root k || k = app.text }

def site (updates : List Update) : Site :=
  updates.foldl Update.apply ⟨fun _ _ => false, fun _ => false⟩

inductive Trouble where
  | none
  | fails
  | stops
deriving DecidableEq

/-- What goes wrong before the first statement, at the statements and at the removal of
the directory. -/
structure Faults where
  early : Trouble
  statement : Table → Trouble
  root : Trouble

inductive Outcome where
  | deleted
  | error
  | stopped
deriving DecidableEq

variable (f : Faults) (app : AppId)
def deleteRows : List Table → (Table → Text → Bool) → (Table → Text → Bool) × Trouble
  | [], rows => (rows, .none)
  | table :: rest, rows =>
    if f.statement table = .none then
      deleteRows rest fun t k => rows t k && !(t = table && k = qualified app.text)
    else (rows, f.statement table)

def deleteApp (s : Site) : Site × Outcome :=
  match f.early with
  | .fails => (s, .error)
  | .stops => (s, .stopped)
  | .none =>
    let (rows, trouble) := deleteRows f app Table.statements s.rows
    if trouble = .stops then ({ s with rows }, .stopped)
    else match f.root with
      | .none => (⟨rows, fun k => s.root k && k ≠ qualified app.text⟩, .deleted)
      | .fails => ({ s with rows }, .error)
      | .stops => ({ s with rows }, .stopped)

def Belongs (key : Text) : Prop :=
  requestedDeploymentIdentity key = requestedDeploymentIdentity app.text

def LeavesNothing (s : Site) : Prop :=
  match deleteApp f app s with
  | (s', .deleted) => ∀ k, Belongs app k → s'.root k = false ∧ ∀ t, s'.rows t k = false
  | (s', _) => (∀ k, Belongs app k → ∀ t, s'.rows t k = s.rows t k) ∨
      ∀ k, Belongs app k → ∀ t, s'.rows t k = false

/-- Everything of the deployment is kept under the id with the environment. -/
def Qualified (s : Site) : Prop :=
  ∀ k, Belongs app k → (s.root k = true ∨ ∃ t, s.rows t k = true) → k = qualified app.text

/-- No statement fails, or the first one does and the deletion is not reported as done. -/
def Faults.Harmless : Prop :=
  f.early = .none → (∀ t, f.statement t = .none) ∨
    f.statement .appSecrets = .stops ∨ f.statement .appSecrets = .fails ∧ f.root ≠ .none

variable {f app}
theorem deleteRows_append {before rest : List Table} (h : ∀ t ∈ before, f.statement t = .none)
    (rows : Table → Text → Bool) :
    deleteRows f app (before ++ rest) rows = deleteRows f app rest fun t k =>
      rows t k && !(t ∈ before && k = qualified app.text) := by
  induction before generalizing rows with
  | nil => simp
  | cons table _ ih =>
    rw [cons_append, deleteRows, if_pos (h table mem_cons_self),
      ih fun t ht => h t (mem_cons_of_mem table ht)]
    congr 1
    funext t k
    by_cases ht : t = table <;> by_cases hk : k = qualified app.text <;> simp [ht, hk]

theorem Table.mem_statements (t : Table) : t ∈ statements := by cases t <;> decide

theorem deleteRows_statements (h : ∀ t, f.statement t = .none) (rows : Table → Text → Bool) :
    deleteRows f app Table.statements rows =
      (fun t k => rows t k && k ≠ qualified app.text, .none) := by
  rw [← append_nil Table.statements, deleteRows_append fun t _ => h t, deleteRows]
  simp [Table.mem_statements]

theorem belongs_qualified (app : AppId) : Belongs app (qualified app.text) := by
  obtain ⟨n, e, h⟩ := app.spells
  rw [Belongs, h.identity, (h.used (.inr rfl)).identity]

variable {s : Site}
theorem leavesNothing_of_harmless (hf : f.Harmless) (hs : Qualified app s) :
    LeavesNothing f app s := by
  unfold LeavesNothing deleteApp
  cases hearly : f.early with
  | fails | stops => exact .inl fun _ _ _ => rfl
  | none =>
    obtain hnone | hstops | ⟨hfails, hroot⟩ := hf hearly
    · rw [deleteRows_statements hnone]
      have hgone (k : Text) (hk : Belongs app k) (t : Table) :
          (s.rows t k && decide (k ≠ qualified app.text)) = false := by
        by_cases hrow : s.rows t k = true
        · simp [hs k hk (.inr ⟨t, hrow⟩)]
        · simp [hrow]
      cases f.root with
      | none =>
        refine fun k hk => ⟨?_, hgone k hk⟩
        by_cases hroot : s.root k = true
        · simp [hs k hk (.inl hroot)]
        · simp [hroot]
      | _ => exact .inr hgone
    · rw [Table.statements, deleteRows, hstops]
      exact .inl fun _ _ _ => rfl
    · rw [Table.statements, deleteRows, hfails]
      cases hr : f.root with
      | none => exact absurd hr hroot
      | _ => exact .inl fun _ _ _ => rfl

theorem qualified_of_leavesNothing (h : LeavesNothing ⟨.none, fun _ => .none, .none⟩ app s) :
    Qualified app s := by
  unfold LeavesNothing deleteApp at h
  intro k hk hsome
  by_contra hne
  obtain ⟨hroot, hrows⟩ := h k hk
  obtain hsome | ⟨t, hsome⟩ := hsome
  · simp [hsome, hne] at hroot
  · simpa [hsome, hne] using hrows t

def everywhere (app : AppId) : List Update := Table.statements.map (.commit · app)

theorem rows_everywhere (t : Table) (k : Text) :
    (site (everywhere app)).rows t k = decide (k = qualified app.text) := by
  cases t <;> simp [site, everywhere, Table.statements, Update.apply, Site.insert]

theorem rows_deleteApp (h : f.early = .none) :
    (deleteApp f app s).1.rows = (deleteRows f app Table.statements s.rows).1 := by
  simp only [deleteApp, h]
  split_ifs
  · rfl
  · split <;> rfl

theorem LeavesNothing.allOrNone (h : LeavesNothing f app s) :
    (∀ k, Belongs app k → ∀ t, (deleteApp f app s).1.rows t k = s.rows t k) ∨
      ∀ k, Belongs app k → ∀ t, (deleteApp f app s).1.rows t k = false := by
  unfold LeavesNothing at h
  split at h
  · rename_i heq
    rw [heq]
    exact .inr fun k hk => (h k hk).2
  · rename_i heq
    rw [heq]
    exact h

theorem harmless_of_leavesNothing (h : LeavesNothing f app (site (everywhere app))) :
    f.Harmless := by
  intro hearly
  rw [or_iff_not_imp_left, not_forall]
  rintro ⟨t₀, ht₀⟩
  -- the first statement that does not go through
  have hsome : (Table.statements.find? (f.statement · ≠ .none)).isSome := by
    rw [find?_isSome]
    exact ⟨t₀, Table.mem_statements t₀, decide_eq_true ht₀⟩
  obtain ⟨t, ht⟩ := Option.isSome_iff_exists.mp hsome
  obtain ⟨htrouble, before, _, hsplit, hcalm⟩ := find?_eq_some_iff_append.mp ht
  have hcalm (r : Table) (hr : r ∈ before) : f.statement r = .none := by simpa using hcalm r hr
  have htrouble : f.statement t ≠ .none := by simpa using htrouble
  have hq := belongs_qualified app
  cases before with
  | nil =>
    obtain rfl : .appSecrets = t := (cons.inj hsplit).1
    cases hfirst : f.statement .appSecrets with
    | none => exact absurd hfirst htrouble
    | stops => exact .inl rfl
    | fails =>
      refine .inr ⟨rfl, fun hroot => ?_⟩
      simp only [LeavesNothing, deleteApp, hearly, hroot, Table.statements, deleteRows, hfirst] at h
      simpa [rows_everywhere] using (h _ hq).2 .apps
  | cons table before =>
    -- the rows of the first table are gone, and those of this one are not
    obtain rfl : .appSecrets = table := (cons.inj hsplit).1
    have hkept : t ∉ .appSecrets :: before := fun hmem => htrouble (hcalm t hmem)
    have hall := h.allOrNone
    rw [rows_deleteApp hearly, hsplit, deleteRows_append hcalm, deleteRows, if_neg htrouble] at hall
    simp only [rows_everywhere] at hall
    obtain hall | hnone := hall
    · simpa using hall _ hq .appSecrets
    · simpa [hkept] using hnone _ hq t

/-- The deletion leaves nothing behind, and takes all rows or none, exactly if everything
was written under the id with the environment and no statement fails in between. -/
theorem deletion_leaves_nothing_iff (app : AppId) :
    (∀ updates, (∀ f : Faults, f.Harmless → LeavesNothing f app (site updates)) ↔
      Qualified app (site updates)) ∧
    ∀ f : Faults, (∀ updates, Qualified app (site updates) → LeavesNothing f app (site updates)) ↔
      f.Harmless := by
  refine ⟨fun updates => ⟨fun h => ?_, fun hs f hf => leavesNothing_of_harmless hf hs⟩,
    fun f => ⟨fun h => ?_, fun hf updates hs => leavesNothing_of_harmless hf hs⟩⟩
  · exact qualified_of_leavesNothing (h _ fun _ => .inl fun _ => rfl)
  · refine harmless_of_leavesNothing (h _ fun k _ hk => ?_)
    obtain hroot | ⟨t, hrow⟩ := hk
    · exact absurd hroot Bool.false_ne_true
    · simpa [rows_everywhere] using hrow

/-- Secrets that were set for the bare name outlive the deletion of its production
deployment, and so does the app when the first statement fails. -/
theorem deletion_leaves_secrets_and_app :
    let bare := site [.set .appSecrets web, .set .apps web]
    let failing : Faults := ⟨.none, fun _ => .fails, .none⟩
    let calm : Faults := ⟨.none, fun _ => .none, .none⟩
    (deleteApp calm web bare).2 = .deleted ∧
      (deleteApp calm web bare).1.rows .appSecrets web.text = true ∧
      ¬LeavesNothing calm web bare ∧
    (deleteApp failing web bare).2 = .deleted ∧
      (deleteApp failing web bare).1.rows .apps webProduction.text = true ∧
      ¬LeavesNothing failing web bare := by
  refine ⟨by decide, by decide, fun h => ?_, by decide, by decide, fun h => ?_⟩
  · exact absurd ((h web.text rfl).2 .appSecrets) (by decide)
  · exact absurd ((h webProduction.text (by rfl)).2 .apps) (by decide)

end Tako.Deployments
