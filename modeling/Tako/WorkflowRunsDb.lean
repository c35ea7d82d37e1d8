import Tako.WorkflowPostgresView

/-! `RunsDb`: one app's workflow store on either backend, and its histories. On
Postgres other apps run their own calls on the shared tables in between. -/
namespace Tako.Workflow
open Relational
variable {J : JsonCodec}
inductive RunsDb where
  | sqlite (db : SqliteRunsDb)
  | postgres (appId : String) (tables : PostgresTables)

def ValidId (id : String) : Prop := id ≠ "" ∧ id.utf8ByteSize ≤ 255 ∧ '\x00' ∉ id.toList

instance (id : String) : Decidable (ValidId id) :=
  inferInstanceAs (Decidable (id ≠ "" ∧ id.utf8ByteSize ≤ 255 ∧ '\x00' ∉ id.toList))

def Call.suppliedId : Call J → Option String
  | .enqueue _ _ _ _ opts => opts.id
  | _ => none

def Call.InvalidId (c : Call J) : Prop := ∃ id ∈ c.suppliedId, ¬ValidId id

instance (c : Call J) : Decidable c.InvalidId :=
  inferInstanceAs (Decidable (∃ id ∈ c.suppliedId, ¬ValidId id))

inductive StoreEvent (J : JsonCodec) where
  | call (plan : Planner) (c : Call J)
  | foreign (plan : Planner) (appId : String) (c : Call J)

namespace RunsDb
def call (plan : Planner) (c : Call J) (db : RunsDb) : Result J × RunsDb :=
  if c.InvalidId then (.error .invalidId, db)
  else
    match db with
    | .sqlite db => ((db.exec plan c).1, .sqlite (db.exec plan c).2)
    | .postgres appId pg => ((pg.exec plan appId c).1, .postgres appId (pg.exec plan appId c).2)

def foreign (plan : Planner) (other : String) (c : Call J) : RunsDb → RunsDb
  | .sqlite db => .sqlite db
  | .postgres appId pg =>
    if other = appId then .postgres appId pg else .postgres appId (pg.exec plan other c).2

def exec (e : StoreEvent J) (db : RunsDb) : Option (Result J) × RunsDb :=
  match e with
  | .call plan c => (some (db.call plan c).1, (db.call plan c).2)
  | .foreign plan other c => (none, db.foreign plan other c)

inductive IsNew : RunsDb → Prop where
  | sqlite : IsNew (.sqlite .empty)
  | postgres (appId : String) : IsNew (.postgres appId .empty)

def abs : RunsDb → Queue
  | .sqlite db => db.abs
  | .postgres appId pg => (pg.view appId).abs

def Inv : RunsDb → Prop
  | .sqlite db => db.abs.Inv
  | .postgres _ pg => ∀ a, (pg.view a).abs.Inv

/-- The errors that depend on the arguments of a call alone. -/
def rejects (db : RunsDb) (c : Call J) (e : RunsDbError) : Prop :=
  (e = .invalidId ∧ c.InvalidId) ∨
    match db with
    | .sqlite _ => sqliteRejects c e
    | .postgres appId _ => postgresRejects appId c e

variable {db : RunsDb}
theorem Inv.abs (h : db.Inv) : db.abs.Inv := by
  cases db with
  | sqlite => exact h
  | postgres appId => exact h appId

theorem IsNew.inv (h : IsNew db) : db.Inv := by
  cases h with
  | sqlite => exact Queue.inv_empty
  | postgres => exact fun _ => Queue.inv_empty

theorem IsNew.abs (h : IsNew db) : db.abs = Queue.empty := by
  cases h <;> rfl

theorem finite_runs (db : RunsDb) : {id | db.abs.run id ≠ none}.Finite := by
  cases db with
  | sqlite db => exact db.runs.finite_keys
  | postgres appId pg => exact (pg.runs.part appId).finite_keys

theorem call_refines (h : db.Inv) (plan : Planner) (c : Call J) :
    Step db.rejects db.abs c (db.call plan c).1 (db.call plan c).2.abs := by
  unfold call
  by_cases hc : c.InvalidId
  · rw [if_pos hc]
    exact .rejected (.inl ⟨rfl, hc⟩)
  · rw [if_neg hc]
    cases db with
    | sqlite db => exact (db.exec_refines h plan c).mono fun e he => .inr he
    | postgres appId pg => exact (pg.exec_refines appId plan (h appId) c).mono fun e he => .inr he

theorem foreign_abs (h : db.Inv) (plan : Planner) (other : String) (c : Call J) :
    (db.foreign plan other c).abs = db.abs := by
  cases db with
  | sqlite => rfl
  | postgres appId pg =>
    by_cases ho : other = appId
    · simp only [foreign, if_pos ho]
    · have hv := pg.exec_others other plan (h other) c (fun hb => ho hb.symm)
      simp only [foreign, if_neg ho, RunsDb.abs, hv]

theorem pg_inv_exec {pg : PostgresTables} (h : ∀ a, (pg.view a).abs.Inv) (plan : Planner)
    (appId : String) (c : Call J) (a : String) : ((pg.exec plan appId c).2.view a).abs.Inv := by
  by_cases ha : a = appId
  · subst ha
    exact (pg.exec_refines a plan (h a) c).inv (h a)
  · rw [pg.exec_others appId plan (h appId) c ha]
    exact h a

theorem exec_inv (h : db.Inv) (e : StoreEvent J) : (db.exec e).2.Inv := by
  cases e with
  | call plan c =>
    simp only [exec, call]
    by_cases hc : c.InvalidId
    · rw [if_pos hc]
      exact h
    · rw [if_neg hc]
      cases db with
      | sqlite db => exact (db.exec_refines h plan c).inv h
      | postgres appId => exact pg_inv_exec h plan appId c
  | foreign plan other c =>
    cases db with
    | sqlite => exact h
    | postgres appId =>
      by_cases ho : other = appId
      · simpa only [exec, foreign, if_pos ho] using h
      · simp only [exec, foreign, if_neg ho]
        exact pg_inv_exec h plan other c

theorem exec_cases (h : db.Inv) (e : StoreEvent J) : (∃ plan c, e = .call plan c ∧
      Step db.rejects db.abs c (db.call plan c).1 (db.exec e).2.abs) ∨
    (db.exec e).2.abs = db.abs := by
  cases e with
  | call plan c => exact .inl ⟨plan, c, rfl, call_refines h plan c⟩
  | foreign plan other c => exact .inr (foreign_abs h plan other c)

def after (db : RunsDb) (events : List (StoreEvent J)) : RunsDb := Execution.after exec db events

theorem inv_after (h : db.Inv) (events : List (StoreEvent J)) : (db.after events).Inv :=
  Execution.after_induction _ _ _ h fun e _ _ ht => exec_inv ht e

theorem after_induction (h : db.Inv) (events : List (StoreEvent J)) {P : Queue → Prop}
    (h0 : P db.abs)
    (hstep : ∀ plan c, .call plan c ∈ events → ∀ rejects q r q', q.Inv → Step rejects q c r q' →
      P q → P q') : P (db.after events).abs := by
  have hboth : (db.after events).Inv ∧ P (db.after events).abs := by
    apply Execution.after_induction (P := fun db : RunsDb => db.Inv ∧ P db.abs)
    · exact ⟨h, h0⟩
    · intro e he t ht
      refine ⟨exec_inv ht.1 e, ?_⟩
      rcases exec_cases ht.1 e with ⟨plan, c, rfl, hs⟩ | habs
      · exact hstep plan c he _ _ _ _ ht.1.abs hs ht.2
      · rw [habs]
        exact ht.2
  exact hboth.2
end RunsDb
end Tako.Workflow
