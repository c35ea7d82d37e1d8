import Mathlib.Data.Nat.Notation

/-! A watch channel. It keeps one value and a version that every change raises;
a receiver keeps the version that it has marked as seen. -/

structure Watch (α : Type) where
  value : α
  version : ℕ

namespace Watch
variable {α : Type}
def new (value : α) : Watch α := ⟨value, 0⟩

/-- `send_modify` tells every receiver, whatever `f` does to the value. -/
def sendModify (w : Watch α) (f : α → α) : Watch α := ⟨f w.value, w.version + 1⟩

/-- `send_if_modified`: `f` gives the new value, or nothing to tell. -/
def sendIfModified (w : Watch α) (f : α → Option α) : Watch α :=
  match f w.value with
  | some value => ⟨value, w.version + 1⟩
  | none => w

end Watch
