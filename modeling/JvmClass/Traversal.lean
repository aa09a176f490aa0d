import JvmClass.Error

/-!
# Walks that can break off

A class file is decoded as it is walked through, so a walk gives what it came by before
the first part that cannot be decoded, and the error it met there.
-/

namespace JvmClass

/-- The elements that a walk gives, and the error that it ends with, if any. -/
structure Traversal (α : Type) where
  elements : List α
  failure : Option Error
deriving Inhabited

namespace Traversal

variable {α : Type}

/-- A walk that does not fail. -/
def ofList (elements : List α) : Traversal α := ⟨elements, none⟩

/-- Elements known beforehand, and then those that have to be decoded. -/
def after (front : List α) : Except Error (List α) → Traversal α
  | .ok rest => ⟨front ++ rest, none⟩
  | .error e => ⟨front, some e⟩

/-- One walk after another. A walk that fails is the end. -/
def append (a b : Traversal α) : Traversal α :=
  match a.failure with
  | none => ⟨a.elements ++ b.elements, b.failure⟩
  | some _ => a

/-- Walks one after another. -/
def concat : List (Traversal α) → Traversal α
  | [] => ofList []
  | t :: rest => t.append (concat rest)

/-- The elements of a walk that did not fail. -/
def all (t : Traversal α) : Except Error (List α) :=
  match t.failure with
  | none => .ok t.elements
  | some e => .error e

end Traversal

end JvmClass
