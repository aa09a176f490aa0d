import JvmClass.Attribute
import JvmClass.Code.Instruction

/-!
# Elements of a code body

A body is a sequence of elements: instructions, and between them labels, line
numbers, exception handlers, scopes of local variables and attributes.
-/

namespace JvmClass

/-- The handler of the exceptions of a class, or of all, that are thrown in a range. -/
structure Catch where
  start : Option Label
  stop : Option Label
  handler : Option Label
  type : Option ClassEntry
deriving DecidableEq, Repr, Inhabited

/-- The labels that a handler refers to. -/
def Catch.labels (c : Catch) : List (Option Label) := [c.start, c.stop, c.handler]

/-- The scope of a local variable. -/
structure LocalScope where
  slot : Int
  name : Option Utf8Entry
  /-- The descriptor, or the generic signature. -/
  type : Option Utf8Entry
  start : Option Label
  stop : Option Label
deriving DecidableEq, Repr, Inhabited

/-- The labels that a scope refers to. -/
def LocalScope.labels (s : LocalScope) : List (Option Label) := [s.start, s.stop]

/-- An element of a code body. -/
inductive CodeElement where
  | instruction (i : Instruction)
  /-- Binds a label to the present position. -/
  | label (l : Option Label)
  | handler (c : Catch)
  /-- The source line of what follows. -/
  | line (n : Int)
  | localVariable (scope : LocalScope)
  | localVariableType (scope : LocalScope)
  | attribute (a : Attribute)
deriving Inhabited

end JvmClass
