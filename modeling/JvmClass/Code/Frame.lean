import JvmClass.Code.Label

/-!
# Stack map frames

A frame gives the types of the local variables and of the operand stack at a
label. Frames are always complete here: the short forms, which are relative to the
frame before, exist only in class files.
-/

namespace JvmClass

/-- The type of a local variable or stack entry in a frame. -/
inductive VerificationType where
  /-- A type that its tag says all about. -/
  | plain (tag : Nat)
  | object (className : Text)
  /-- An object that the `new` instruction at a label made and nothing has initialised. -/
  | uninitialized (new : Option Label)
deriving DecidableEq, Repr, Inhabited

namespace VerificationType

def integer : VerificationType := .plain 1
def float : VerificationType := .plain 2
def double : VerificationType := .plain 3
def long : VerificationType := .plain 4
def uninitializedThis : VerificationType := .plain 6

/-- The tag of a type. -/
def tag : VerificationType → Nat
  | .plain t => t
  | .object _ => 7
  | .uninitialized _ => 8

/-- The type of a parameter with the given descriptor. -/
def ofDescriptor (d : Descriptor) : VerificationType :=
  match d.kind with
  | .long => long
  | .double => double
  | .float => float
  | .reference => .object (d.internalName?.getD [])
  | _ => integer

end VerificationType

/-- The types at a label. A long or double takes one entry. -/
structure StackMapFrame where
  target : Option Label
  locals : List VerificationType
  stack : List VerificationType
deriving DecidableEq, Repr, Inhabited

/-- The label that a type refers to. -/
def VerificationType.label? : VerificationType → Option (Option Label)
  | .uninitialized new => some new
  | _ => none

/-- The labels that a frame refers to. -/
def StackMapFrame.labels (f : StackMapFrame) : List (Option Label) :=
  f.target :: (f.locals ++ f.stack).filterMap VerificationType.label?

end JvmClass
