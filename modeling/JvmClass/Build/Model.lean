import JvmClass.ClassFile
import JvmClass.Traversal

/-!
# What builders take and hand on

A class is a sequence of elements, and so is each of its members and bodies. Members
and bodies are either those of an input or were put together by a builder; both can be
walked through in the same way. Walking through an input can break off at the first
part that cannot be decoded.
-/

namespace JvmClass

/-- A body that a builder put together. -/
structure BuiltCode where
  /-- The name of the method that it was made from. -/
  parent : Option Text
  /-- The greatest stack depth and the number of local slots that the body it was made
  from declares. -/
  declared : Option (Nat × Nat)
  elements : List CodeElement
deriving Inhabited

/-- A body. -/
inductive CodeModel where
  | input (code : InputCode)
  | built (code : BuiltCode)
deriving Inhabited

namespace CodeModel

/-- The elements of a body. -/
def elements : CodeModel → Except Error (List CodeElement)
  | .input c => c.elements
  | .built c => .ok c.elements

def traversal (c : CodeModel) : Traversal CodeElement := .after [] c.elements

/-- The declared stack depth and number of local slots. -/
def declared : CodeModel → Option (Nat × Nat)
  | .input c => some (c.maxStack, c.maxLocals)
  | .built c => c.declared

/-- The name of the method that the body belongs to. -/
def parent : CodeModel → Option Text
  | .input c => some c.method.name.text
  | .built c => c.parent

end CodeModel

/-- An element of a field. -/
inductive FieldElement where
  | flags (f : AccessFlags)
  | attribute (a : Attribute)
deriving Inhabited

/-- An element of a method. -/
inductive MethodElement where
  | flags (f : AccessFlags)
  | code (c : BuiltCode)
  /-- An attribute, a body of an input among them. -/
  | attribute (a : Attribute)
deriving Inhabited

/-- The body that an element is. -/
def MethodElement.code? : MethodElement → Option CodeModel
  | .code c => some (.built c)
  | .attribute a =>
    match a.body with
    | .code c => some (.input c)
    | _ => none
  | .flags _ => none

/-- A field that a builder put together. -/
structure BuiltField where
  flags : AccessFlags
  name : Utf8Entry
  descriptor : Utf8Entry
  attributes : List Attribute
deriving Inhabited

/-- A method that a builder put together, without flags among its elements. -/
structure BuiltMethod where
  flags : AccessFlags
  name : Utf8Entry
  descriptor : Utf8Entry
  elements : List MethodElement
deriving Inhabited

/-- A field. -/
inductive FieldModel where
  | input (f : InputMember)
  | built (f : BuiltField)
deriving Inhabited

namespace FieldModel

def flags : FieldModel → AccessFlags
  | .input f => f.flags
  | .built f => f.flags

def name : FieldModel → Utf8Entry
  | .input f => f.name
  | .built f => f.name

def descriptor : FieldModel → Utf8Entry
  | .input f => f.descriptor
  | .built f => f.descriptor

def attributes : FieldModel → Except Error (List Attribute)
  | .input f => f.fieldAttributes
  | .built f => .ok f.attributes

/-- The flags, then the attributes. -/
def traversal (f : FieldModel) : Traversal FieldElement :=
  .after [.flags f.flags] (f.attributes.map fun as => as.map .attribute)

/-- The field by name and descriptor. -/
def text (f : FieldModel) : Text := "field " ++ f.name.text ++ ":" ++ f.descriptor.text

end FieldModel

/-- A method. -/
inductive MethodModel where
  | input (m : InputMember)
  | built (m : BuiltMethod)
deriving Inhabited

namespace MethodModel

def flags : MethodModel → AccessFlags
  | .input m => m.flags
  | .built m => m.flags

def name : MethodModel → Utf8Entry
  | .input m => m.name
  | .built m => m.name

def descriptor : MethodModel → Utf8Entry
  | .input m => m.descriptor
  | .built m => m.descriptor

/-- The elements after the flags. -/
def elements : MethodModel → Except Error (List MethodElement)
  | .input m => do return (← m.methodAttributes).map .attribute
  | .built m => .ok m.elements

/-- The attributes. A body that a builder put together is not among them. -/
def attributes (m : MethodModel) : Except Error (List Attribute) := do
  return (← m.elements).filterMap fun
    | .attribute a => some a
    | _ => none

/-- The body, if there is one. -/
def code (m : MethodModel) : Except Error (Option CodeModel) := do
  return (← m.elements).findSome? MethodElement.code?

/-- The flags, then the attributes and the body. -/
def traversal (m : MethodModel) : Traversal MethodElement := .after [.flags m.flags] m.elements

/-- The method by name and descriptor. -/
def text (m : MethodModel) : Text := "method " ++ m.name.text ++ m.descriptor.text

end MethodModel

/-- An element of a class. -/
inductive ClassElement where
  | flags (f : AccessFlags)
  | version (major minor : Int)
  | superclass (c : Option ClassEntry)
  /-- All interfaces, in place of any given before. -/
  | interfaces (cs : List (Option ClassEntry))
  | field (f : FieldModel)
  | method (m : MethodModel)
  | attribute (a : Attribute)
deriving Inhabited

/-- A class in order: the header, the fields, the methods, the attributes. -/
def ClassFile.traversal (c : ClassFile) : Traversal ClassElement :=
  .after
    ([.flags c.flags, .version c.major c.minor]
      ++ (c.super.map fun s => .superclass (some s)).toList
      ++ [.interfaces (c.interfaces.map some)]
      ++ c.fields.map (fun f => .field (.input f))
      ++ c.methods.map (fun m => .method (.input m)))
    (c.attributes.map fun as => as.map .attribute)

end JvmClass
