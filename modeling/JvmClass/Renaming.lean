import JvmClass.Descriptor.Method
import JvmClass.Signature.Parser

/-!
# Renaming classes

A renaming takes class descriptors to class descriptors. It extends to arrays, which
keep their dimensions, to internal names, to descriptors of methods and to generic
signatures; primitive types stay as they are.

A text that stands where a class name should can fail to be one. A lone `L` has no
name to look up, so a renaming may have no answer for it.
-/

namespace JvmClass

/-- What to do with the descriptor of a class. -/
structure Renaming where
  rename : Descriptor → Option Descriptor

/-- New internal names for old ones. -/
abbrev RenameTable := List (Text × Text)

namespace RenameTable

/-- The new name of a name that the table has exactly. -/
def target? (table : RenameTable) (name : Text) : Option Text :=
  (table.find? fun row => row.1 = name).map (·.2)

/-- The table with a new name for an old one, in place of the one it had. -/
def put (old new : Text) : RenameTable → RenameTable
  | [] => [(old, new)]
  | row :: rest => if row.1 = old then (old, new) :: rest else row :: put old new rest

/-- Whether a key stands for all names that start with it. -/
def isPackage (key : Text) : Bool := key.endsWith [47]

/-- The longer of two keys. -/
def longer (a b : Text × Text) : Text × Text := if a.1.length < b.1.length then b else a

/-- The row with the longest package key that a name starts with. -/
def longest? (table : RenameTable) (name : Text) : Option (Text × Text) :=
  match table.filter fun row => isPackage row.1 && name.startsWith row.1 with
  | [] => none
  | row :: rest => some (rest.foldl longer row)

/-- The new name of a class: by an exact key that is no package, else by the longest
package that it lies in, else its own. -/
def rename (table : RenameTable) (name : Text) : Text :=
  match target? (table.filter fun row => !isPackage row.1) name with
  | some new => new
  | none =>
    match table.longest? name with
    | some (key, new) => new ++ name.drop key.length
    | none => name

end RenameTable

namespace Renaming

/-- The renaming that changes nothing. -/
def identity : Renaming := ⟨some⟩

/-- Renames the classes that a table has exactly. -/
def ofTable (table : RenameTable) : Renaming :=
  ⟨fun d => d.internalName?.map fun name =>
    match table.target? name with
    | some new => .ofInternalName new
    | none => d⟩

/-- Renames classes by exact name and by package. -/
def ofPackages (table : RenameTable) : Renaming :=
  ⟨fun d => d.internalName?.map fun name => .ofInternalName (table.rename name)⟩

/-- The new descriptor of a type. -/
def map? (r : Renaming) (d : Descriptor) : Option Descriptor :=
  let (element, dims) := d.element
  if element.isClass then
    (r.rename element).map fun e => ⟨List.replicate dims 91 ++ e.text⟩
  else some d

/-- The new internal name of a class. -/
def mapInternalName? (r : Renaming) (name : Text) : Option Text := do
  (← r.map? (.ofInternalName name)).internalName?

/-- An answer that a renaming has to have. -/
def answered {α : Type} : Option α → Except Error α
  | some a => .ok a
  | none => .error .outOfBounds

/-- The new descriptor of a type, where a renaming has to have one. -/
def map (r : Renaming) (d : Descriptor) : Except Error Descriptor := answered (r.map? d)

/-- The new internal name of a class, where a renaming has to have one. -/
def internalName (r : Renaming) (name : Text) : Except Error Text :=
  answered (r.mapInternalName? name)

/-- The new text of a field descriptor; that of no value stays. -/
def fieldDescriptor (r : Renaming) (s : Text) : Except Error Text := do
  if s = Descriptor.void.text then return s
  match Descriptor.parse s with
  | .error e => throw (.descriptor e)
  | .ok d => return (← r.map d).text

/-- The new text of a method descriptor. -/
def methodDescriptor (r : Renaming) (s : Text) : Except Error Text := do
  match MethodDescriptor.parse s with
  | .error e => throw (.descriptor e)
  | .ok m =>
    let params ← m.params.mapM r.map
    return MethodDescriptor.text { params, result := ← r.map m.result }

open Signature

/-- A member type stays one while its new name extends the new name of its outer type
by a dollar sign. Otherwise it becomes a type of its own, and the arguments of the
outer type are lost. -/
def nest (outer : ClassType) (name : Text) (args : List TypeArg) : ClassType :=
  match Text.dropFront? (outer.internalName ++ [36]) name with
  | some rest => .inner outer rest args
  | none => .top name args

mutual

/-- A type signature with its classes renamed. -/
def type (r : Renaming) : JavaType → Except Error JavaType
  | .base letter => return .base letter
  | .var name => return .var name
  | .array component => return .array (← r.type component)
  | .class c => return .class (← r.classType c)

/-- A class type with its classes renamed. -/
def classType (r : Renaming) : ClassType → Except Error ClassType
  | .top name args => do
    let name ← r.internalName name
    return .top name (← r.typeArgs args)
  | .inner outer name args => do
    let name ← r.internalName (ClassType.inner outer name args).internalName
    let outer ← r.classType outer
    return nest outer name (← r.typeArgs args)

/-- Type arguments with their classes renamed. -/
def typeArgs (r : Renaming) : List TypeArg → Except Error (List TypeArg)
  | [] => return []
  | arg :: args => do
    let arg ← r.typeArg arg
    return arg :: (← r.typeArgs args)

/-- A type argument with its classes renamed. -/
def typeArg (r : Renaming) : TypeArg → Except Error TypeArg
  | .exact t => return .exact (← r.type t)
  | .extends t => return .extends (← r.type t)
  | .super t => return .super (← r.type t)
  | .any => return .any

end

/-- A type parameter with the classes of its bounds renamed. -/
def typeParam (r : Renaming) (p : TypeParam) : Except Error TypeParam := do
  let classBound ← match p.classBound with
    | some b => some <$> r.type b
    | none => pure none
  return { p with classBound, interfaceBounds := ← p.interfaceBounds.mapM r.type }

/-- A class signature with its classes renamed. -/
def classSig (r : Renaming) (sig : ClassSig) : Except Error ClassSig := do
  let typeParams ← sig.typeParams.mapM r.typeParam
  let superclass ← r.classType sig.superclass
  return { typeParams, superclass, interfaces := ← sig.interfaces.mapM r.classType }

/-- A method signature with its classes renamed. -/
def methodSig (r : Renaming) (sig : MethodSig) : Except Error MethodSig := do
  let typeParams ← sig.typeParams.mapM r.typeParam
  let result ← r.type sig.result
  let params ← sig.params.mapM r.type
  return { typeParams, params, result, throws := ← sig.throws.mapM r.type }

/-- The new text of the signature of a type. -/
def typeSignature (r : Renaming) (s : Text) : Except Error Text := do
  match parseType s with
  | .error e => throw (.signature e)
  | .ok t => return (← r.type t).text

/-- The new text of the signature of a class. -/
def classSignature (r : Renaming) (s : Text) : Except Error Text := do
  match parseClass s with
  | .error e => throw (.signature e)
  | .ok sig => return (← r.classSig sig).text

/-- The new text of the signature of a method. -/
def methodSignature (r : Renaming) (s : Text) : Except Error Text := do
  match parseMethod s with
  | .error e => throw (.signature e)
  | .ok sig => return (← r.methodSig sig).text

end Renaming

end JvmClass
