import JvmClass.Build.Follower
import JvmClass.Renaming.Transform
import JvmClass.Script.Constant

/-!
# Attributes in scripts

A script runs inside a builder. It keeps a journal: what it logs, and the state of the
transforms that it makes. Labels and local slots have names in a script; a name lasts
for one run of one list of steps.
-/

namespace JvmClass

namespace Script

/-- What scripts keep. -/
structure Journal where
  log : Array Data := #[]
  counters : Array Nat := #[]
  trackers : Array StackTracker := #[]
  shifters : Array LocalsShifter := #[]

namespace Journal

/-- Writes a row to the log. -/
def write (row : Data) : StateM Journal Unit :=
  modify fun j => { j with log := j.log.push row }

/-- A tracker by number. -/
def tracker (i : Nat) : Held Journal StackTracker where
  get j := j.trackers[i]?.getD default
  set t j := { j with trackers := j.trackers.setIfInBounds i t }

/-- A shifter of local variables by number. -/
def shifter (i : Nat) : Held Journal LocalsShifter where
  get j := j.shifters[i]?.getD default
  set t j := { j with shifters := j.shifters.setIfInBounds i t }

end Journal

/-- An action of a script on what is under construction. -/
abbrev Handler (δ : Type) := ExceptT Error (Drafting Journal δ)

/-- The names that a list of steps has given. -/
structure Scope where
  labels : Std.HashMap Text Label := {}
  slots : Std.HashMap Text Int := {}

/-- A step of a script. -/
abbrev Step (δ : Type) := StateT Scope (Handler δ)

variable {δ α : Type}

/-- Acts on the journal. -/
def keeping (act : StateM Journal α) : Handler δ α :=
  ExceptT.lift (Drafting.session (Build.onUser act))

/-- Runs steps with names of their own. -/
def runSteps (step : Data → Step δ Unit) (steps : List Data) : Handler δ Unit := do
  let _ ← StateT.run (steps.forM step) ({} : Scope)

namespace Step

/-- Reads the data of a step. -/
def read (r : Except Error α) : Step δ α := liftM r

/-- Interns what the data of a step names. -/
def intern (act : Spec α) : Step δ α := StateT.lift (Renaming.inPool act)

/-- Acts on what is under construction. -/
def draft (act : Drafting Journal δ α) : Step δ α := StateT.lift (ExceptT.lift act)

/-- Acts on the journal. -/
def keep (act : StateM Journal α) : Step δ α := StateT.lift (keeping act)

/-- Writes a row to the log. -/
def log (name : String) (rest : List Data) : Step δ Unit := keep (Journal.write (.row name rest))

/-- Does something with every item of a list. -/
def each (d : Data) (f : Data → Step δ α) : Step δ (List α) := do (← read d.items).mapM f

/-- Rows repeated a number of times, once unless the number is given. -/
def repeated (times : Data) (rows : List α) : Step δ (List α) := do
  if times.isNull then return rows
  return (List.replicate (← read times.nat) rows).flatten

/-- Logs the error that has been recorded. -/
def logError : Step δ Unit := do
  log "err" [.ofError? (← draft (Drafting.session Build.error?))]

end Step

/-- What is under construction and has labels of its own. -/
class HasLabels (δ : Type) where
  /-- The label that a name always stands for. -/
  fixed? : Text → Drafting Journal δ (Option Label)

instance : HasLabels ClassDraft := ⟨fun _ => return none⟩
instance : HasLabels FieldDraft := ⟨fun _ => return none⟩
instance : HasLabels MethodDraft := ⟨fun _ => return none⟩

instance : HasLabels CodeDraft where
  fixed? name := do
    if name = ("@start" : Text) then return some (← CodeM.startLabel)
    if name = ("@end" : Text) then return some (← CodeM.endLabel)
    return none

namespace Step

variable [HasLabels δ]

/-- The label of a name, which is made when the name is first used. -/
def label (d : Data) : Step δ (Option Label) := do
  if d.isNull then return none
  let name ← read d.plain
  if let some l ← draft (HasLabels.fixed? name) then return some l
  match (← get).labels[name]? with
  | some l => return some l
  | none =>
    let l ← draft (Drafting.session Build.freshLabel)
    modify fun s => { s with labels := s.labels.insert name l }
    return some l

/-- A local slot, by number or name. -/
def slot (d : Data) : Step δ Int := do
  match d with
  | .text name => return ((← get).slots[name]?).getD 0
  | _ => read d.int

/-- A type of a stack map frame. -/
def verificationType (d : Data) : Step δ VerificationType := do
  match ← read (d.item 0).nat with
  | 7 => return .object (← read (d.item 1).string)
  | 8 => return .uninitialized (← label (d.item 1))
  | t => return .plain t

/-- A stack map frame. -/
def frame (d : Data) : Step δ StackMapFrame := do
  let target ← label (d.item 0)
  let locals ← each (d.item 1) verificationType
  return { target, locals, stack := ← each (d.item 2) verificationType }

end Step

end Script

namespace Libraries

open Script

variable {δ α : Type} [HasLabels δ] (libs : Libraries)

/-- The constant that data names; `null` names none. -/
def entry (d : Data) : Step δ (Option Entry) := Step.intern (Script.entry libs d)

/-- A constant of one kind; one of another kind counts as none. -/
def entryAs (pick : Entry → Option α) (d : Data) : Step δ (Option α) := do
  return (← libs.entry d).bind pick

def utf8 (d : Data) : Step δ (Option Utf8Entry) := libs.entryAs Entry.utf8? d

def class_ (d : Data) : Step δ (Option ClassEntry) := libs.entryAs Entry.class? d

def module (d : Data) : Step δ (Option ModuleEntry) := libs.entryAs Entry.module? d

mutual

/-- An annotation. -/
def annotationWith (fuel : Nat) (d : Data) : Step δ Annotation := do
  match fuel with
  | 0 => throw tooDeep
  | fuel + 1 =>
    let type ← libs.utf8 (d.item 0)
    let elements ← Step.each (d.item 1) fun r => do
      let name ← libs.utf8 (r.item 0)
      return .mk name (← annotationValueWith fuel (r.item 1))
    return .mk type elements

/-- The value of an annotation element. -/
def annotationValueWith (fuel : Nat) (d : Data) : Step δ AnnotationValue := do
  match fuel with
  | 0 => throw tooDeep
  | fuel + 1 =>
    if d.isNull then return .missing
    match ← Step.read (d.item 0).name with
    | "const" =>
      let tag ← Step.read (d.item 1).string
      return .const (tag.headD 0) (← libs.entry (d.item 2))
    | "enum" =>
      let type ← libs.utf8 (d.item 1)
      return .enum type (← libs.utf8 (d.item 2))
    | "class" => return .class (← libs.utf8 (d.item 1))
    | "ann" => return .nested (← annotationWith fuel (d.item 1))
    | "array" => return .array (← Step.each (d.item 1) (annotationValueWith fuel))
    | _ => Step.read (Data.unexpected "annotation value")

end

/-- An annotation. -/
def annotationRow (d : Data) : Step δ Annotation := libs.annotationWith (d.depth + 1) d

/-- The value of an annotation element. -/
def annotationValue (d : Data) : Step δ AnnotationValue := libs.annotationValueWith (d.depth + 1) d

/-- An annotation on a use of a type. -/
def typeAnnotationRow (d : Data) : Step δ TypeAnnotation := do
  return {
    targetType := (unsigned 8 (← Step.read (d.item 0).int)).toUInt8
    targetInfo := (← Step.read (d.item 1).bytes).toList
    typePath := (← Step.read (d.item 2).bytes).toList
    marker := ← libs.annotationRow (d.item 3) }

/-- A package that a module exports or opens. -/
def moduleExport (d : Data) : Step δ ModuleExport := do
  let package ← libs.entryAs Entry.package? (d.item 0)
  return {
    package, flags := ← Step.read (d.item 1).int
    targets := ← Step.each (d.item 2) libs.module }

/-- The declaration of a module. -/
def moduleInfo (d : Data) : Step δ ModuleInfo := do
  let module ← libs.module (d.field "module")
  let version ← libs.utf8 (d.field "version")
  let uses ← Step.each (d.field "uses") libs.class_
  let requires ← Step.each (d.field "requires") fun r => do
    let module ← libs.module (r.item 0)
    return { module, flags := ← Step.read (r.item 1).int, version := ← libs.utf8 (r.item 2) }
  let exports ← Step.each (d.field "exports") libs.moduleExport
  let opens ← Step.each (d.field "opens") libs.moduleExport
  let provides ← Step.each (d.field "provides") fun r => do
    let service ← libs.class_ (r.item 0)
    return { service, providers := ← Step.each (r.item 1) libs.class_ }
  return {
    module, flags := ← Step.read (d.field "flags").int, version, requires, exports, opens, uses
    provides }

/-- A row about a nested class. -/
def innerClass (d : Data) : Step δ InnerClass := do
  let inner ← libs.class_ (d.item 0)
  let outer ← libs.class_ (d.item 1)
  let name ← libs.utf8 (d.item 2)
  return { inner, outer, name, flags := ← Step.read (d.item 3).flags }

/-- A row about a formal parameter. -/
def methodParameter (d : Data) : Step δ MethodParameter := do
  let name ← libs.utf8 (d.item 0)
  return { name, flags := ← Step.read (d.item 1).flags }

/-- What an attribute says. -/
def attributeBodyWith (fuel : Nat) (d : Data) : Step δ AttributeBody := do
  match fuel with
  | 0 => throw tooDeep
  | fuel + 1 =>
    let bytes (i : Nat) : Step δ Bytes := do return (← Step.read (d.item i).bytes).toList
    let visible : Step δ Bool := Step.read (d.item 1).truth
    match ← Step.read (d.item 0).name with
    | "SourceFile" => return .sourceFile (← libs.utf8 (d.item 1))
    | "SourceDebugExtension" => return .sourceDebugExtension (← bytes 1)
    | "InnerClasses" => return .innerClasses (← Step.each (d.item 1) libs.innerClass)
    | "EnclosingMethod" =>
      let owner ← libs.class_ (d.item 1)
      return .enclosingMethod owner (← libs.entryAs Entry.nameAndType? (d.item 2))
    | "NestHost" => return .nestHost (← libs.class_ (d.item 1))
    | "NestMembers" => return .nestMembers (← Step.each (d.item 1) libs.class_)
    | "PermittedSubclasses" => return .permittedSubclasses (← Step.each (d.item 1) libs.class_)
    | "Record" =>
      return .record (← Step.each (d.item 1) fun r => do
        let name ← libs.utf8 (r.item 0)
        let descriptor ← libs.utf8 (r.item 1)
        let attributes ← Step.each (r.item 2) fun a => do
          if a.isNull then return none
          return some (Attribute.ofBody (← attributeBodyWith fuel a))
        return .mk name descriptor attributes)
    | "Module" => return .module (← libs.moduleInfo (d.item 1))
    | "Signature" => return .signature (← libs.utf8 (d.item 1))
    | "Deprecated" => return .deprecated
    | "Synthetic" => return .synthetic
    | "Unknown" =>
      let name ← Step.read (d.item 1).string
      return .unknown name (← bytes 2)
    | "ConstantValue" => return .constantValue (← libs.entryAs Entry.loadable? (d.item 1))
    | "Exceptions" => return .exceptions (← Step.each (d.item 1) libs.class_)
    | "MethodParameters" =>
      let rows ← Step.each (d.item 1) libs.methodParameter
      return .methodParameters (← Step.repeated (d.item 2) rows)
    | "AnnotationDefault" => return .annotationDefault (← libs.annotationValue (d.item 1))
    | "Annotations" => return .annotations (← visible) (← Step.each (d.item 2) libs.annotationRow)
    | "ParameterAnnotations" =>
      let rows ← Step.each (d.item 2) fun p => Step.each p libs.annotationRow
      return .parameterAnnotations (← visible) (← Step.repeated (d.item 3) rows)
    | "TypeAnnotations" =>
      return .typeAnnotations (← visible) (← Step.each (d.item 2) libs.typeAnnotationRow)
    | "StackMapTable" => return .stackMapTable (← Step.each (d.item 1) Step.frame)
    | _ => Step.read (Data.unexpected "attribute")

/-- An attribute. -/
def attributeOf (d : Data) : Step δ Attribute :=
  Attribute.ofBody <$> libs.attributeBodyWith (d.depth + 1) d

end Libraries

end JvmClass
