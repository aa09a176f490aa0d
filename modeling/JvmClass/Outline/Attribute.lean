import JvmClass.Attribute
import JvmClass.Outline.Constant
import Std.Data.HashMap

/-!
# Outlines of attributes

Labels have no names of their own. An outline numbers them in the order in which it
first comes to them, so that outlines of equal bodies are equal.
-/

namespace JvmClass

namespace Outline

/-- Writing an outline, with the numbers that labels have got so far. -/
abbrev Naming := StateM (Std.HashMap Label Nat)

/-- A label by its number. -/
def label : Option Label → Naming Data
  | none => return .null
  | some l => do
    let numbers ← get
    match numbers[l]? with
    | some n => return .word s!"L{n}"
    | none =>
      set (numbers.insert l numbers.size)
      return .word s!"L{numbers.size}"

mutual

/-- An annotation: its type and elements. -/
def annotationRow : Annotation → Data
  | .mk type elements => .list [utf8 type, .list (annotationElements elements)]

/-- The elements of an annotation. -/
def annotationElements : List AnnotationElement → List Data
  | [] => []
  | .mk name value :: rest => .list [utf8 name, annotationValue value] :: annotationElements rest

/-- The value of an annotation element. -/
def annotationValue : AnnotationValue → Data
  | .missing => .null
  | .const kind value => .row "const" [.text (Text.ofCode kind.toNat), .orNull Entry.outline value]
  | .enum type constant => .row "enum" [utf8 type, utf8 constant]
  | .class d => .row "class" [utf8 d]
  | .nested a => .row "ann" [annotationRow a]
  | .array vs => .row "array" [.list (annotationValues vs)]

/-- The values of an array. -/
def annotationValues : List AnnotationValue → List Data
  | [] => []
  | v :: rest => annotationValue v :: annotationValues rest

end

/-- A type of a stack map frame. -/
def verificationType : VerificationType → Naming Data
  | .plain t => return .list [.ofNat t]
  | .object name => return .list [.ofNat 7, .text name]
  | .uninitialized new => return .list [.ofNat 8, ← label new]

/-- A stack map frame. -/
def frame (f : StackMapFrame) : Naming Data := do
  let target ← label f.target
  let locals ← f.locals.mapM verificationType
  let stack ← f.stack.mapM verificationType
  return .list [target, .list locals, .list stack]

/-- The packages that a module exports or opens. -/
def exports (es : List ModuleExport) : Data :=
  .listOf (fun e => .list [package e.package, .number e.flags, .listOf module e.targets]) es

/-- The declaration of a module. -/
def moduleInfo (m : ModuleInfo) : Data :=
  .fields
    [("module", module m.module), ("flags", .number m.flags), ("version", utf8 m.version),
      ("requires", .listOf (fun r => .list [module r.module, .number r.flags, utf8 r.version])
        m.requires),
      ("exports", exports m.exports), ("opens", exports m.opens),
      ("uses", .listOf class_ m.uses),
      ("provides", .listOf (fun p => .list [class_ p.service, .listOf class_ p.providers])
        m.provides)]

/-- A row about a nested class. -/
def innerClass (r : InnerClass) : Data :=
  .list [class_ r.inner, class_ r.outer, utf8 r.name, flags r.flags]

/-- An annotation on a use of a type. -/
def typeAnnotationRow (a : TypeAnnotation) : Data :=
  .list [.ofNat a.targetType.toNat, .ofBytes a.targetInfo, .ofBytes a.typePath,
    annotationRow a.marker]

mutual

/-- What an attribute says, where `code` gives the outline of a body. -/
def attributeBody (code : InputCode → Data) : AttributeBody → Naming Data
  | .sourceFile f => return .row "SourceFile" [utf8 f]
  | .sourceDebugExtension d => return .row "SourceDebugExtension" [.ofBytes d]
  | .innerClasses rows => return .row "InnerClasses" [.listOf innerClass rows]
  | .enclosingMethod c m => return .row "EnclosingMethod" [class_ c, nameAndType m]
  | .nestHost h => return .row "NestHost" [class_ h]
  | .nestMembers ms => return .row "NestMembers" [.listOf class_ ms]
  | .permittedSubclasses ms => return .row "PermittedSubclasses" [.listOf class_ ms]
  | .record cs => return .row "Record" [.list (← components code cs)]
  | .module m => return .row "Module" [moduleInfo m]
  | .signature s => return .row "Signature" [utf8 s]
  | .deprecated => return .row "Deprecated" []
  | .synthetic => return .row "Synthetic" []
  | .unknown name data => return .row "Unknown" [.text name, .ofBytes data]
  | .constantValue v => return .row "ConstantValue" [loadable v]
  | .exceptions cs => return .row "Exceptions" [.listOf class_ cs]
  | .methodParameters ps =>
    return .row "MethodParameters" [.listOf (fun p => .list [utf8 p.name, flags p.flags]) ps]
  | .annotationDefault v => return .row "AnnotationDefault" [annotationValue v]
  | .annotations v rows => return .row "Annotations" [.bool v, .listOf annotationRow rows]
  | .parameterAnnotations v ps =>
    return .row "ParameterAnnotations" [.bool v, .listOf (.listOf annotationRow) ps]
  | .typeAnnotations v rows =>
    return .row "TypeAnnotations" [.bool v, .listOf typeAnnotationRow rows]
  | .stackMapTable fs => return .row "StackMapTable" [.list (← fs.mapM frame)]
  | .code c => return .row "Code" [code c]

/-- The components of a record class. -/
def components (code : InputCode → Data) : List RecordComponent → Naming (List Data)
  | [] => return []
  | .mk name descriptor attributes :: rest => do
    let attributes ← optionalAttributes code attributes
    let first := .list [utf8 name, utf8 descriptor, .list attributes]
    return first :: (← components code rest)

/-- Attributes, some of them left out. -/
def optionalAttributes (code : InputCode → Data) : List (Option Attribute) → Naming (List Data)
  | [] => return []
  | none :: rest => return .null :: (← optionalAttributes code rest)
  | some (.mk _ body) :: rest => do
    let first ← attributeBody code body
    return first :: (← optionalAttributes code rest)

end

end Outline

end JvmClass
