import JvmClass.Attribute
import JvmClass.Build.Emit

/-!
# Writing attributes

An attribute is written from what it says, unless it was decoded from the input whose
constants the pool keeps: then its bytes still hold and are copied. Stack maps are
always written anew, because their offsets depend on the body around them, and what
options leave out forbids copying as well.
-/

namespace JvmClass

/-- The word that a message has for a constant that cannot be a field's value. -/
def AttributeBody.valueWord : Option Loadable → Text
  | none => "<nil>"
  | some e =>
    match e with
    | .integer .. => "*classfile.IntegerEntry"
    | .float .. => "*classfile.FloatEntry"
    | .long .. => "*classfile.LongEntry"
    | .double .. => "*classfile.DoubleEntry"
    | .class _ => "*classfile.ClassEntry"
    | .string .. => "*classfile.StringEntry"
    | .methodType .. => "*classfile.MethodTypeEntry"
    | .handle _ => "*classfile.MethodHandleEntry"
    | .dynamic .. => "*classfile.DynamicEntry"

/-- Whether the bytes of a decoded attribute may be copied under the options. -/
def AttributeBody.copies (options : Options) : AttributeBody → Bool
  | .stackMapTable _ => false
  | .code _ => options.copiesVerbatim
  | .record _ => !options.has .dropUnknownAttributes
  | _ => true

/-- Whether a holder may have several attributes like this one. -/
def AttributeBody.repeatable (body : AttributeBody) : Bool :=
  body.isUnknown ||
    [("LineNumberTable" : Text), "LocalVariableTable", "LocalVariableTypeTable"].contains body.name

namespace Emit

variable {σ : Type}

/-- The bytes that an attribute was decoded from, if they still hold. -/
def copied? (a : Attribute) : Emit σ (Option Bytes) := do
  let s ← getThe (Session σ)
  match a.span, s.pool.parent with
  | some span, some parent =>
    if span.origin = parent.origin && a.body.copies s.options then
      return some (← liftM (parent.slice span.offset span.length))
    return none
  | _, _ => return none

mutual

/-- An annotation. -/
def annotationRow : Annotation → Emit σ Bytes
  | .mk type elements => do
    let type ← refUtf8 type
    let n ← count elements.length
    return type ++ n ++ (← annotationElements elements)

/-- The elements of an annotation. -/
def annotationElements : List AnnotationElement → Emit σ Bytes
  | [] => return []
  | .mk name value :: rest => do
    let name ← refUtf8 name
    let value ← annotationValue value
    return name ++ value ++ (← annotationElements rest)

/-- The value of an annotation element. -/
def annotationValue : AnnotationValue → Emit σ Bytes
  | .missing => throw (.misuse .missingAnnotationValue)
  | .const kind value => do return [kind] ++ (← ref value)
  | .enum type constant => do
    let type ← refUtf8 type
    return Text.byte 'e' :: type ++ (← refUtf8 constant)
  | .class d => do return Text.byte 'c' :: (← refUtf8 d)
  | .nested marker => do return Text.byte '@' :: (← annotationRow marker)
  | .array values => do
    let n ← count values.length
    return Text.byte '[' :: n ++ (← annotationValues values)

/-- The values of an array. -/
def annotationValues : List AnnotationValue → Emit σ Bytes
  | [] => return []
  | v :: rest => do
    let v ← annotationValue v
    return v ++ (← annotationValues rest)

end

/-- Annotations with their count. -/
def annotationTable (rows : List Annotation) : Emit σ Bytes := counted annotationRow rows

/-- An annotation on a use of a type. -/
def typeAnnotationRow (a : TypeAnnotation) : Emit σ Bytes := do
  if a.typePath.length % 2 ≠ 0 then throw (.misuse (.typePath a.typePath.length))
  return [a.targetType] ++ a.targetInfo ++ u1 (a.typePath.length / 2 : Nat) ++ a.typePath
    ++ (← annotationRow a.marker)

/-- Where the labels of a body stand, known while the attributes of a body are
written. -/
abbrev Offsets := Option Label → Except Error Nat

/-- A type of a stack map frame. -/
def verificationType (offsets : Offsets) (v : VerificationType) : Emit σ Bytes := do
  let tag := u1 v.tag
  match v with
  | .plain _ => return tag
  | .object name =>
    return tag ++ u2 (← interning (PoolBuilder.class_ name)).place.index
  | .uninitialized new => return tag ++ u2 (← liftM (offsets new))

/-- Frames in the order of their offsets, each in full, after one at `previous`. -/
def framesAfter (offsets : Offsets) (previous : Int) (done : List Bytes) :
    List (Nat × StackMapFrame) → Emit σ Bytes
  | [] => return done.reverse.flatten
  | (offset, f) :: rest => do
    if offset = previous then throw (.misuse (.framesAt offset))
    let locals ← counted (verificationType offsets) f.locals
    let stack ← counted (verificationType offsets) f.stack
    let bytes := u1 255 ++ u2 (offset - previous - 1) ++ locals ++ stack
    framesAfter offsets offset (bytes :: done) rest

/-- A stack map. -/
def stackMap (offsets : Option Offsets) (frames : List StackMapFrame) : Emit σ Bytes := do
  match offsets with
  | none => throw (.misuse .stackMapOutsideCode)
  | some offsets =>
    let placed ← frames.mapM fun f => do return (← liftM (offsets f.target), f)
    let n ← count placed.length
    return n ++ (← framesAfter offsets (-1) [] (placed.mergeSort fun a b => a.1 ≤ b.1))

/-- A package that a module exports or opens. -/
def moduleExport (e : ModuleExport) : Emit σ Bytes := do
  let package ← ref (e.package.map .package)
  let targets ← counted (fun t => ref (t.map .module)) e.targets
  return package ++ u2 e.flags ++ targets

/-- The declaration of a module. -/
def moduleInfo (m : ModuleInfo) : Emit σ Bytes := do
  let module ← ref (m.module.map .module)
  let version ← optionalUtf8 m.version
  let requires ← counted
    (fun r => do
      let module ← ref (r.module.map .module)
      return module ++ u2 r.flags ++ (← optionalUtf8 r.version)) m.requires
  let exports ← counted moduleExport m.exports
  let opens ← counted moduleExport m.opens
  let uses ← counted refClass m.uses
  let provides ← counted
    (fun p => do
      let service ← refClass p.service
      return service ++ (← counted refClass p.providers)) m.provides
  return module ++ u2 m.flags ++ version ++ requires ++ exports ++ opens ++ uses ++ provides

/-- A row about a nested class. -/
def innerClass (c : InnerClass) : Emit σ Bytes := do
  let inner ← refClass c.inner
  let outer ← optionalClass c.outer
  let name ← optionalUtf8 c.name
  return inner ++ outer ++ name ++ u2 c.flags.bits.toNat

/-- A row about a formal parameter. -/
def methodParameter (p : MethodParameter) : Emit σ Bytes := do
  return (← optionalUtf8 p.name) ++ u2 p.flags.bits.toNat

/-- The value of a field. -/
def constantValue (value : Option Loadable) : Emit σ Bytes := do
  if !(value.map Loadable.isFieldValue).getD false then
    throw (.misuse (.constantValue (AttributeBody.valueWord value)))
  ref (value.map .loadable)

mutual

/-- The body of an attribute. Bodies of methods are written by `code`. -/
def attributeBody (offsets : Option Offsets) (code : InputCode → Emit σ Bytes) :
    AttributeBody → Emit σ Bytes
  | .sourceFile file => refUtf8 file
  | .sourceDebugExtension data => return data
  | .innerClasses rows => counted innerClass rows
  | .enclosingMethod owner method => do
    let owner ← refClass owner
    return owner ++ (← optionalRef (method.map .nameAndType))
  | .nestHost host => refClass host
  | .nestMembers members => counted refClass members
  | .permittedSubclasses subclasses => counted refClass subclasses
  | .record components => do
    let n ← count components.length
    return n ++ (← recordComponents offsets code components)
  | .module info => moduleInfo info
  | .signature text => refUtf8 text
  | .deprecated | .synthetic => return []
  | .unknown _ data => return data
  | .constantValue value => constantValue value
  | .exceptions classes => counted refClass classes
  | .methodParameters rows => do
    if 255 < rows.length then throw (.misuse (.methodParameters rows.length))
    return u1 rows.length ++ (← each methodParameter rows)
  | .annotationDefault value => annotationValue value
  | .annotations _ rows => annotationTable rows
  | .parameterAnnotations _ rows => do
    if 255 < rows.length then throw (.misuse (.annotatedParameters rows.length))
    return u1 rows.length ++ (← each annotationTable rows)
  | .typeAnnotations _ rows => counted typeAnnotationRow rows
  | .stackMapTable frames => stackMap offsets frames
  | .code body => code body

/-- The components of a record class. -/
def recordComponents (offsets : Option Offsets) (code : InputCode → Emit σ Bytes) :
    List RecordComponent → Emit σ Bytes
  | [] => return []
  | .mk name descriptor attributes :: rest => do
    let name ← refUtf8 name
    let descriptor ← refUtf8 descriptor
    let table ← itemTable (attributeItems offsets code attributes)
    return name ++ descriptor ++ table ++ (← recordComponents offsets code rest)

/-- Attributes as a table takes them. -/
def attributeItems (offsets : Option Offsets) (code : InputCode → Emit σ Bytes) :
    List (Option Attribute) → List (Option (Item σ))
  | [] => []
  | none :: rest => none :: attributeItems offsets code rest
  | some (.mk span body) :: rest =>
    let write : Emit σ Bytes := named body.name do
      match ← copied? (.mk span body) with
      | some bytes => return bytes
      | none => attributeBody offsets code body
    some { name := body.name, repeatable := body.repeatable, write }
      :: attributeItems offsets code rest

end

end Emit

end JvmClass
