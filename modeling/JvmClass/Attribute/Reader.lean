import JvmClass.Attribute

/-!
# Decoding attributes

Every attribute with a known layout is decoded by a step that has to use up its
body exactly. Which names are known depends on what holds the table; in any other
place the bytes are kept as they are. Nested annotations and tables are followed to
a fixed depth.
-/

namespace JvmClass

/-- What an attribute table belongs to. -/
inductive Holder where
  | «class»
  | field
  | method
  | code
  | component
deriving DecidableEq, Repr

namespace Attribute

/-- How deep annotations and tables may nest. -/
def maxNesting : Nat := 64

/-- A two-byte reference to an entry. -/
def readRef {α : Type} (i : Input) (want : Entry → Option α) : Scan α := do
  let offset ← Scan.pos
  let index ← Scan.u2
  Scan.ofExcept (i.pool.refer want offset index)

/-- A two-byte reference where zero stands for no entry. -/
def readOptionalRef {α : Type} (i : Input) (want : Entry → Option α) : Scan (Option α) := do
  let offset ← Scan.pos
  let index ← Scan.u2
  if index = 0 then return none
  return some (← Scan.ofExcept (i.pool.refer want offset index))

/-- A list of references with its count. -/
def readRefs {α : Type} (i : Input) (want : Entry → Option α) : Scan (List (Option α)) :=
  Scan.counted (some <$> readRef i want)

/-- Stops because annotations or tables nest too deep. -/
def tooDeep {α : Type} : Scan α := do
  Scan.fail (.flaw (← Scan.pos) (.nesting maxNesting))

/-- A constant of an annotation, with the tag that its kind asks for. -/
def readConst (i : Input) (kind : UInt8) (tag : Tag) : Scan AnnotationValue := do
  return .const kind (some (← readRef i (Entry.tagged? tag)))

mutual

/-- An annotation, with `room` levels left. -/
def readAnnotationRow (i : Input) : (room : Nat) → Scan Annotation
  | 0 => tooDeep
  | room + 1 => do
    let type ← readRef i Entry.utf8?
    let elements ← Scan.counted do
      let name ← readRef i Entry.utf8?
      return .mk (some name) (← readValue i room)
    return .mk (some type) elements

/-- The value of an annotation element, with `room` levels left. -/
def readValue (i : Input) : (room : Nat) → Scan AnnotationValue
  | 0 => tooDeep
  | room + 1 => do
    let offset ← Scan.pos
    let tag ← Scan.u1
    let kind := tag.toUInt8
    match Char.ofNat tag with
    | 'B' | 'C' | 'I' | 'S' | 'Z' => readConst i kind .integer
    | 'D' => readConst i kind .double
    | 'F' => readConst i kind .float
    | 'J' => readConst i kind .long
    | 's' => readConst i kind .utf8
    | 'e' =>
      let type ← readRef i Entry.utf8?
      return .enum (some type) (some (← readRef i Entry.utf8?))
    | 'c' => return .class (some (← readRef i Entry.utf8?))
    | '@' => return .nested (← readAnnotationRow i room)
    | '[' => return .array (← Scan.counted (readValue i room))
    | _ => Scan.fail (.flaw offset (.elementTag kind))

end

/-- An annotation on a use of a type. -/
def readTypeAnnotationRow (i : Input) (room : Nat) : Scan TypeAnnotation := do
  let offset ← Scan.pos
  let targetType ← Scan.u1
  match TargetLayout.of? targetType with
  | none => Scan.fail (.flaw offset (.annotationTarget targetType.toUInt8))
  | some layout =>
    let start ← Scan.pos
    match layout with
    | .fixed n => Scan.skip n
    | .rows => Scan.skip (6 * (← Scan.u2))
    let stop ← Scan.pos
    let targetInfo ← Scan.ofExcept (i.slice start.toNat (stop - start).toNat)
    let steps ← Scan.u1
    let typePath ← Scan.bytes (2 * steps)
    let marker ← readAnnotationRow i room
    return { targetType := targetType.toUInt8, targetInfo, typePath, marker }

/-- A type in a stack map frame of a body. -/
def readVerificationType (c : InputCode) : Scan VerificationType := do
  let offset ← Scan.pos
  let tag ← Scan.u1
  if tag ≤ 6 then return .plain tag
  if tag = 7 then return .object (← readRef c.input Entry.class?).internalName
  if tag = 8 then
    let new ← Scan.u2
    if c.codeLength ≤ new then Scan.fail (.flaw offset (.uninitialized new c.codeLength))
    return .uninitialized (some (.decoded c.input.origin c.offset new))
  Scan.fail (.flaw offset (.verificationType tag))

/-- The local variables at the start of a method: the receiver, if there is one, and
the parameters. -/
def initialLocals (m : InputMember) : Except Error (List VerificationType) := do
  match MethodDescriptor.parse m.descriptor.text with
  | .error e => throw (.descriptor e)
  | .ok d =>
    let receiver :=
      if m.flags.isStatic then []
      else if m.name.text = "<init>" then [VerificationType.uninitializedThis]
      else [.object m.className]
    return receiver ++ d.params.map VerificationType.ofDescriptor

/-- What a frame adds to the one before: the offset delta, the locals and the stack. -/
def readFrame (c : InputCode) (locals : List VerificationType) :
    Scan (Nat × List VerificationType × List VerificationType) := do
  let offset ← Scan.pos
  let kind ← Scan.u1
  if kind ≤ 63 then return (kind, locals, [])
  if kind ≤ 127 then return (kind - 64, locals, [← readVerificationType c])
  if kind < 247 then Scan.fail (.flaw offset (.reservedFrame kind))
  let delta ← Scan.u2
  if kind = 247 then return (delta, locals, [← readVerificationType c])
  if kind ≤ 250 then
    let removed := 251 - kind
    if locals.length < removed then Scan.fail (.flaw offset (.chopFrame removed locals.length))
    return (delta, locals.take (locals.length - removed), [])
  if kind = 251 then return (delta, locals, [])
  if kind ≤ 254 then
    return (delta, locals ++ (← Scan.times (kind - 251) (readVerificationType c)), [])
  let locals ← Scan.counted (readVerificationType c)
  let stack ← Scan.counted (readVerificationType c)
  return (delta, locals, stack)

/-- Frames after those already read, the last of which stands at `previous`. -/
def readFrames (c : InputCode) (done : List StackMapFrame) (previous : Option Nat)
    (locals : List VerificationType) : Nat → Scan (List StackMapFrame)
  | 0 => return done.reverse
  | n + 1 => fun d =>
    match readFrame c locals d with
    | .error s => .error s
    | .ok ((delta, locals, stack), d') =>
      let offset := match previous with
        | none => delta
        | some p => p + delta + 1
      if c.codeLength ≤ offset then
        .error ⟨.flaw d.pos (.frameOffset offset c.codeLength), d'.pos⟩
      else
        readFrames c (⟨some (.decoded c.input.origin c.offset offset), locals, stack⟩ :: done)
          (some offset) locals n d'

/-- A stack map. -/
def readStackMap (c : InputCode) : Scan AttributeBody := do
  let locals ← Scan.ofExcept (initialLocals c.method)
  let n ← Scan.u2
  return .stackMapTable (← readFrames c [] none locals n)

/-- A row about a nested class. -/
def readInnerClass (i : Input) : Scan InnerClass := do
  let inner ← readRef i Entry.class?
  let outer ← readOptionalRef i Entry.class?
  let name ← readOptionalRef i Entry.utf8?
  let flags ← Scan.u2
  return { inner := some inner, outer, name, flags := .ofInt flags }

/-- A module that a module needs. -/
def readRequire (i : Input) : Scan ModuleRequire := do
  let module ← readRef i Entry.module?
  let flags ← Scan.u2
  let version ← readOptionalRef i Entry.utf8?
  return { module := some module, flags, version }

/-- A package that a module exports or opens. -/
def readExport (i : Input) : Scan ModuleExport := do
  let package ← readRef i Entry.package?
  let flags ← Scan.u2
  let targets ← readRefs i Entry.module?
  return { package := some package, flags, targets }

/-- A service with its providers. -/
def readProvide (i : Input) : Scan ModuleProvide := do
  let service ← readRef i Entry.class?
  let providers ← readRefs i Entry.class?
  return { service := some service, providers }

/-- A module declaration. -/
def readModule (i : Input) : Scan AttributeBody := do
  let module ← readRef i Entry.module?
  let flags ← Scan.u2
  let version ← readOptionalRef i Entry.utf8?
  let requires ← Scan.counted (readRequire i)
  let exports ← Scan.counted (readExport i)
  let opens ← Scan.counted (readExport i)
  let uses ← readRefs i Entry.class?
  let provides ← Scan.counted (readProvide i)
  return .module
    { module := some module, flags, version, requires, exports, opens, uses, provides }

/-- The initial value of a field. -/
def readConstantValue (i : Input) : Scan AttributeBody := do
  let offset ← Scan.pos
  let value ← readRef i Entry.loadable?
  if !value.isFieldValue then
    Scan.fail (.malformed offset (.constantValue value.tag) (some (.wrongKind none)))
  return .constantValue (some value)

/-- A row about a formal parameter. -/
def readParameter (i : Input) : Scan MethodParameter := do
  let name ← readOptionalRef i Entry.utf8?
  let flags ← Scan.u2
  return { name, flags := .ofInt flags }

/-- The extent of a code body. Its parts are only skipped over. -/
def readCode (m : InputMember) (env : Envelope) : Scan AttributeBody := do
  let maxStack ← Scan.u2
  let maxLocals ← Scan.u2
  let at_ ← Scan.pos
  let codeLength ← Scan.u4
  if codeLength = 0 || 0xFFFF < codeLength then Scan.fail (.flaw at_ (.codeLength codeLength))
  let codeStart ← Scan.pos
  Scan.skip codeLength
  let exceptions ← Scan.pos
  Scan.skip (8 * (← Scan.u2))
  let attributes ← Scan.pos
  Layout.skipAttributes
  return .code
    { method := m, offset := env.offset, length := env.length, maxStack, maxLocals
      codeStart := codeStart.toNat, codeLength
      exceptions := exceptions.toNat, attributes := attributes.toNat }

/-- What decoding an attribute depends on beside its bytes. -/
structure Context where
  input : Input
  holder : Holder
  /-- The method that a code body belongs to. -/
  method : Option InputMember
  /-- The body that a nested attribute belongs to. -/
  code : Option InputCode

/-- What a class and its members can hold. -/
def declarations : List Holder := [.class, .field, .method]

/-- The attributes with a layout and a name of their own: name, holders that they mean
something in, and how to read them. Record is not among them, because it holds a
table itself. -/
def plainLayouts (ctx : Context) (room : Nat) (env : Envelope) :
    List (String × List Holder × Scan AttributeBody) :=
  let i := ctx.input
  [ ("SourceFile", [.class], do return .sourceFile (some (← readRef i Entry.utf8?))),
    ("SourceDebugExtension", [.class], do
      return .sourceDebugExtension (← Scan.bytes (← Scan.remaining))),
    ("InnerClasses", [.class], do return .innerClasses (← Scan.counted (readInnerClass i))),
    ("EnclosingMethod", [.class], do
      let owner ← readRef i Entry.class?
      return .enclosingMethod (some owner) (← readOptionalRef i Entry.nameAndType?)),
    ("NestHost", [.class], do return .nestHost (some (← readRef i Entry.class?))),
    ("NestMembers", [.class], do return .nestMembers (← readRefs i Entry.class?)),
    ("PermittedSubclasses", [.class], do
      return .permittedSubclasses (← readRefs i Entry.class?)),
    ("Module", [.class], readModule i),
    ("Signature", declarations ++ [.component], do
      return .signature (some (← readRef i Entry.utf8?))),
    ("Deprecated", declarations, return .deprecated),
    ("Synthetic", declarations, return .synthetic),
    ("ConstantValue", [.field], readConstantValue i),
    ("Exceptions", [.method], do return .exceptions (← readRefs i Entry.class?)),
    ("MethodParameters", [.method], do
      let n ← Scan.u1
      return .methodParameters (← Scan.times n (readParameter i))),
    ("AnnotationDefault", [.method], do return .annotationDefault (← readValue i room)),
    ("Code", [.method],
      match ctx.method with
      | some m => readCode m env
      | none => Scan.fail .outOfBounds),
    ("StackMapTable", [.code],
      match ctx.code with
      | some c => readStackMap c
      | none => Scan.fail .outOfBounds) ]

/-- The annotation attributes, which come in a visible and an invisible form. -/
def annotationLayouts (ctx : Context) (room : Nat) (visible : Bool) :
    List (String × List Holder × Scan AttributeBody) :=
  let i := ctx.input
  [ (AttributeBody.runtimeName visible "Annotations", declarations ++ [.component], do
      return .annotations visible (← Scan.counted (readAnnotationRow i room))),
    (AttributeBody.runtimeName visible "ParameterAnnotations", [.method], do
      let n ← Scan.u1
      return .parameterAnnotations visible
        (← Scan.times n (Scan.counted (readAnnotationRow i room)))),
    (AttributeBody.runtimeName visible "TypeAnnotations", declarations ++ [.code, .component], do
      return .typeAnnotations visible (← Scan.counted (readTypeAnnotationRow i room))) ]

/-- All attributes with a known layout, save Record. -/
def layouts (ctx : Context) (room : Nat) (env : Envelope) :
    List (String × List Holder × Scan AttributeBody) :=
  plainLayouts ctx room env ++ annotationLayouts ctx room true ++ annotationLayouts ctx room false

/-- The layout with a name that means something in a holder. -/
def layout? (ctx : Context) (room : Nat) (env : Envelope) : Option (Scan AttributeBody) :=
  match (layouts ctx room env).find? fun row => (row.1 : Text) = env.name.text with
  | some (_, holders, read) => if holders.contains ctx.holder then some read else none
  | none => none

/-- Reads an attribute body with `read`, or keeps the bytes when there is none. -/
def decodeWith (i : Input) (env : Envelope) (read : Option (Scan AttributeBody)) :
    Except Error Attribute := do
  let name := env.name.text
  let span : Span := ⟨i.origin, env.offset, env.length⟩
  match read with
  | none => return .mk (some span) (.unknown name (← i.slice env.offset env.length))
  | some read =>
    match Scan.onWindow i.cursor env.offset (env.offset + env.length) read with
    | .error s => throw (.malformed env.offset (.attribute name) (some s.error))
    | .ok (body, d) =>
      if d.remaining ≠ 0 then throw (.flaw d.pos (.attributeTrailing d.remaining name))
      return .mk (some span) body

/-- The name of the table of bootstrap methods, which is read with the constants and
never counts as an attribute of the class. -/
def isBootstrapTable (holder : Holder) (name : Text) : Bool :=
  holder = .class && name = Lookup.bootstrapMethods

/-- One attribute of a table, unless it is left out. -/
def readTableRow (ctx : Context) (decode : Envelope → Except Error Attribute) :
    Scan (Option Attribute) := do
  let offset ← Scan.pos
  let name ← Scan.ofExcept (ctx.input.pool.refer Entry.utf8? offset (← Scan.u2))
  let length ← Scan.u4
  let left ← Scan.remaining
  if left < length then Scan.fail (.flaw offset (.attributeLength name.text length left))
  let start ← Scan.pos
  Scan.skip length
  if isBootstrapTable ctx.holder name.text then return none
  let a ← Scan.ofExcept (decode ⟨name, start.toNat, length⟩)
  if a.body.isUnknown && ctx.input.options.has .dropUnknownAttributes then return none
  return some a

/-- An attribute table. -/
def readTable (ctx : Context) (decode : Envelope → Except Error Attribute) :
    Scan (List Attribute) := do
  return (← Scan.counted (readTableRow ctx decode)).filterMap id

/-- A component of a record class, in a table with `room` levels left. -/
def readComponent (i : Input) : (room : Nat) → Scan RecordComponent
  | 0 => do
    let _ ← readRef i Entry.utf8?
    let _ ← readRef i Entry.utf8?
    tooDeep
  | room + 1 => do
    let name ← readRef i Entry.utf8?
    let descriptor ← readRef i Entry.utf8?
    let ctx : Context := { input := i, holder := .component, method := none, code := none }
    let attributes ← readTable ctx fun env => decodeWith i env (layout? ctx room env)
    return .mk (some name) (some descriptor) (attributes.map some)

/-- Decodes an attribute with `room` levels left. -/
def decode (ctx : Context) (room : Nat) (env : Envelope) : Except Error Attribute :=
  let read :=
    if env.name.text = "Record" then
      if ctx.holder = .class then
        some (do return .record (← Scan.counted (readComponent ctx.input room)))
      else none
    else layout? ctx room env
  decodeWith ctx.input env read

/-- The attributes of the table from `start` to `stop`. -/
def table (ctx : Context) (start stop : Nat) : Except Error (List Attribute) :=
  match Scan.onWindow ctx.input.cursor start stop (readTable ctx (decode ctx maxNesting)) with
  | .error s => .error s.error
  | .ok (attributes, _) => .ok attributes

end Attribute

end JvmClass
