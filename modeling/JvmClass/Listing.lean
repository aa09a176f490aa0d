import JvmClass.ClassFile
import JvmClass.Traversal
import Std.Data.HashMap

/-!
# Listings

A listing shows a class file to people. It never shows pool indices, and labels are
named in the order in which they are bound, so class files with the same structure
have the same listing however their pools are laid out.
-/

namespace JvmClass

/-- A line of a listing with its indentation. -/
structure ListingLine where
  indent : Nat
  text : Text

namespace Listing

/-- The lines, moved in by one step. -/
def nest (ls : List ListingLine) : List ListingLine :=
  ls.map fun l => { l with indent := l.indent + 1 }

/-- Two spaces for each step of indentation, and a newline after every line. -/
def render (ls : List ListingLine) : Text :=
  ls.flatMap fun l => List.replicate (2 * l.indent) 32 ++ l.text ++ [10]

/-- Words with a space between them. -/
def words (ts : List Text) : Text := Text.join " " ts

/-- Words in brackets. -/
def bracketed (ts : List Text) : Text := "[" ++ words ts ++ "]"

def utf8 (e : Option Utf8Entry) : Text := (e.map (·.text)).getD []

def className (e : Option ClassEntry) : Text := (e.map (·.internalName)).getD []

def classNames (es : List (Option ClassEntry)) : Text := bracketed (es.map className)

/-- The text of an entry, or a dash for none. -/
def orDash (t : Option Text) : Text := t.getD "-"

mutual

/-- An annotation with its elements in parentheses. -/
def annotationText : Annotation → Text
  | .mk type elements => "@" ++ utf8 type ++ "(" ++ Text.join ", " (elementTexts elements) ++ ")"

def elementTexts : List AnnotationElement → List Text
  | [] => []
  | .mk name value :: rest => (utf8 name ++ "=" ++ annotationValue value) :: elementTexts rest

/-- The value of an annotation element. -/
def annotationValue : AnnotationValue → Text
  | .missing => "?"
  | .const kind value => [kind] ++ ":" ++ (value.map (·.text)).getD []
  | .enum type constant => utf8 type ++ "." ++ utf8 constant
  | .class descriptor => utf8 descriptor ++ ".class"
  | .nested a => annotationText a
  | .array values => "\x7b" ++ Text.join ", " (valueTexts values) ++ "\x7d"

def valueTexts : List AnnotationValue → List Text
  | [] => []
  | v :: rest => annotationValue v :: valueTexts rest

end

/-- A row about a nested class. -/
def innerClass (r : InnerClass) : Text :=
  words [className r.inner,
    "outer=" ++ orDash (r.outer.map (·.internalName)),
    "name=" ++ orDash (r.name.map (·.text)),
    "flags=" ++ r.flags.text]

mutual

/-- The lines of an attribute. -/
def attributeLines : Attribute → List ListingLine
  | .mk _ body => attributeBody body

def attributeBody : AttributeBody → List ListingLine
  | .sourceFile file => [⟨0, words ["SourceFile", utf8 file]⟩]
  | .signature text => [⟨0, words ["Signature", utf8 text]⟩]
  | .constantValue value => [⟨0, words ["ConstantValue", (value.map (·.text)).getD []]⟩]
  | .exceptions classes => [⟨0, words ["Exceptions", classNames classes]⟩]
  | .nestHost host => [⟨0, words ["NestHost", className host]⟩]
  | .nestMembers members => [⟨0, words ["NestMembers", classNames members]⟩]
  | .permittedSubclasses subclasses =>
    [⟨0, words ["PermittedSubclasses", classNames subclasses]⟩]
  | .enclosingMethod owner method =>
    [⟨0, words ([Text.ofString "EnclosingMethod", className owner]
      ++ (method.map (·.text)).toList)⟩]
  | .innerClasses rows => ⟨0, "InnerClasses"⟩ :: rows.map fun r => ⟨1, innerClass r⟩
  | .record components => ⟨0, "Record"⟩ :: nest (recordComponents components)
  | .methodParameters rows =>
    [⟨0, words ["MethodParameters", bracketed (rows.map fun r => orDash (r.name.map (·.text)))]⟩]
  | .annotations visible rows =>
    ⟨0, (AttributeBody.annotations visible rows).name⟩ :: rows.map fun a => ⟨1, annotationText a⟩
  | .parameterAnnotations visible rows =>
    ⟨0, (AttributeBody.parameterAnnotations visible rows).name⟩ ::
      rows.zipIdx.flatMap fun (as, i) => as.map fun a => ⟨1, words [Text.ofNat i, annotationText a]⟩
  | .typeAnnotations visible rows =>
    ⟨0, (AttributeBody.typeAnnotations visible rows).name⟩ :: rows.map fun a =>
      ⟨1, words ["target=0x" ++ Text.hex 2 a.targetType.toNat, annotationText a.marker]⟩
  | .annotationDefault value => [⟨0, words ["AnnotationDefault", annotationValue value]⟩]
  | .module m =>
    [⟨0, words ["Module", (m.module.map (·.name.text)).getD [],
      s!"requires={m.requires.length}", s!"exports={m.exports.length}",
      s!"opens={m.opens.length}", "uses=" ++ classNames m.uses,
      s!"provides={m.provides.length}"]⟩]
  | .unknown name data => [⟨0, name ++ s!" ({data.length} bytes)"⟩]
  | .sourceDebugExtension _ => [⟨0, "SourceDebugExtension"⟩]
  | .deprecated => [⟨0, "Deprecated"⟩]
  | .synthetic => [⟨0, "Synthetic"⟩]
  | .stackMapTable _ => [⟨0, "StackMapTable"⟩]
  | .code _ => [⟨0, "Code"⟩]

def recordComponents : List RecordComponent → List ListingLine
  | [] => []
  | .mk name descriptor attributes :: rest =>
    ⟨0, words ["component", utf8 name, utf8 descriptor]⟩ ::
      nest (optionalAttributes attributes) ++ recordComponents rest

def optionalAttributes : List (Option Attribute) → List ListingLine
  | [] => []
  | none :: rest => optionalAttributes rest
  | some a :: rest => attributeLines a ++ optionalAttributes rest

end

/-- The names of labels: their numbers in the order in which they are bound. -/
abbrev LabelNames := Std.HashMap Label Nat

/-- Numbers the labels that a body binds. -/
def nameLabels (elements : List CodeElement) : LabelNames :=
  elements.foldl (fun names e =>
    match e with
    | .label (some l) => names.insertIfNew l names.size
    | _ => names) {}

/-- The name of a label. -/
def label (names : LabelNames) : Option Label → Text
  | none => "-"
  | some l =>
    match names[l]? with
    | some n => s!"L{n}"
    | none => "-"

/-- The types with fixed names, in the order of their tags. -/
def plainTypes : List String :=
  ["top", "int", "float", "double", "long", "null", "uninitializedThis"]

def verificationType (names : LabelNames) : VerificationType → Text
  | .plain tag => (plainTypes[tag]?).getD ""
  | .object name => name
  | .uninitialized new => "uninitialized(" ++ label names new ++ ")"

/-- A switch: where it goes by default, then each case. -/
def switch (names : LabelNames) (op : Opcode) (fallback : Option Label)
    (cases : List SwitchCase) : Text :=
  words ([op.name, "default", label names fallback]
    ++ cases.map fun c => Text.ofInt c.value ++ ":" ++ label names c.target)

/-- An instruction. A long form of loading a constant is shown as the short one. -/
def instruction (names : LabelNames) (i : Instruction) : Text :=
  let op := i.op
  match i with
  | .load _ slot | .store _ slot =>
    if op.size = 1 then op.name else words [op.name, Text.ofInt slot]
  | .increment slot delta => words [op.name, Text.ofInt slot, Text.ofInt delta]
  | .branch _ target => words [op.name, label names target]
  | .lookupSwitch fallback cases => switch names op fallback cases
  | .tableSwitch _ _ fallback cases => switch names op fallback cases
  | .field _ f => words [op.name, (f.map (·.text)).getD []]
  | .invoke _ (some m) =>
    words ([op.name] ++ (if m.kind = .interfaceMethod then [Text.ofString "interface"] else [])
      ++ [m.text])
  | .invokeDynamic (some s) => words [op.name, s.nameAndType.text, s.bootstrap.text]
  | .newObject t | .newReferenceArray t | .typeCheck _ t => words [op.name, className t]
  | .newPrimitiveArray k => words [op.name, k.name]
  | .newMultiArray t n => words [op.name, className t, Text.ofInt n]
  | .constant _ _ (some e) =>
    words [(if op = Opcode.ldcW then Opcode.ldc else op).name, e.text]
  | .constant _ value none =>
    if op = Opcode.bipush || op = Opcode.sipush then words [op.name, Text.ofInt value] else op.name
  | .discontinued _ target slot =>
    if op = Opcode.ret then words [op.name, Text.ofInt slot]
    else words [op.name, label names target]
  | _ => op.name

/-- The scope of a local variable. -/
def scope (names : LabelNames) (s : LocalScope) : Text :=
  words ["local", Text.ofInt s.slot, utf8 s.name, utf8 s.type,
    label names s.start ++ ".." ++ label names s.stop]

/-- The lines of an element of a body. Labels stand one step further out. -/
def codeElement (names : LabelNames) : CodeElement → List ListingLine
  | .label l => [⟨0, label names l ++ ":"⟩]
  | .instruction i => [⟨1, instruction names i⟩]
  | .handler c =>
    [⟨1, words ["catch", (c.type.map (·.internalName)).getD "any",
      label names c.start ++ ".." ++ label names c.stop, "->", label names c.handler]⟩]
  | .line n => [⟨1, words ["line", Text.ofInt n]⟩]
  | .localVariable s | .localVariableType s => [⟨1, scope names s⟩]
  | .attribute a =>
    match a.body with
    | .stackMapTable frames =>
      frames.map fun f =>
        ⟨1, words ["frame", label names f.target,
          "locals=" ++ bracketed (f.locals.map (verificationType names)),
          "stack=" ++ bracketed (f.stack.map (verificationType names))]⟩
    | _ => [⟨1, words ["attribute", a.name]⟩]

/-- The lines of a body. -/
def code (elements : List CodeElement) : List ListingLine :=
  let names := nameLabels elements
  elements.flatMap (codeElement names)

/-- The lines of a method. -/
def method (m : InputMember) : Traversal ListingLine :=
  let head : List ListingLine :=
    [⟨0, words ["method", m.name.text ++ m.descriptor.text]⟩, ⟨1, words ["flags", m.flags.text]⟩]
  match m.methodAttributes with
  | .error e => ⟨head, some e⟩
  | .ok attributes =>
    let bodies := attributes.filterMap fun a =>
      match a.body with
      | .code c => some c
      | _ => none
    let others := attributes.filter fun a =>
      match a.body with
      | .code _ => false
      | _ => true
    let head := head ++ nest (others.flatMap attributeLines)
    match bodies.getLast? with
    | none => .ofList head
    | some c =>
      .after (head ++ [⟨1, s!"code stack={c.maxStack} locals={c.maxLocals}"⟩])
        (c.elements.map fun es => nest (code es))

/-- The lines of a field. -/
def field (f : InputMember) : Traversal ListingLine :=
  .after [⟨0, words ["field", f.name.text, f.descriptor.text]⟩, ⟨1, words ["flags", f.flags.text]⟩]
    (f.fieldAttributes.map fun as => nest (as.flatMap attributeLines))

/-- The lines about the class itself. -/
def header (c : ClassFile) : Traversal ListingLine :=
  .after
    ([⟨0, c.text⟩, ⟨1, s!"version {c.major}.{c.minor}"⟩, ⟨1, words ["flags", c.flags.text]⟩]
      ++ (c.super.map fun s => ⟨1, words ["super", s.internalName]⟩).toList
      ++ c.interfaces.map fun i => ⟨1, words ["implements", i.internalName]⟩)
    (c.attributes.map fun as => nest (as.flatMap attributeLines))

end Listing

/-- The lines of a class file, up to the first part that cannot be decoded. -/
def ClassFile.lines (c : ClassFile) : Traversal ListingLine :=
  (Listing.header c).append
    (.concat (c.fields.map Listing.field ++ c.methods.map Listing.method))

/-- The listing of a class file. -/
def ClassFile.listing (c : ClassFile) : Except Error Text := c.lines.all.map Listing.render

end JvmClass
