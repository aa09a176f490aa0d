import JvmClass.Listing
import JvmClass.Outline.Code
import JvmClass.Summary

/-!
# Outlines of class files

Besides the outline of a whole class there are the kinds of the elements that a walk
comes by, which scripts pick elements with.
-/

namespace JvmClass

/-- The kind of a class element; members are told apart by name. -/
def ClassElement.kind : ClassElement → Text
  | .flags _ => "AccessFlags"
  | .version .. => "Version"
  | .superclass _ => "Superclass"
  | .interfaces _ => "Interfaces"
  | .field f => "Field:" ++ f.name.text
  | .method m => "Method:" ++ m.name.text
  | .attribute a => a.name

/-- The kind of a field element. -/
def FieldElement.kind : FieldElement → Text
  | .flags _ => "AccessFlags"
  | .attribute a => a.name

/-- The kind of a method element. -/
def MethodElement.kind : MethodElement → Text
  | .flags _ => "AccessFlags"
  | .code _ => "Code"
  | .attribute a => a.name

/-- The kind of a code element; instructions are told apart by mnemonic. -/
def CodeElement.kind : CodeElement → Text
  | .instruction i => i.op.name
  | .label _ => "LabelTarget"
  | .handler _ => "ExceptionCatch"
  | .line _ => "LineNumber"
  | .localVariable _ => "LocalVariable"
  | .localVariableType _ => "LocalVariableType"
  | .attribute a => a.name

namespace Outline

/-- A kind as it is shown, which is always proper text. -/
def elementKind (kind : Text) : Data := .text kind.scrubbed

/-- A walk by the kinds of its elements, and the error that it ends with. -/
def traversal {ε : Type} (kind : ε → Text) (t : Traversal ε) : Data :=
  .list (t.elements.map (fun e => elementKind (kind e)) ++ (t.failure.map Error.outline).toList)

/-- The fields that members of both sorts have. -/
def member_ (m : InputMember) (text : Text) (as : Except Error (List Attribute)) :
    List (String × Data) :=
  [("string", .text text), ("name", .text m.name.text), ("desc", .text m.descriptor.text),
    ("flags", flags m.flags), ("attrs", .orError attributes as)]

/-- A field of an input. -/
def inputField (f : InputMember) : Data := .fields (member_ f f.fieldText f.fieldAttributes)

/-- A method of an input; whether it has a body is left out when that cannot be read. -/
def inputMethod (m : InputMember) : Data :=
  let as := m.methodAttributes
  let hasCode := match as with
    | .ok as => [("hasCode", Data.bool (InputMember.firstCode? as).isSome)]
    | .error _ => []
  .fields (member_ m m.methodText as ++ hasCode)

/-- Fields and methods in full, other elements not at all. -/
def member? : ClassElement → Option Data
  | .field f =>
    some (.row "field" [.text f.text, flags f.flags, .orError attributes f.attributes])
  | .method m =>
    some (.row "method" [.text m.text, flags m.flags, .orError attributes m.attributes,
      .orError (.orNull CodeModel.outline) m.code])
  | _ => none

/-- The error of an outcome, if it has one. -/
def errorOf {α : Type} : Except Error α → List Error
  | .ok _ => []
  | .error e => [e]

/-- The errors that outlines of attributes show. -/
def attributeErrors : Except Error (List Attribute) → List Error
  | .error e => [e]
  | .ok as => as.flatMap fun a =>
    match a.body with
    | .code c => errorOf c.elements
    | _ => []

/-- The errors that the outline of a field or method shows, in the order in which they are
met. -/
def memberErrors : ClassElement → List Error
  | .field f => attributeErrors f.attributes
  | .method m => attributeErrors m.attributes ++
    match m.code with
    | .ok (some c) => errorOf c.elements
    | _ => []
  | _ => []

end Outline

/-- A class file with all its parts. -/
def ClassFile.outline (c : ClassFile) : Data :=
  .fields
    [("this", Outline.class_ (some c.this)), ("super", Outline.class_ c.super),
      ("interfaces", .listOf (fun i => Outline.class_ (some i)) c.interfaces),
      ("flags", Outline.flags c.flags), ("major", .ofNat c.major), ("minor", .ofNat c.minor),
      ("options", .ofNat c.options.bits.toNat), ("string", .text c.text),
      ("fields", .listOf Outline.inputField c.fields),
      ("methods", .listOf Outline.inputMethod c.methods),
      ("attrs", .orError Outline.attributes c.attributes),
      ("elements", Outline.traversal ClassElement.kind c.traversal)]

/-- A member of a summary. -/
def MemberSummary.outline (m : MemberSummary) : Data :=
  .list [.text m.name, .text m.descriptor, .ofNat m.flags, .ofTexts m.attributes,
    .number m.codeLength, .number m.maxStack, .number m.maxLocals]

/-- A summary. -/
def Summary.outline (s : Summary) : Data :=
  .fields
    [("name", .text s.name), ("super", .text s.super), ("interfaces", .ofTexts s.interfaces),
      ("major", .number s.major), ("minor", .number s.minor), ("flags", .ofNat s.flags),
      ("fields", .listOf MemberSummary.outline s.fields),
      ("methods", .listOf MemberSummary.outline s.methods),
      ("attributes", .ofTexts s.attributes), ("poolSize", .number s.poolSize),
      ("references", .ofTexts s.references)]

/-- The view of a class file that a name asks for. -/
def ClassFile.view (c : ClassFile) (name : String) : Except Error (List (String × Data)) :=
  match name with
  | "model" => .ok [("model", c.outline)]
  | "dump" => .ok [("dump", .orError .text c.listing)]
  | "pool" => .ok [("pool", c.pool.outline)]
  | "summary" =>
    match Summary.ofClassFile c with
    | .ok s => .ok [("summary", s.outline), ("cbor", .ofBytes s.encode)]
    | .error e => .ok [("summary", e.outline)]
  | _ => Data.unexpected "view"

/-- The errors that a view shows, in the order in which they are met. -/
def ClassFile.viewErrors (c : ClassFile) (name : String) : List Error :=
  match name with
  | "model" => c.traversal.elements.flatMap Outline.memberErrors ++ c.traversal.failure.toList
  | "dump" => Outline.errorOf c.listing
  | "pool" => c.pool.entries.toList.flatMap Outline.errorOf
  | "summary" => Outline.errorOf (Summary.ofClassFile c)
  | _ => []

/-- The class after one of its views was taken. -/
def ClassFile.settledByView (c : ClassFile) (name : String) : ClassFile :=
  c.settledBy fun c =>
    match Error.abortAmong? (c.viewErrors name) with
    | some e => .error e
    | none => .ok ()

/-- The views of a class file that names ask for, taken one after another, as fields of
one record. -/
def ClassFile.views (c : ClassFile) : List String → Except Error (List (String × Data))
  | [] => return []
  | name :: rest => do
    let c := c.settledByView name
    return (← c.view name) ++ (← c.views rest)

/-- Entries of a class file as what they are taken for, looked up one after another. -/
def ClassFile.entriesAs (c : ClassFile) : List ((Entry → Bool) × Int) →
    List (Except Error Entry)
  | [] => []
  | (want, i) :: rest =>
    let look (c : ClassFile) := c.pool.entryAs (fun e => if want e then some e else none) i
    let c := c.settledBy look
    look c :: c.entriesAs rest

end JvmClass
