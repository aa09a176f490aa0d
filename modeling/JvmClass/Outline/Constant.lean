import JvmClass.Constant.Lookup
import JvmClass.Data

/-!
# Outlines of errors and constants

An outline says in plain data what something is. A constant has two: a short one for
where it is referred to, its tag and text, and a full one for its slot in the pool.
-/

namespace JvmClass

namespace Error

/-- The categories by name, in the order in which an outline gives them. -/
def categoryNames : List (Category × String) :=
  [(.malformed, "Malformed"), (.wrongKind, "TypeMismatch"), (.misuse, "BuilderMisuse"),
    (.unresolvedLabel, "UnresolvedLabel"), (.duplicateAttribute, "DuplicateAttribute"),
    (.stackUnknown, "StackUnknown"), (.poolOverflow, "PoolOverflow"),
    (.shortage, "UnexpectedEOF"), (.overflow, "Overflow"), (.descriptor, "InvalidDescriptor"),
    (.signature, "InvalidSignature"), (.raised, "script")]

/-- The names of the categories that an error falls into. -/
def categoryText (e : Error) : String :=
  match (categoryNames.filter fun (c, _) => e.isA c).map (·.2) with
  | [] => "other"
  | names => "+".intercalate names

/-- The fields of an error's outline. -/
def outlineFields (e : Error) : List (String × Data) :=
  [("error", .word e.categoryText), ("message", .text e.message)]
    ++ (e.offset?.map fun o => ("offset", Data.number o)).toList

/-- What an error says. -/
def outline (e : Error) : Data := .fields e.outlineFields

end Error

/-- The outline of a result, or of the error in its place. -/
def Data.orError {α : Type} (f : α → Data) : Except Error α → Data
  | .ok a => f a
  | .error e => e.outline

/-- The outline of an error, if there is one. -/
def Data.ofError? (e : Option Error) : Data := .orNull Error.outline e

/-- Where a constant is referred to: its tag and its text. -/
def Entry.outline (e : Entry) : Data := .list [.word e.tag.name, .text e.text]

namespace Outline

/-- A reference to a text. -/
def utf8 (e : Option Utf8Entry) : Data := .orNull (fun e => (Entry.utf8 e).outline) e

/-- A reference to a class. -/
def class_ (e : Option ClassEntry) : Data :=
  .orNull (fun e => (Entry.loadable (.class e)).outline) e

/-- A reference to a name and type. -/
def nameAndType (e : Option NameAndTypeEntry) : Data :=
  .orNull (fun e => (Entry.nameAndType e).outline) e

/-- A reference to a field or method. -/
def member (e : Option MemberEntry) : Data := .orNull (fun e => (Entry.member e).outline) e

/-- A reference to a constant that can be loaded. -/
def loadable (e : Option Loadable) : Data := .orNull (fun e => (Entry.loadable e).outline) e

/-- A reference to a call site. -/
def callSite (e : Option CallSiteEntry) : Data := .orNull (fun e => (Entry.callSite e).outline) e

/-- A reference to a module. -/
def module (e : Option ModuleEntry) : Data := .orNull (fun e => (Entry.module e).outline) e

/-- A reference to a package. -/
def package (e : Option PackageEntry) : Data := .orNull (fun e => (Entry.package e).outline) e

/-- A set of access flags by its number. -/
def flags (f : AccessFlags) : Data := .ofNat f.bits.toNat

/-- A kind by name. -/
def kind (k : Kind) : Data := .word k.name

end Outline

/-- What a constant holds beside its text: a value, or the indices it refers to. -/
def Entry.parts : Entry → List Data
  | .utf8 _ => []
  | .loadable (.integer _ n) => [.number n]
  | .loadable (.float _ bits) => [.ofHexNat 8 bits]
  | .loadable (.long _ n) => [.ofDecimal n]
  | .loadable (.double _ bits) => [.ofHexNat 16 bits]
  | .loadable (.class e) => [.ofNat e.name.place.index, .text e.descriptor.text]
  | .loadable (.string _ u) => [.ofNat u.place.index, .text u.text]
  | .loadable (.methodType _ d) => [.ofNat d.place.index]
  | .loadable (.handle e) => [.word e.kind.name, .ofNat e.target.place.index]
  | .loadable (.dynamic _ row nt) => [.ofNat row.index, .ofNat nt.place.index]
  | .nameAndType e => [.ofNat e.name.place.index, .ofNat e.type.place.index]
  | .member e => [.ofNat e.owner.place.index, .ofNat e.nameAndType.place.index]
  | .callSite e => [.ofNat e.bootstrap.index, .ofNat e.nameAndType.place.index]
  | .module e => [.ofNat e.name.place.index]
  | .package e => [.ofNat e.name.place.index]

/-- A constant in its slot. -/
def Entry.slot (e : Entry) : Data :=
  .list [.ofNat e.index, .word e.tag.name, .text e.text, .list e.parts,
    .word ((e.loadable?.map fun l => l.kind.name).getD "")]

/-- A row of the bootstrap table with the indices it refers to. -/
def BootstrapRow.outline (r : BootstrapRow) : Data :=
  .list [.ofNat r.index, .ofNat r.handle.place.index,
    .listOf (fun a => .ofNat a.place.index) r.arguments, .text r.text]

/-- A pool through its lookups, with one index past either end. -/
def Outline.pool (size rows : Nat) (entry : Int → Except Error Entry)
    (row : Int → Except Error BootstrapRow) : Data :=
  .fields
    [("size", .ofNat size),
      ("slots", .listOf (fun (i : Nat) => .orError Entry.slot (entry i)) (List.range (size + 1))),
      ("stable", .bool true), ("bsmCount", .ofNat rows),
      ("bsms", .listOf (fun (i : Nat) => .orError BootstrapRow.outline (row (i - 1 : Int)))
        (List.range (rows + 2)))]

/-- The pool of a class file. -/
def Pool.outline (p : Pool) : Data := Outline.pool p.size p.rowCount p.entry p.row

end JvmClass
