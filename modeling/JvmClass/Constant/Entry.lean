import JvmClass.Constant.Tag
import JvmClass.Decimal.Spelling
import JvmClass.Descriptor
import JvmClass.Text.Quoted

/-!
# Constants with their references resolved

An entry is a constant of some pool together with everything that it refers to, so
a reader of an entry never goes back to the pool. Each entry keeps its place: the
pool that holds it and its index there. Two entries of one pool are the same
entry exactly when their places agree; entries of different pools are compared by
what they denote.
-/

namespace JvmClass

/-- A pool: the one under construction, or that of an input, told apart by number. -/
inductive Origin where
  | output
  | input (number : Nat)
deriving DecidableEq, Hashable, Repr, Inhabited

/-- Where an entry stands: its pool and its index. -/
structure Place where
  origin : Origin
  index : Nat
deriving DecidableEq, Repr, Inhabited

/-- A text constant. -/
structure Utf8Entry where
  place : Place
  text : Text
deriving DecidableEq, Repr, Inhabited

/-- A class, interface or array type, by internal name. -/
structure ClassEntry where
  place : Place
  name : Utf8Entry
deriving DecidableEq, Repr, Inhabited

/-- A member's name and descriptor. -/
structure NameAndTypeEntry where
  place : Place
  name : Utf8Entry
  type : Utf8Entry
deriving DecidableEq, Repr, Inhabited

/-- What a member reference refers to. -/
inductive MemberKind where
  | field
  | method
  | interfaceMethod
deriving DecidableEq, Repr, Inhabited

/-- A reference to a member of a class. -/
structure MemberEntry where
  place : Place
  kind : MemberKind
  owner : ClassEntry
  nameAndType : NameAndTypeEntry
deriving DecidableEq, Repr, Inhabited

/-- A method handle. -/
structure HandleEntry where
  place : Place
  kind : HandleKind
  target : MemberEntry
deriving DecidableEq, Repr, Inhabited

mutual

/-- A constant that can be pushed on the stack, and so be an argument of a bootstrap
method. Floating-point numbers are kept as their bits. -/
inductive Loadable where
  | integer (place : Place) (value : Int)
  | float (place : Place) (bits : Nat)
  | long (place : Place) (value : Int)
  | double (place : Place) (bits : Nat)
  | «class» (entry : ClassEntry)
  | string (place : Place) (utf8 : Utf8Entry)
  | methodType (place : Place) (descriptor : Utf8Entry)
  | handle (entry : HandleEntry)
  | dynamic (place : Place) (bootstrap : BootstrapRow) (nameAndType : NameAndTypeEntry)

/-- A row of the bootstrap method table: a handle and its static arguments. -/
inductive BootstrapRow where
  | mk (place : Place) (handle : HandleEntry) (arguments : List Loadable)

end

instance : Inhabited Loadable := ⟨.integer default 0⟩
instance : Inhabited BootstrapRow := ⟨.mk default default []⟩

/-- A call site that a bootstrap method links. -/
structure CallSiteEntry where
  place : Place
  bootstrap : BootstrapRow
  nameAndType : NameAndTypeEntry
deriving Inhabited

/-- A module, by name. -/
structure ModuleEntry where
  place : Place
  name : Utf8Entry
deriving DecidableEq, Repr, Inhabited

/-- A package, by internal name. -/
structure PackageEntry where
  place : Place
  name : Utf8Entry
deriving DecidableEq, Repr, Inhabited

/-- Any constant of a pool. -/
inductive Entry where
  | utf8 (entry : Utf8Entry)
  | loadable (entry : Loadable)
  | nameAndType (entry : NameAndTypeEntry)
  | member (entry : MemberEntry)
  | callSite (entry : CallSiteEntry)
  | module (entry : ModuleEntry)
  | package (entry : PackageEntry)
deriving Inhabited

namespace ClassEntry

/-- The internal name. -/
def internalName (e : ClassEntry) : Text := e.name.text

/-- The descriptor of the named type. -/
def descriptor (e : ClassEntry) : Descriptor := .ofInternalName e.name.text

end ClassEntry

namespace NameAndTypeEntry

/-- Name and descriptor, with a colon between them. -/
def text (e : NameAndTypeEntry) : Text := e.name.text ++ ":" ++ e.type.text

end NameAndTypeEntry

/-- The tag of a reference to a member. -/
def MemberKind.tag : MemberKind → Tag
  | .field => .fieldRef
  | .method => .methodRef
  | .interfaceMethod => .interfaceMethodRef

namespace MemberEntry

def tag (e : MemberEntry) : Tag := e.kind.tag

/-- The member's name. -/
def name (e : MemberEntry) : Text := e.nameAndType.name.text

/-- The member's descriptor. -/
def type (e : MemberEntry) : Text := e.nameAndType.type.text

/-- Owner, name and descriptor. -/
def text (e : MemberEntry) : Text := e.owner.internalName ++ "." ++ e.nameAndType.text

end MemberEntry

namespace HandleEntry

/-- The kind of the handle and what it refers to. -/
def text (e : HandleEntry) : Text := e.kind.name ++ " " ++ e.target.text

end HandleEntry

namespace BootstrapRow

def place : BootstrapRow → Place
  | .mk place _ _ => place

def handle : BootstrapRow → HandleEntry
  | .mk _ handle _ => handle

def arguments : BootstrapRow → List Loadable
  | .mk _ _ arguments => arguments

/-- Position in the bootstrap method table. -/
def index (r : BootstrapRow) : Nat := r.place.index

end BootstrapRow

/-- The wording of a constant that a row of the bootstrap table produces. -/
def dynamicText (row : BootstrapRow) (nameAndType : NameAndTypeEntry) : Text :=
  s!"#{row.index}:" ++ nameAndType.text

namespace Loadable

def place : Loadable → Place
  | .integer p _ | .float p _ | .long p _ | .double p _ => p
  | .class e => e.place
  | .string p _ | .methodType p _ => p
  | .handle e => e.place
  | .dynamic p _ _ => p

def tag : Loadable → Tag
  | .integer .. => .integer
  | .float .. => .float
  | .long .. => .long
  | .double .. => .double
  | .class _ => .class
  | .string .. => .string
  | .methodType .. => .methodType
  | .handle _ => .methodHandle
  | .dynamic .. => .dynamic

/-- The kind of value that the constant pushes. -/
def kind : Loadable → Kind
  | .integer .. => .int
  | .float .. => .float
  | .long .. => .long
  | .double .. => .double
  | .dynamic _ _ nt => Kind.ofDescriptor nt.type.text
  | _ => .reference

def text : Loadable → Text
  | .integer _ n => Text.ofInt n
  | .float _ bits => Decimal.Spelling.listing.text Decimal.single bits ++ "f"
  | .long _ n => Text.ofInt n ++ "L"
  | .double _ bits => Decimal.Spelling.listing.text Decimal.double bits ++ "d"
  | .class e => e.internalName
  | .string _ utf8 => utf8.text.quoted
  | .methodType _ descriptor => descriptor.text
  | .handle e => e.text
  | .dynamic _ row nt => dynamicText row nt

/-- Whether the constant can be the initial value of a field. -/
def isFieldValue : Loadable → Bool
  | .integer .. | .float .. | .long .. | .double .. | .string .. => true
  | _ => false

end Loadable

/-- The handle, then the arguments in brackets. -/
def BootstrapRow.text (r : BootstrapRow) : Text :=
  r.handle.text ++ " [" ++ Text.join ", " (r.arguments.map Loadable.text) ++ "]"

/-- The wording of a call site. -/
def CallSiteEntry.text (e : CallSiteEntry) : Text := dynamicText e.bootstrap e.nameAndType

namespace Entry

def place : Entry → Place
  | .utf8 e => e.place
  | .loadable e => e.place
  | .nameAndType e => e.place
  | .member e => e.place
  | .callSite e => e.place
  | .module e => e.place
  | .package e => e.place

def index (e : Entry) : Nat := e.place.index

def tag : Entry → Tag
  | .utf8 _ => .utf8
  | .loadable e => e.tag
  | .nameAndType _ => .nameAndType
  | .member e => e.tag
  | .callSite _ => .invokeDynamic
  | .module _ => .module
  | .package _ => .package

def text : Entry → Text
  | .utf8 e => e.text
  | .loadable e => e.text
  | .nameAndType e => e.text
  | .member e => e.text
  | .callSite e => e.text
  | .module e => e.name.text
  | .package e => e.name.text

def utf8? : Entry → Option Utf8Entry
  | .utf8 e => some e
  | _ => none

def loadable? : Entry → Option Loadable
  | .loadable e => some e
  | _ => none

def class? : Entry → Option ClassEntry
  | .loadable (.class e) => some e
  | _ => none

def handle? : Entry → Option HandleEntry
  | .loadable (.handle e) => some e
  | _ => none

def nameAndType? : Entry → Option NameAndTypeEntry
  | .nameAndType e => some e
  | _ => none

def member? : Entry → Option MemberEntry
  | .member e => some e
  | _ => none

/-- The entry as a reference to a field. -/
def field? : Entry → Option MemberEntry
  | .member e => if e.kind = .field then some e else none
  | _ => none

def callSite? : Entry → Option CallSiteEntry
  | .callSite e => some e
  | _ => none

def module? : Entry → Option ModuleEntry
  | .module e => some e
  | _ => none

def package? : Entry → Option PackageEntry
  | .package e => some e
  | _ => none

/-- The entry itself, when it has the given tag. -/
def tagged? (tag : Tag) (e : Entry) : Option Entry := if e.tag = tag then some e else none

end Entry

end JvmClass
