import Std.Data.HashMap
import JvmClass.ClassFile.Input

/-!
# A pool under construction

Asking a pool builder for a constant interns it: equal requests get the same entry,
and an index never moves once it is given out. A builder that starts from an input
keeps the constants of the input at their indices, answers requests with them where
they match, and copies their bytes. Constants of other pools are copied in, with all
that they refer to, when something that refers to them is written.

The first error is kept. Requests after it still get an entry, so a caller can go on
and look at the error in the end.
-/

namespace JvmClass

/-- What makes two constants of one pool equal: the tag, and the value or the
indices of what is referred to. -/
inductive ConstantKey where
  | text (value : Text)
  /-- A number, by its bits. -/
  | number (tag : Tag) (bits : Nat)
  | single (tag : Tag) (index : Nat)
  | pair (tag : Tag) (first second : Nat)
deriving DecidableEq, Hashable, Repr

/-- The tag of the constants that a key stands for. -/
def ConstantKey.tag : ConstantKey → Tag
  | .text _ => .utf8
  | .number t _ | .single t _ | .pair t _ _ => t

/-- The key of an integer constant of the given width. -/
def ConstantKey.integral (tag : Tag) (bits : Nat) (value : Int) : ConstantKey :=
  .number tag (unsigned bits value)

/-- The key of a loadable constant. -/
def Loadable.key : Loadable → ConstantKey
  | .integer _ n => .integral .integer 32 n
  | .float _ bits => .number .float bits
  | .long _ n => .integral .long 64 n
  | .double _ bits => .number .double bits
  | .class e => .single .class e.name.place.index
  | .string _ utf8 => .single .string utf8.place.index
  | .methodType _ descriptor => .single .methodType descriptor.place.index
  | .handle e => .pair .methodHandle e.kind.byte.toNat e.target.place.index
  | .dynamic _ row nt => .pair .dynamic row.index nt.place.index

/-- The key of a constant. -/
def Entry.key : Entry → ConstantKey
  | .utf8 e => .text e.text
  | .loadable e => e.key
  | .nameAndType e => .pair .nameAndType e.name.place.index e.type.place.index
  | .member e => .pair e.tag e.owner.place.index e.nameAndType.place.index
  | .callSite e => .pair .invokeDynamic e.bootstrap.index e.nameAndType.place.index
  | .module e => .single .module e.name.place.index
  | .package e => .single .package e.name.place.index

/-- What makes two bootstrap rows of one pool equal: the indices of the handle and of
the arguments. -/
def BootstrapRow.key (r : BootstrapRow) : List Nat :=
  r.handle.place.index :: r.arguments.map fun a => a.place.index

/-- A constant pool under construction. -/
structure PoolBuilder where
  /-- The input whose constants come first. -/
  parent : Option Input
  /-- The first index that is not the parent's. -/
  base : Nat
  /-- The constants from `base` on; the second slot of an eight-byte number is empty. -/
  slots : Array (Option Entry)
  /-- Where the constant of a key stands. -/
  places : Std.HashMap ConstantKey Place
  /-- Whether the parent's constants and rows have been entered. -/
  indexed : Bool
  rows : Array BootstrapRow
  rowOf : Std.HashMap (List Nat) BootstrapRow
  error : Option Error
deriving Inhabited

/-- An action on a pool under construction. -/
abbrev Interning := StateM PoolBuilder

namespace PoolBuilder

/-- The largest size of a pool. -/
def maxSize : Nat := 65535

/-- The longest text constant, in encoded bytes. -/
def maxTextLength : Nat := 65535

/-- A pool that starts from the constants of an input. -/
def ofParent (parent : Input) : PoolBuilder :=
  { (default : PoolBuilder) with parent := some parent, base := parent.pool.size }

/-- A pool without constants. -/
def empty : PoolBuilder := { (default : PoolBuilder) with base := 1 }

/-- One more than the highest index. -/
def size (p : PoolBuilder) : Nat := p.base + p.slots.size

/-- Whether a constant of the given pool keeps its index in this one. -/
def owns (p : PoolBuilder) (origin : Origin) : Bool :=
  origin = .output || (p.parent.map (·.origin)) = some origin

/-- Keeps an error unless there is one already. -/
def fail (e : Error) : Interning Unit :=
  modify fun p => { p with error := some (Error.first p.error e) }

/-- Enters a constant of the parent, unless an equal one came before. -/
def enterEntry (places : Std.HashMap ConstantKey Place) (e : Except Error Entry) :
    Std.HashMap ConstantKey Place :=
  match e with
  | .ok e => places.insertIfNew e.key e.place
  | .error _ => places

/-- Enters the parent's rows up to the first that cannot be read. -/
def enterRows : List (Except Error BootstrapRow) → Interning Unit
  | [] => pure ()
  | .error e :: _ => fail e
  | .ok row :: rest => do
    modify fun p => { p with
      rows := p.rows.push row
      rowOf := p.rowOf.insertIfNew row.key row }
    enterRows rest

/-- Enters the constants and rows of the parent, the first time it is called. Those that
cannot be read are left out, but looking them up can settle the parent. -/
def ensureIndexed : Interning Unit := do
  if (← get).indexed then return
  modify fun p => { p with indexed := true }
  if let some parent := (← get).parent then
    if let some e := parent.pool.abort? then fail e
    modify fun p => { p with places := parent.pool.entries.foldl enterEntry p.places }
    if let .ok rows := parent.pool.rows then enterRows rows.toList

/-- The place of the constant with a key; if there is none yet, one is added, which
`make` builds from its place. -/
def intern (key : ConstantKey) (make : Place → Entry) : Interning Place := do
  ensureIndexed
  match (← get).places[key]? with
  | some place => return place
  | none =>
    let size := (← get).size
    let place : Place := ⟨.output, size⟩
    if maxSize < size + key.tag.slots then fail (.misuse .poolOverflow)
    modify fun p => { p with
      slots := (p.slots.push (some (make place))) ++ Array.replicate (key.tag.slots - 1) none
      places := p.places.insert key place }
    return place

/-- A text constant. -/
def utf8 (text : Text) : Interning Utf8Entry := do
  let length := (ModifiedUtf8.encode text).length
  if maxTextLength < length then fail (.misuse (.utf8Length length))
  return ⟨← intern (.text text) fun p => .utf8 ⟨p, text⟩, text⟩

/-- The text constant itself if this pool can refer to it, else its copy. -/
def adoptUtf8 (e : Utf8Entry) : Interning Utf8Entry := do
  if (← get).owns e.place.origin then return e else utf8 e.text

/-- A loadable constant that `make` builds from its place. -/
def internLoadable (make : Place → Loadable) : Interning Loadable := do
  let place ← intern (make default).key fun p => .loadable (make p)
  return make place

def integer (value : Int) : Interning Loadable := internLoadable fun p => .integer p value

def float (bits : Nat) : Interning Loadable := internLoadable fun p => .float p bits

def long (value : Int) : Interning Loadable := internLoadable fun p => .long p value

def double (bits : Nat) : Interning Loadable := internLoadable fun p => .double p bits

/-- The class that a text constant names. -/
def classOf (name : Utf8Entry) : Interning ClassEntry := do
  let name ← adoptUtf8 name
  let place ← intern (.single .class name.place.index) fun p => .loadable (.class ⟨p, name⟩)
  return ⟨place, name⟩

/-- The class of an internal name. -/
def class_ (internalName : Text) : Interning ClassEntry := do
  classOf (← utf8 internalName)

/-- The class of a descriptor. A primitive type has none. -/
def classFor (d : Descriptor) : Interning ClassEntry := do
  if d.isPrimitive then fail (.misuse (.primitiveClass d.text))
  class_ (d.internalName?.getD [])

/-- The class itself if this pool can refer to it, else its copy. -/
def adoptClass (e : ClassEntry) : Interning ClassEntry := do
  if (← get).owns e.place.origin then return e else class_ e.internalName

/-- A string constant. -/
def string (text : Text) : Interning Loadable := do
  let utf8 ← utf8 text
  internLoadable fun p => .string p utf8

/-- A method type. -/
def methodType (descriptor : Text) : Interning Loadable := do
  let utf8 ← utf8 descriptor
  internLoadable fun p => .methodType p utf8

/-- A name and descriptor of given constants. -/
def nameAndTypeOf (name type : Utf8Entry) : Interning NameAndTypeEntry := do
  let name ← adoptUtf8 name
  let type ← adoptUtf8 type
  let place ← intern (.pair .nameAndType name.place.index type.place.index) fun place =>
    .nameAndType { place, name, type }
  return { place, name, type }

/-- A name and descriptor. -/
def nameAndType (name type : Text) : Interning NameAndTypeEntry := do
  let name ← utf8 name
  nameAndTypeOf name (← utf8 type)

/-- The name and descriptor itself if this pool can refer to it, else its copy. -/
def adoptNameAndType (e : NameAndTypeEntry) : Interning NameAndTypeEntry := do
  if (← get).owns e.place.origin then return e else nameAndType e.name.text e.type.text

/-- A reference to a member, of given constants. -/
def memberOf (kind : MemberKind) (owner : ClassEntry) (nameAndType : NameAndTypeEntry) :
    Interning MemberEntry := do
  let owner ← adoptClass owner
  let nameAndType ← adoptNameAndType nameAndType
  let place ← intern (.pair kind.tag owner.place.index nameAndType.place.index) fun place =>
    .member { place, kind, owner, nameAndType }
  return { place, kind, owner, nameAndType }

/-- A reference to a member. -/
def member (kind : MemberKind) (owner : ClassEntry) (name type : Text) :
    Interning MemberEntry := do
  memberOf kind owner (← nameAndType name type)

/-- The reference itself if this pool can refer to it, else its copy. -/
def adoptMember (e : MemberEntry) : Interning MemberEntry := do
  if (← get).owns e.place.origin then return e else memberOf e.kind e.owner e.nameAndType

/-- A method handle. -/
def handle (kind : HandleKind) (target : MemberEntry) : Interning HandleEntry := do
  if !kind.accepts target.tag then fail (.misuse (.handleTarget kind target.tag))
  let target ← adoptMember target
  let place ← intern (.pair .methodHandle kind.byte.toNat target.place.index) fun place =>
    .loadable (.handle { place, kind, target })
  return { place, kind, target }

/-- The handle itself if this pool can refer to it, else its copy. -/
def adoptHandle (e : HandleEntry) : Interning HandleEntry := do
  if (← get).owns e.place.origin then return e else handle e.kind e.target

/-- A bootstrap row of constants that this pool can refer to. -/
def internRow (handle : HandleEntry) (arguments : List Loadable) : Interning BootstrapRow := do
  let p ← get
  let row := BootstrapRow.mk ⟨.output, p.rows.size⟩ handle arguments
  match p.rowOf[row.key]? with
  | some found => return found
  | none =>
    modify fun p => { p with
      rows := p.rows.push row
      rowOf := p.rowOf.insert row.key row }
    return row

/-- A constant that a row which this pool can refer to produces. -/
def internDynamic (row : BootstrapRow) (nameAndType : NameAndTypeEntry) : Interning Loadable := do
  let nameAndType ← adoptNameAndType nameAndType
  internLoadable fun p => .dynamic p row nameAndType

mutual

/-- The constant itself if this pool can refer to it, else its copy. -/
def adoptLoadable (e : Loadable) : Interning Loadable := do
  if (← get).owns e.place.origin then return e
  match e with
  | .integer _ n => integer n
  | .float _ bits => float bits
  | .long _ n => long n
  | .double _ bits => double bits
  | .class e => return .class (← class_ e.internalName)
  | .string _ utf8 => string utf8.text
  | .methodType _ descriptor => methodType descriptor.text
  | .handle e => return .handle (← handle e.kind e.target)
  | .dynamic _ row nt =>
    let row ← adoptRow row
    internDynamic row nt

/-- The row itself if this pool can refer to it, else its copy. -/
def adoptRow : BootstrapRow → Interning BootstrapRow
  | .mk place handle arguments => do
    ensureIndexed
    if (← get).owns place.origin then return .mk place handle arguments
    let handle ← adoptHandle handle
    let arguments ← adoptArguments arguments
    internRow handle arguments

/-- The arguments of a row, each adopted in turn. -/
def adoptArguments : List Loadable → Interning (List Loadable)
  | [] => return []
  | a :: rest => do
    let a ← adoptLoadable a
    let rest ← adoptArguments rest
    return a :: rest

end

/-- A bootstrap row. -/
def bootstrap (handle : HandleEntry) (arguments : List Loadable) : Interning BootstrapRow := do
  ensureIndexed
  let handle ← adoptHandle handle
  let arguments ← adoptArguments arguments
  internRow handle arguments

/-- A constant that a row produces. -/
def dynamic (row : BootstrapRow) (nameAndType : NameAndTypeEntry) : Interning Loadable := do
  let row ← adoptRow row
  internDynamic row nameAndType

/-- A call site that a row links. -/
def callSite (row : BootstrapRow) (nameAndType : NameAndTypeEntry) : Interning CallSiteEntry := do
  let bootstrap ← adoptRow row
  let nameAndType ← adoptNameAndType nameAndType
  let place ← intern (.pair .invokeDynamic bootstrap.index nameAndType.place.index) fun place =>
    .callSite { place, bootstrap, nameAndType }
  return { place, bootstrap, nameAndType }

/-- A module. -/
def module (name : Text) : Interning ModuleEntry := do
  let name ← utf8 name
  return ⟨← intern (.single .module name.place.index) fun p => .module ⟨p, name⟩, name⟩

/-- A package. -/
def package (name : Text) : Interning PackageEntry := do
  let name ← utf8 name
  return ⟨← intern (.single .package name.place.index) fun p => .package ⟨p, name⟩, name⟩

/-- The index by which this pool refers to a constant, which is copied in if need be. -/
def indexOf (e : Entry) : Interning Nat := do
  if (← get).owns e.place.origin then return e.index
  match e with
  | .utf8 e => return (← utf8 e.text).place.index
  | .loadable e => return (← adoptLoadable e).place.index
  | .nameAndType e => return (← nameAndType e.name.text e.type.text).place.index
  | .member e => return (← memberOf e.kind e.owner e.nameAndType).place.index
  | .callSite e => return (← callSite e.bootstrap e.nameAndType).place.index
  | .module e => return (← module e.name.text).place.index
  | .package e => return (← package e.name.text).place.index

/-- The constant of an index. -/
def entry (p : PoolBuilder) (i : Int) : Except Error Entry :=
  let missing := Error.misuse (.notAnEntry i p.size)
  let own : Except Error Entry :=
    if i < p.base then .error missing
    else
      match (p.slots[(i - p.base).toNat]?).join with
      | some e => .ok e
      | none => .error missing
  match p.parent with
  | some parent => if i < p.base then parent.pool.entry i else own
  | none => own

/-- The number of bootstrap rows. -/
def rowCount : Interning Nat := do
  ensureIndexed
  return (← get).rows.size

/-- A bootstrap row. -/
def row (i : Int) : Interning (Except Error BootstrapRow) := do
  ensureIndexed
  let rows := (← get).rows
  let missing := Error.misuse (.bootstrapRange i rows.size)
  if i < 0 then return .error missing
  match rows[i.toNat]? with
  | some row => return .ok row
  | none => return .error missing

end PoolBuilder

/-- The operands of a loadable constant as a class file holds them. -/
def Loadable.operands : Loadable → Bytes
  | .integer _ n => u4 n
  | .float _ bits => u4 bits
  | .long _ n => u8 n
  | .double _ bits => u8 bits
  | .class e => u2 e.name.place.index
  | .string _ utf8 => u2 utf8.place.index
  | .methodType _ descriptor => u2 descriptor.place.index
  | .handle e => u1 e.kind.byte.toNat ++ u2 e.target.place.index
  | .dynamic _ row nt => u2 row.index ++ u2 nt.place.index

/-- The operands of a constant as a class file holds them. -/
def Entry.operands : Entry → Bytes
  | .utf8 e =>
    let bytes := ModifiedUtf8.encode e.text
    u2 bytes.length ++ bytes
  | .loadable e => e.operands
  | .nameAndType e => u2 e.name.place.index ++ u2 e.type.place.index
  | .member e => u2 e.owner.place.index ++ u2 e.nameAndType.place.index
  | .callSite e => u2 e.bootstrap.index ++ u2 e.nameAndType.place.index
  | .module e => u2 e.name.place.index
  | .package e => u2 e.name.place.index

/-- A constant as a class file holds it. -/
def Entry.encode (e : Entry) : Bytes := u1 e.tag.byte.toNat ++ e.operands

namespace PoolBuilder

/-- The bytes of the parent's constants. -/
def parentBytes (p : PoolBuilder) : Bytes :=
  match p.parent with
  | some parent => (parent.cursor.slice? 10 (parent.layout.poolEnd - 10 : Nat)).getD []
  | none => []

/-- The pool with its count, as a class file holds it. -/
def encode (p : PoolBuilder) : Bytes :=
  u2 p.size ++ p.parentBytes ++ (p.slots.toList.filterMap id).flatMap Entry.encode

/-- The body of the table of bootstrap methods. -/
def encodeRows (p : PoolBuilder) : Bytes :=
  u2 p.rows.size ++ p.rows.toList.flatMap fun r =>
    u2 r.handle.place.index ++ u2 r.arguments.length
      ++ r.arguments.flatMap fun a => u2 a.place.index

end PoolBuilder

end JvmClass
