import JvmClass.Cbor
import JvmClass.ClassFile

/-!
# Summaries

A summary is the outline of a class file: its shape without its code. It is written
as a CBOR record with numbered fields, in which empty fields are left out, and read
back from one.
-/

namespace JvmClass

/-- The outline of a field or method; the last three are zero without a body. -/
structure MemberSummary where
  name : Text := []
  descriptor : Text := []
  flags : Nat := 0
  attributes : List Text := []
  codeLength : Int := 0
  maxStack : Int := 0
  maxLocals : Int := 0
deriving DecidableEq, Repr, Inhabited

/-- The outline of a class file. -/
structure Summary where
  name : Text := []
  super : Text := []
  interfaces : List Text := []
  major : Int := 0
  minor : Int := 0
  flags : Nat := 0
  fields : List MemberSummary := []
  methods : List MemberSummary := []
  attributes : List Text := []
  poolSize : Int := 0
  /-- Every class that the pool names, in bytewise order. -/
  references : List Text := []
deriving DecidableEq, Repr, Inhabited

namespace Summary

/-- The outline of a field. -/
def ofField (f : InputMember) : Except Error MemberSummary := do
  let attributes ← f.fieldAttributes
  return {
    name := f.name.text
    descriptor := f.descriptor.text
    flags := f.flags.bits.toNat
    attributes := attributes.map (·.name) }

/-- The outline of a method. -/
def ofMethod (m : InputMember) : Except Error MemberSummary := do
  let attributes ← m.methodAttributes
  let code := InputMember.firstCode? attributes
  return {
    name := m.name.text
    descriptor := m.descriptor.text
    flags := m.flags.bits.toNat
    attributes := attributes.map (·.name)
    codeLength := (code.map (·.codeLength)).getD 0
    maxStack := (code.map (·.maxStack)).getD 0
    maxLocals := (code.map (·.maxLocals)).getD 0 }

/-- Drops each text that equals the one before it. -/
def distinct : List Text → List Text
  | [] => []
  | t :: rest => t :: distinctAfter t rest
where
  distinctAfter (last : Text) : List Text → List Text
    | [] => []
    | t :: rest => if t = last then distinctAfter last rest else t :: distinctAfter t rest

/-- Every class that a pool names, once each and in bytewise order. -/
def referencesOf (p : Pool) : List Text :=
  distinct (Text.sort (p.entries.toList.filterMap fun e =>
    match e with
    | .ok e => e.class?.map (·.internalName)
    | .error _ => none))

/-- The outline of a class file. -/
def ofClassFile (c : ClassFile) : Except Error Summary := do
  let attributes ← c.attributes
  let fields ← c.fields.mapM ofField
  let methods ← c.methods.mapM ofMethod
  return {
    name := c.this.internalName
    super := (c.super.map (·.internalName)).getD []
    interfaces := c.interfaces.map (·.internalName)
    major := c.major
    minor := c.minor
    flags := c.flags.bits.toNat
    fields
    methods
    attributes := attributes.map (·.name)
    poolSize := c.pool.size
    references := referencesOf c.pool }

open Cbor (Item)

/-- A numbered field. -/
def always (n : Nat) (x : Item) : List (Item × Item) := [(.uint n, x)]

/-- A numbered list, left out when it is empty. -/
def unlessEmpty {α : Type} (n : Nat) (item : α → Item) (xs : List α) : List (Item × Item) :=
  if xs.isEmpty then [] else always n (.array (xs.map item))

/-- A numbered number, left out when it is zero. -/
def unlessZero (n : Nat) (v : Int) : List (Item × Item) :=
  if v = 0 then [] else always n (.ofInt v)

/-- The record of a member. -/
def memberItem (m : MemberSummary) : Item :=
  .map (always 1 (.ofText m.name) ++ always 2 (.ofText m.descriptor) ++ always 3 (.uint m.flags)
    ++ unlessEmpty 4 Item.ofText m.attributes ++ unlessZero 5 m.codeLength
    ++ unlessZero 6 m.maxStack ++ unlessZero 7 m.maxLocals)

/-- The record of a summary. -/
def item (s : Summary) : Item :=
  .map (always 1 (.ofText s.name)
    ++ (if s.super.isEmpty then [] else always 2 (.ofText s.super))
    ++ unlessEmpty 3 Item.ofText s.interfaces ++ always 4 (.ofInt s.major)
    ++ unlessZero 5 s.minor ++ always 6 (.uint s.flags)
    ++ unlessEmpty 7 memberItem s.fields ++ unlessEmpty 8 memberItem s.methods
    ++ unlessEmpty 9 Item.ofText s.attributes ++ always 10 (.ofInt s.poolSize)
    ++ unlessEmpty 11 Item.ofText s.references)

section Library

variable (library : Cbor.Library)

/-- A list of texts. -/
def texts? (x : Item) : Option (List Text) := do (← library.elements? x).mapM library.text?

/-- The member that a record describes. -/
def member? (x : Item) : Option MemberSummary := do
  let fields ← library.fields? x
  return {
    name := ← Item.field? fields 1 library.text? []
    descriptor := ← Item.field? fields 2 library.text? []
    flags := ← Item.field? fields 3 library.u16? 0
    attributes := ← Item.field? fields 4 (texts? library) []
    codeLength := ← Item.field? fields 5 library.int? 0
    maxStack := ← Item.field? fields 6 library.int? 0
    maxLocals := ← Item.field? fields 7 library.int? 0 }

/-- A list of members. -/
def members? (x : Item) : Option (List MemberSummary) := do
  (← library.elements? x).mapM (member? library)

/-- The summary that a record describes. -/
def ofItem? (x : Item) : Option Summary := do
  let fields ← library.fields? x
  return {
    name := ← Item.field? fields 1 library.text? []
    super := ← Item.field? fields 2 library.text? []
    interfaces := ← Item.field? fields 3 (texts? library) []
    major := ← Item.field? fields 4 library.int? 0
    minor := ← Item.field? fields 5 library.int? 0
    flags := ← Item.field? fields 6 library.u16? 0
    fields := ← Item.field? fields 7 (members? library) []
    methods := ← Item.field? fields 8 (members? library) []
    attributes := ← Item.field? fields 9 (texts? library) []
    poolSize := ← Item.field? fields 10 library.int? 0
    references := ← Item.field? fields 11 (texts? library) [] }

/-- The bytes that a library writes for a summary. -/
def encodeWith (s : Summary) : Bytes := library.encode s.item

/-- The summary that a library reads from bytes. -/
def decodeWith? (bytes : Bytes) : Option Summary := do ofItem? library (← library.parse? bytes)

end Library

/-- The bytes of a summary. -/
def encode (s : Summary) : Bytes := encodeWith Cbor.library s

/-- The summary that bytes hold. -/
def decode? (bytes : Bytes) : Option Summary := decodeWith? Cbor.library bytes

end Summary

end JvmClass
