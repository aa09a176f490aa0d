import JvmClass.AccessFlags
import JvmClass.Bytes.Scan
import JvmClass.Options

/-!
# Where the parts of a class file lie

A class file is first scanned for its layout: where each constant starts, where
the members and their attribute tables lie and where the class attributes start.
Nothing inside a constant or an attribute is looked at beyond its length, so a
class file whose layout is sound can still hold parts that cannot be decoded.
-/

namespace JvmClass

/-- The first four bytes of every class file. -/
def magic : Nat := 0xCAFEBABE

/-- Where a field or method lies, from its flags to the end of its attributes. -/
structure MemberSpan where
  start : Nat
  attributes : Nat
  stop : Nat
deriving DecidableEq, Repr, Inhabited

/-- The layout of a class file. -/
structure Layout where
  cursor : Cursor
  options : Options
  /-- For each index of the pool the offset of its constant; index zero and the
  second index of an eight-byte number have none. -/
  offsets : Array (Option Nat)
  poolEnd : Nat
  minor : Nat
  major : Nat
  flags : AccessFlags
  thisIndex : Nat
  superIndex : Nat
  interfaces : List Nat
  fields : List MemberSpan
  methods : List MemberSpan
  /-- Offset of the class attribute table. -/
  attributes : Nat
deriving Inhabited

namespace Layout

/-- A read that an earlier check has covered; it fails only if that check is missing. -/
def covered {α : Type} : Option α → Except Error α
  | some a => .ok a
  | none => .error .outOfBounds

/-- The encoded size of the constant at `p` when it does not depend on its contents. -/
def constantSize : Tag → Nat
  | .integer | .float => 5
  | .long | .double => 9
  | .class | .string | .methodType | .module | .package => 3
  | .methodHandle => 4
  | .fieldRef | .methodRef | .interfaceMethodRef | .nameAndType | .dynamic | .invokeDynamic => 5
  | .utf8 => 3

/-- The size of the constant with tag `t` at `p`. `last` is the last index that the
constant takes, by which a truncated pool is reported. -/
def sizeAt (c : Cursor) (t : Tag) (p last : Nat) : Except Error Nat := do
  let size := constantSize t
  if !c.has p size then throw (.flaw p (.poolTruncated last))
  if t = .utf8 then
    let size := size + (← covered (c.u2? (p + 1)))
    if !c.has p size then throw (.flaw p (.poolTruncated last))
    return size
  return size

/-- Scans the constants from index `i` at offset `p` on, `left` indices in all, onto
the offsets found so far. The outcome has the offset after the last constant. -/
def scanConstants (c : Cursor) : (left i p : Nat) → Array (Option Nat) →
    Except Error (Array (Option Nat) × Nat)
  | 0, _, p, found => .ok (found, p)
  | left + 1, i, p, found =>
    match c.u1? p with
    | none => .error (.flaw p (.poolTruncated i))
    | some b =>
      match Tag.ofByte? b.toUInt8 with
      | none => .error (.flaw p (.unknownTag b i))
      | some t =>
        if t.slots = 2 then
          match left with
          | 0 => .error (.flaw p (.noSecondSlot t i))
          | left + 1 =>
            match sizeAt c t p (i + 1) with
            | .error e => .error e
            | .ok size => scanConstants c left (i + 2) (p + size) ((found.push (some p)).push none)
        else
          match sizeAt c t p i with
          | .error e => .error e
          | .ok size => scanConstants c left (i + 1) (p + size) (found.push (some p))

/-- Moves past one attribute by its declared length. -/
def skipAttribute : Scan Unit := do
  Scan.skip 2
  let length ← Scan.u4
  let left ← Scan.remaining
  if left < length then Scan.fail (.shortage (.attribute length left))
  Scan.skip length

/-- Moves past an attribute table. -/
def skipAttributes : Scan Unit := do
  let n ← Scan.u2
  let _ ← Scan.times n skipAttribute

/-- Moves past a field or method and tells where it lies. -/
def scanMember : Scan MemberSpan := do
  let start ← Scan.pos
  Scan.skip 6
  let attributes ← Scan.pos
  skipAttributes
  let stop ← Scan.pos
  return ⟨start.toNat, attributes.toNat, stop.toNat⟩

/-- Everything after the constant pool. -/
def scanStructure (start : Layout) : Scan Layout := do
  let flags ← Scan.u2
  let thisIndex ← Scan.u2
  let superIndex ← Scan.u2
  let interfaces ← Scan.counted Scan.u2
  let fields ← Scan.counted scanMember
  let methods ← Scan.counted scanMember
  let attributes ← Scan.pos
  skipAttributes
  return { start with
    flags := .ofInt flags, thisIndex, superIndex, interfaces, fields, methods
    attributes := attributes.toNat }

/-- Scans a class file. -/
def scan (bytes : Array UInt8) (options : Options) : Except Error Layout := do
  let c : Cursor := ⟨bytes⟩
  if !c.has 0 10 then throw (.flaw 0 (.tooShort c.size))
  let word ← covered (c.u4? 0)
  if word ≠ magic then throw (.flaw 0 (.badMagic word))
  let count ← covered (c.u2? 8)
  if count = 0 then throw (.flaw 8 .emptyPool)
  let (offsets, poolEnd) ← scanConstants c (count - 1) 1 10 #[none]
  let start : Layout :=
    { (default : Layout) with
      cursor := c, options, offsets, poolEnd
      minor := ← covered (c.u2? 4)
      major := ← covered (c.u2? 6) }
  match Scan.onWindow c poolEnd c.size (scanStructure start) with
  | .error s => throw (.malformed s.pos .truncatedStructure (some s.error))
  | .ok (layout, d) =>
    if d.remaining ≠ 0 then throw (.flaw d.pos (.trailing d.remaining))
    return layout

/-- The number of indices of the pool: one more than the highest. -/
def size (l : Layout) : Nat := l.offsets.size

end Layout

end JvmClass
