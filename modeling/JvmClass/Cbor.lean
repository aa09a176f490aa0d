import JvmClass.Bytes.BigEndian
import JvmClass.Text.Utf8

/-!
# CBOR data items

Summaries travel as CBOR, which a library writes and reads. `Library` is what is asked of
one, and `library` is the one that the program is built with. That one parses a data item
whole before anything is made of it, so bytes that are no single well-formed item are
refused whatever they would have meant. Items are written in the canonical form:
shortest heads and definite lengths.
-/

namespace JvmClass.Cbor

/-- A data item. -/
inductive Item where
  | uint (n : Nat)
  /-- The number `-1 - n`. -/
  | nint (n : Nat)
  | bytes (data : Bytes)
  /-- A text in the pieces in which it was written. -/
  | text (chunks : List Text)
  | array (items : List Item)
  | map (pairs : List (Item × Item))
  | tag (number : Nat) (content : Item)
  | simple (n : Nat)
  | float (width : Nat) (bits : Nat)
deriving Inhabited

/-- What the first bytes of an item say. -/
structure Head where
  major : Nat
  /-- The argument, or `none` for an indefinite length or a break. -/
  argument : Option Nat
  /-- Bytes that the argument takes after the first byte. -/
  width : Nat

/-- The byte that ends an item of indefinite length. -/
def break_ : UInt8 := 0xFF

/-- How many arrays, maps and tags may be nested. -/
def maxDepth : Nat := 32

/-- How many elements an array, or pairs a map, may have. -/
def maxCount : Nat := 131072

/-- The first `n` bytes and the rest, when there are that many. -/
def split? (n : Nat) (s : Bytes) : Option (Bytes × Bytes) :=
  let front := s.take n
  if front.length = n then some (front, s.drop n) else none

/-- The head of an item. -/
def head? : Bytes → Option (Head × Bytes)
  | [] => none
  | b :: rest =>
    let major := b.toNat / 32
    let info := b.toNat % 32
    if info < 24 then some (⟨major, some info, 0⟩, rest)
    else if info ≤ 27 then do
      let width := Nat.pow 2 (info - 24)
      let (front, rest) ← split? width rest
      some (⟨major, some (ofBigEndian front), width⟩, rest)
    else if info = 31 && (2 ≤ major && major ≤ 5) then some (⟨major, none, 0⟩, rest)
    else none

/-- The pieces of a string of indefinite length, onto those read so far. -/
def chunksOnto (major : Nat) (done : List Bytes) : Nat → Bytes → Option (List Bytes × Bytes)
  | 0, _ => none
  | _, [] => none
  | fuel + 1, b :: rest =>
    if b = break_ then some (done.reverse, rest)
    else
      match head? (b :: rest) with
      | some (⟨m, some n, _⟩, rest) =>
        if m = major then
          match split? n rest with
          | some (front, rest) => chunksOnto major (front :: done) fuel rest
          | none => none
        else none
      | _ => none

/-- Neighbours as pairs, unless one is left over. -/
def pairUp : List Item → List (Item × Item) → Option (List (Item × Item))
  | [], done => some done.reverse
  | [_], _ => none
  | k :: v :: rest, done => pairUp rest ((k, v) :: done)

mutual

/-- One item inside `depth` others. Every call uses up fuel; twice the number of bytes is
enough, since each item takes a byte and each list ends once. -/
def item? : (fuel depth : Nat) → Bytes → Option (Item × Bytes)
  | 0, _, _ => none
  | fuel + 1, depth, s =>
    match head? s with
    | none => none
    | some (h, rest) =>
      match h.major, h.argument with
      | 0, some n => some (.uint n, rest)
      | 1, some n => some (.nint n, rest)
      | 2, some n => (split? n rest).map fun (front, rest) => (.bytes front, rest)
      | 2, none => (chunksOnto 2 [] (rest.length + 1) rest).map fun (cs, rest) =>
          (.bytes cs.flatten, rest)
      | 3, some n => (split? n rest).map fun (front, rest) => (.text [front], rest)
      | 3, none => (chunksOnto 3 [] (rest.length + 1) rest).map fun (cs, rest) => (.text cs, rest)
      | 4, some n =>
        if maxDepth ≤ depth || maxCount < n then none
        else (items? fuel (depth + 1) n [] rest).map fun (xs, rest) => (.array xs, rest)
      | 4, none =>
        if maxDepth ≤ depth then none
        else
          match untilBreak? fuel (depth + 1) [] rest with
          | some (xs, rest) => if maxCount < xs.length then none else some (.array xs, rest)
          | none => none
      | 5, some n =>
        if maxDepth ≤ depth || maxCount < n then none
        else
          match items? fuel (depth + 1) (2 * n) [] rest with
          | some (xs, rest) => (pairUp xs []).map fun ps => (.map ps, rest)
          | none => none
      | 5, none =>
        if maxDepth ≤ depth then none
        else
          match untilBreak? fuel (depth + 1) [] rest with
          | some (xs, rest) =>
            if maxCount < xs.length / 2 then none
            else (pairUp xs []).map fun ps => (.map ps, rest)
          | none => none
      | 6, some n =>
        let nested := match rest with
          | b :: _ => b.toNat / 32 = 6
          | [] => false
        if nested && maxDepth ≤ depth then none
        else (item? fuel (if nested then depth + 1 else depth) rest).map fun (x, rest) =>
          (.tag n x, rest)
      | 7, some n =>
        if h.width = 0 then some (.simple n, rest)
        else if h.width = 1 then if n < 32 then none else some (.simple n, rest)
        else some (.float h.width n, rest)
      | _, _ => none

/-- `n` items onto those read so far. -/
def items? : (fuel depth n : Nat) → List Item → Bytes → Option (List Item × Bytes)
  | _, _, 0, done, s => some (done.reverse, s)
  | 0, _, _ + 1, _, _ => none
  | fuel + 1, depth, n + 1, done, s =>
    match item? fuel depth s with
    | some (x, rest) => items? fuel depth n (x :: done) rest
    | none => none

/-- Items up to a break, onto those read so far. -/
def untilBreak? : (fuel depth : Nat) → List Item → Bytes → Option (List Item × Bytes)
  | 0, _, _, _ => none
  | _, _, _, [] => none
  | fuel + 1, depth, done, b :: rest =>
    if b = break_ then some (done.reverse, rest)
    else
      match item? fuel depth (b :: rest) with
      | some (x, rest) => untilBreak? fuel depth (x :: done) rest
      | none => none

end

/-- The item that the bytes are, if they are exactly one. -/
def parse? (s : Bytes) : Option Item :=
  match item? (2 * s.length + 2) 0 s with
  | some (x, []) => some x
  | _ => none

/-- The shortest head. -/
def encodeHead (major n : Nat) : Bytes :=
  let first (info : Nat) : Bytes := bigEndian 1 (major * 32 + info)
  if n < 24 then first n
  else if n < 0x100 then first 24 ++ bigEndian 1 n
  else if n < 0x10000 then first 25 ++ bigEndian 2 n
  else if n < 0x100000000 then first 26 ++ bigEndian 4 n
  else first 27 ++ bigEndian 8 n

mutual

/-- The canonical bytes of an item. -/
def encode : Item → Bytes
  | .uint n => encodeHead 0 n
  | .nint n => encodeHead 1 n
  | .bytes data => encodeHead 2 data.length ++ data
  | .text chunks => encodeHead 3 chunks.flatten.length ++ chunks.flatten
  | .array items => encodeHead 4 items.length ++ encodeAll items
  | .map pairs => encodeHead 5 pairs.length ++ encodePairs pairs
  | .tag number content => encodeHead 6 number ++ encode content
  | .simple n => encodeHead 7 n
  | .float width bits => bigEndian 1 (7 * 32 + 24 + width.log2) ++ bigEndian width bits

def encodeAll : List Item → Bytes
  | [] => []
  | x :: rest => encode x ++ encodeAll rest

def encodePairs : List (Item × Item) → Bytes
  | [] => []
  | (k, v) :: rest => encode k ++ encode v ++ encodePairs rest

end

namespace Item

/-- A number as an item. -/
def ofInt (n : Int) : Item := if 0 ≤ n then .uint n.toNat else .nint (-1 - n).toNat

/-- A text as an item. -/
def ofText (t : Text) : Item := .text [t]

/-- Whether the content of a tag is of the type that the tag asks for: a text for a date,
a number for a time, bytes for a large number. -/
def suits (tag : Nat) : Item → Bool
  | .uint _ | .nint _ | .float .. => tag ≠ 0 && tag ≠ 2 && tag ≠ 3
  | .text _ => tag ≠ 1 && tag ≠ 2 && tag ≠ 3
  | .bytes _ => tag ≠ 0 && tag ≠ 1
  | _ => 3 < tag

/-- The item without its tags; a large number becomes a number. -/
def untagged? : Item → Option Item
  | .tag n content =>
    if !content.suits n then none
    else
      match n, content with
      | 2, .bytes b => some (.uint (ofBigEndian b))
      | 3, .bytes b => some (.nint (ofBigEndian b))
      | _, content => content.untagged?
  | x => some x

/-- Whether the item stands for no value. -/
def isNull : Item → Bool
  | .simple n => n = 22 || n = 23
  | _ => false

/-- A number that fits sixty-four bits; no value counts as zero. -/
def int? (x : Item) : Option Int := do
  match ← x.untagged? with
  | .uint n => if n < 0x8000000000000000 then some n else none
  | .nint n => if n < 0x8000000000000000 then some (-1 - n) else none
  | .simple n => if n = 22 || n = 23 then some 0 else if n = 20 || n = 21 then none else some n
  | _ => none

/-- A number that is not negative and fits sixteen bits. -/
def u16? (x : Item) : Option Nat := do
  let n ← x.int?
  if 0 ≤ n && n < 0x10000 then some n.toNat else none

/-- A text, each piece of which is valid UTF-8; no value counts as the empty text. -/
def text? (x : Item) : Option Text := do
  match ← x.untagged? with
  | .text chunks => if chunks.all Text.isUtf8 then some chunks.flatten else none
  | x => if x.isNull then some [] else none

/-- The elements of an array; no value counts as the empty array. -/
def elements? (x : Item) : Option (List Item) := do
  match ← x.untagged? with
  | .array items => some items
  | x => if x.isNull then some [] else none

/-- The number that a key of a record is, given as a number of sixty-four bits or in
decimal. Other keys make the record unreadable, and so do numbers below what sixty-four
bits with a sign hold; one above it stands for no field. -/
def key? : Item → Option (Option Int)
  | .uint n => some (some (signed 64 n))
  | .nint n => if n < 0x8000000000000000 then some (some (-1 - n)) else none
  | .text chunks =>
    if chunks.all Text.isUtf8 then
      some (((List.range 16).find? fun n => Text.ofNat n = chunks.flatten).map Int.ofNat)
    else none
  | _ => none

/-- The fields of a record by number; no value counts as the empty record. -/
def fields? (x : Item) : Option (List (Option Int × Item)) := do
  match ← x.untagged? with
  | .map pairs => pairs.mapM fun (k, v) => do return (← k.key?, v)
  | x => if x.isNull then some [] else none

/-- Reads the first field with a number, or takes the default when there is none. -/
def field? {α : Type} (fields : List (Option Int × Item)) (n : Int) (read : Item → Option α)
    (default : α) : Option α :=
  match fields.find? fun (k, _) => k = some n with
  | some (_, v) => read v
  | none => some default

end Item

/-- What is asked of a library: to write items and to find out which item bytes are, and to
make numbers, texts, lists and the fields of a record of an item. -/
structure Library where
  encode : Item → Bytes
  parse? : Bytes → Option Item
  int? : Item → Option Int
  /-- A number of sixteen bits. -/
  u16? : Item → Option Nat
  text? : Item → Option Text
  elements? : Item → Option (List Item)
  /-- The fields of a record by number; other keys stand for no field. -/
  fields? : Item → Option (List (Option Int × Item))

/-- The library that the program is built with. -/
def library : Library where
  encode := encode
  parse? := parse?
  int? := Item.int?
  u16? := Item.u16?
  text? := Item.text?
  elements? := Item.elements?
  fields? := Item.fields?

end JvmClass.Cbor
