import JvmClass.AccessFlags
import JvmClass.Bytes.BigEndian
import JvmClass.Descriptor.Kind
import JvmClass.Error
import JvmClass.Options

/-!
# Plain data

A tree of lists and records over numbers and texts. Outlines of a class are written
as data, and scripts that build or change one are read from it, so that neither
depends on how a tree is spelled.

Something that is missing reads as nothing: an absent field is `null`, and `null` is
the empty list, the empty text, zero and false.
-/

namespace JvmClass

/-- A tree of plain data. -/
inductive Data where
  | null
  | bool (b : Bool)
  | number (n : Int)
  | text (t : Text)
  | list (items : List Data)
  | record (fields : List (Text × Data))
deriving Inhabited

namespace Data

/-! ## Making data -/

/-- A word of the vocabulary that data is written in. -/
def word (s : String) : Data := .text s

def ofNat (n : Nat) : Data := .number n

/-- A number as decimal text, for those that are wider than a number may be. -/
def ofDecimal (n : Int) : Data := .text (Text.ofInt n)

/-- A number as a fixed count of hexadecimal digits. -/
def ofHexNat (width n : Nat) : Data := .text (Text.hex width n)

/-- Bytes as hexadecimal text. -/
def ofBytes (b : Bytes) : Data := .text (b.flatMap fun x => Text.hex 2 x.toNat)

/-- A list that starts with a word. -/
def row (name : String) (rest : List Data) : Data := .list (word name :: rest)

/-- A record by the names of its fields. -/
def fields (fs : List (String × Data)) : Data := .record (fs.map fun (k, v) => (k, v))

/-- A list of data made from items. -/
def listOf {α : Type} (f : α → Data) (xs : List α) : Data := .list (xs.map f)

/-- What is missing is `null`. -/
def orNull {α : Type} (f : α → Data) (o : Option α) : Data := (o.map f).getD .null

def ofTexts (ts : List Text) : Data := listOf .text ts

/-! ## How deep data is -/

mutual

/-- How deep lists and records are nested. -/
def depth : Data → Nat
  | .list items => depthItems items + 1
  | .record fields => depthFields fields + 1
  | _ => 0

/-- The greatest depth among items. -/
def depthItems : List Data → Nat
  | [] => 0
  | d :: rest => max d.depth (depthItems rest)

/-- The greatest depth among fields. -/
def depthFields : List (Text × Data) → Nat
  | [] => 0
  | (_, d) :: rest => max d.depth (depthFields rest)

end

/-! ## Reading data -/

/-- Data that is not what was asked for. -/
def unexpected {α : Type} (wanted : String) : Except Error α :=
  .error (.raised (wanted ++ " expected" : String))

def isNull : Data → Bool
  | .null => true
  | _ => false

/-- The field of a record. -/
def field (d : Data) (name : Text) : Data :=
  match d with
  | .record fs => (fs.lookup name).getD .null
  | _ => .null

/-- The items of a list. -/
def items : Data → Except Error (List Data)
  | .null => .ok []
  | .list ds => .ok ds
  | _ => unexpected "list"

/-- An item of a list. -/
def item (d : Data) (i : Nat) : Data :=
  match d with
  | .list ds => ds[i]?.getD .null
  | _ => .null

def int : Data → Except Error Int
  | .null => .ok 0
  | .number n => .ok n
  | _ => unexpected "number"

def nat (d : Data) : Except Error Nat := return (← d.int).toNat

def truth : Data → Except Error Bool
  | .null => .ok false
  | .bool b => .ok b
  | _ => unexpected "truth value"

/-- The value of a hexadecimal digit. -/
def hexValue? (c : UInt8) : Option Nat :=
  if 48 ≤ c && c ≤ 57 then some (c.toNat - 48)
  else if 97 ≤ c && c ≤ 102 then some (c.toNat - 87)
  else if 65 ≤ c && c ≤ 70 then some (c.toNat - 55)
  else none

/-- The bytes that pairs of hexadecimal digits stand for, after those in `out`. -/
def hexBytes (out : Array UInt8) : Text → Except Error (Array UInt8)
  | [] => .ok out
  | a :: b :: rest =>
    match hexValue? a, hexValue? b with
    | some x, some y => hexBytes (out.push (x * 16 + y).toUInt8) rest
    | _, _ => unexpected "hexadecimal digits"
  | _ => unexpected "hexadecimal digits"

/-- Text as it stands, without the forms that `string` knows. -/
def plain : Data → Except Error Text
  | .null => .ok []
  | .text t => .ok t
  | _ => unexpected "text"

/-- Bytes given in hexadecimal. -/
def bytes (d : Data) : Except Error (Array UInt8) := do hexBytes #[] (← d.plain)

/-- A number given in hexadecimal. -/
def hexNat (d : Data) : Except Error Nat := do
  (← d.plain).foldlM (fun n c =>
    match hexValue? c with
    | some x => .ok (n * 16 + x)
    | none => unexpected "hexadecimal digits") 0

/-- Text, in one of three forms: as it stands, as bytes in hexadecimal, or as a text
to repeat. The fuel bounds how deep repetitions nest. -/
def stringWith (fuel : Nat) (d : Data) : Except Error Text :=
  match fuel, d with
  | fuel + 1, .record _ => do
    let hex := d.field "hex"
    if !hex.isNull then return (← hex.bytes).toList
    let rep := d.field "rep"
    return Text.times (← (rep.item 1).nat) (← stringWith fuel (rep.item 0))
  | _, d => d.plain

/-- Text in any form. -/
def string (d : Data) : Except Error Text := stringWith d.depth d

def strings (d : Data) : Except Error (List Text) := do (← d.items).mapM string

/-- A word of the vocabulary, one character for each byte. -/
def name (d : Data) : Except Error String := do
  return String.ofList ((← d.plain).map fun b => Char.ofNat b.toNat)

/-- A number given as decimal text. -/
def decimal (d : Data) : Except Error Int := do
  match (← d.name).toInt? with
  | some n => .ok n
  | none => unexpected "decimal text"

/-- A kind, by name or number. -/
def kind (d : Data) : Except Error Kind :=
  match d with
  | .text _ => do
    let name ← d.name
    match Kind.ofName? name with
    | some k => .ok k
    | none => if name = "invalid" then .ok (.unknown 0) else unexpected "kind"
  | _ => do return Kind.ofNumber (unsigned 8 (← d.int))

def kinds (d : Data) : Except Error (List Kind) := do (← d.items).mapM kind

/-- An opcode, by mnemonic or number. -/
def opcode (d : Data) : Except Error Opcode :=
  match d with
  | .text _ => do
    match Opcode.ofName? (← d.name) with
    | some op => .ok op
    | none => unexpected "mnemonic"
  | _ => do return ⟨(unsigned 8 (← d.int)).toUInt8⟩

def flags (d : Data) : Except Error AccessFlags := return .ofInt (← d.int)

/-- The options by name. -/
def optionNames : List (String × Options) :=
  [("DropDebugInfo", .dropDebugInfo), ("DropLineNumbers", .dropLineNumbers),
    ("DropUnknownAttributes", .dropUnknownAttributes), ("DropStackMaps", .dropStackMaps),
    ("NoPoolSharing", .noPoolSharing), ("KeepMaxStack", .keepMaxStack)]

/-- A set of options, as a list of names. -/
def options (d : Data) : Except Error Options := do
  (← d.items).foldlM (fun o d => do
    match optionNames.lookup (← d.name) with
    | some x => .ok (o.union x)
    | none => unexpected "option") Options.none

end Data

end JvmClass
