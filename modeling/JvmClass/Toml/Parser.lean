import JvmClass.Toml.Document
import JvmClass.Toml.Quoted

/-!
# Reading TOML

A document is a sequence of lines, each a header, an assignment, or nothing but a comment.
Values that are arrays or tables may run over several lines. A text that is no document
has no reading at all; nothing says why.
-/

namespace JvmClass

namespace Toml

/-! ## Characters -/

/-- Whether a character may stand in a document. Of the control characters only tabs and
newlines may, and a carriage return only before a newline. -/
def allowed : List Text.Piece → Bool
  | [] => true
  | .stray _ :: _ => false
  | .scalar 13 :: rest =>
    (match rest with
      | .scalar 10 :: _ => true
      | _ => false) && allowed rest
  | .scalar c :: rest => (c = 9 || c = 10 || (32 ≤ c && c ≠ 127)) && allowed rest

/-- The text without a byte order mark. -/
def dropMark : Text → Text
  | 0xFF :: 0xFE :: rest => rest
  | 0xFE :: 0xFF :: rest => rest
  | 0xEF :: 0xBB :: 0xBF :: rest => rest
  | s => s

/-- The text after blanks. -/
def skipBlanks (s : Text) : Text := s.dropWhile isBlank

/-- The text after blanks, newlines and comments. The fuel is the length of the text. -/
def skipSpace (fuel : Nat) (s : Text) : Text :=
  match fuel with
  | 0 => s
  | fuel + 1 =>
    match s with
    | c :: rest =>
      if isBlank c || isNewline c then skipSpace fuel rest
      else if c = 35 then skipSpace fuel (rest.dropWhile fun c => !isNewline c)
      else s
    | [] => []

/-- The text after all that may stand between values. -/
def nextVisible (s : Text) : Text := skipSpace s.length s

/-- The text after the end of a line, which may hold a comment. -/
def endLine? (s : Text) : Option Text :=
  match skipBlanks s with
  | [] => some []
  | c :: rest =>
    if c = 35 then some (rest.dropWhile fun c => !isNewline c)
    else if isNewline c then some rest
    else none

/-! ## Keys -/

def isBare (c : UInt8) : Bool :=
  isDigit c || (65 ≤ c && c ≤ 90) || (97 ≤ c && c ≤ 122) || c == 95 || c == 45

/-- One part of a key, and the rest. -/
def keyPart? (s : Text) : Option (Text × Text) :=
  match s with
  | [] => none
  | c :: rest =>
    if c = 34 || c = 39 then lineText? c rest
    else
      let bare := s.takeWhile isBare
      if bare.isEmpty then none else some (bare, s.drop bare.length)

/-- A key up to the character that ends it: its parts, and the rest after the end. The
fuel is the length of the text. -/
def keyWith? (ending : UInt8) (fuel : Nat) (s : Text) : Option (KeyPath × Text) :=
  match fuel with
  | 0 => none
  | fuel + 1 => do
    let (part, rest) ← keyPart? (skipBlanks s)
    match skipBlanks rest with
    | [] => none
    | c :: rest =>
      if c = ending then some ([part], rest)
      else if c = 46 then
        let (parts, rest) ← keyWith? ending fuel rest
        some (part :: parts, rest)
      else none

/-- A key up to the character that ends it. -/
def key? (ending : UInt8) (s : Text) : Option (KeyPath × Text) := keyWith? ending (s.length + 1) s

/-! ## Values -/

/-- A number in another base after its first two characters, and the rest. -/
def basedInteger? (start : Text) (base : Nat) (s : Text) : Option (Value × Text) := do
  let isOf (c : UInt8) : Bool := (digitValue? c).any (· < base)
  if !(s.head?.any isOf) then none
  let body := s.takeWhile fun c => isOf c || c == 95
  some (.integer (← integer? (start ++ body)), s.drop body.length)

/-- A decimal number after its sign, and the rest. -/
def decimal? (sign s : Text) : Option (Value × Text) := do
  let whole := s.takeWhile fun c => isDigit c || c == 95
  let rest := s.drop whole.length
  if rest.head?.any fun c => c == 46 || c == 101 || c == 69 then
    let tail := rest.takeWhile fun c =>
      isDigit c || c == 95 || c == 46 || c == 45 || c == 43 || c == 101 || c == 69
    let spelled := sign ++ whole ++ tail
    if isFloat spelled then some (.float spelled, rest.drop tail.length) else none
  else some (.integer (← integer? (sign ++ whole)), rest)

/-- A date or time, and the rest. -/
def moment? (s : Text) : Option (Value × Text) :=
  let isPart (c : UInt8) : Bool :=
    isDigit c || [45, 58, 84, 116, 32, 46, 90, 122, 43].contains c
  let body := s.takeWhile isPart
  let spelled := (body.reverse.dropWhile (· == 32)).reverse
  if isMoment spelled then some (.moment spelled, s.drop body.length) else none

/-- A value that starts with a digit, and the rest. -/
def numeral? (s : Text) : Option (Value × Text) :=
  match s with
  | 48 :: 98 :: rest => basedInteger? [48, 98] 2 rest
  | 48 :: 111 :: rest => basedInteger? [48, 111] 8 rest
  | 48 :: 120 :: rest => basedInteger? [48, 120] 16 rest
  | s =>
    if (s.dropWhile isDigit).head?.any fun c => c == 45 || c == 58 then moment? s
    else decimal? [] s

/-- A number that is not one, or without end, and the rest. -/
def unbounded? (sign s : Text) : Option (Value × Text) :=
  let spelled := s.take 3
  if spelled == ("inf" : Text) || spelled == ("nan" : Text) then
    some (.float (sign ++ spelled), s.drop 3)
  else none

/-- A number after its sign, and the rest. -/
def signed? (sign : UInt8) (s : Text) : Option (Value × Text) :=
  match s with
  | 48 :: 98 :: _ | 48 :: 111 :: _ | 48 :: 120 :: _ => none
  | c :: _ => if isDigit c then decimal? [sign] s else unbounded? [sign] s
  | [] => none

/-- A value that is neither an array nor a table, and the rest. -/
def scalar? (s : Text) : Option (Value × Text) :=
  match s with
  | [] => none
  | c :: rest =>
    if c = 34 || c = 39 then (quoted? c rest).map fun (t, rest) => (.text t, rest)
    else if isDigit c then numeral? s
    else if c = 43 || c = 45 then signed? c rest
    else if s.startsWith "true" then some (.boolean true, s.drop 4)
    else if s.startsWith "false" then some (.boolean false, s.drop 5)
    else unbounded? [] s

def Value.isArray : Value → Bool
  | .array _ => true
  | _ => false

/-- A table with a value at a place, where tables on the way are made. -/
def insert? (path : KeyPath) (v : Value) (t : Table) : Option Table :=
  match path with
  | [] => none
  | [key] => some (t.put key v)
  | key :: path =>
    match t.lookup key with
    | none => do return t.put key (.table (← insert? path v []))
    | some (.table inner) => do return t.put key (.table (← insert? path v inner))
    | some _ => none

mutual

/-- The value that is given to a key, and the rest. Tables inside an array add rows to
what the key holds. -/
def value (fuel : Nat) (key : Text) (inArray : Bool) (s : Text) : Drafts (Value × Text) := do
  match fuel with
  | 0 => failure
  | fuel + 1 =>
    match skipBlanks s with
    | [] => failure
    | c :: rest =>
      if c = 91 then
        Document.note key true
        let (items, rest) ← arrayItems fuel key rest
        return (.array items, rest)
      else if c = 123 then
        let path := (← get).context ++ [key]
        let (entries, rest) ← Document.within do
          Document.imply path
          if inArray then Document.enterRow path else Document.enterTable path
          inlineEntries fuel [] rest
        return (.table entries, rest)
      else (scalar? (c :: rest) : Option (Value × Text))

/-- The items of an array up to its end, and the rest. -/
def arrayItems (fuel : Nat) (key : Text) (s : Text) : Drafts (List Value × Text) := do
  match fuel with
  | 0 => failure
  | fuel + 1 =>
    match nextVisible s with
    | [] => failure
    | c :: rest =>
      if c = 93 then return ([], rest)
      let (v, rest) ← value fuel key true (c :: rest)
      match nextVisible rest with
      | 93 :: rest => return ([v], rest)
      | 44 :: rest =>
        let (vs, rest) ← arrayItems fuel key rest
        return (v :: vs, rest)
      | _ => failure

/-- The entries of a table in braces up to its end, added to those before, and the rest. -/
def inlineEntries (fuel : Nat) (entries : Table) (s : Text) : Drafts (Table × Text) := do
  match fuel with
  | 0 => failure
  | fuel + 1 =>
    match nextVisible s with
    | [] => failure
    | c :: rest =>
      if c = 125 then return (entries, rest)
      let (path, v, rest) ← assignment fuel (c :: rest)
      let entries ← (insert? path v entries : Option Table)
      match nextVisible rest with
      | 125 :: rest => return (entries, rest)
      | 44 :: rest => inlineEntries fuel entries rest
      | _ => failure

/-- A key with its value, which is put into the present table, and the rest. -/
def assignment (fuel : Nat) (s : Text) : Drafts (KeyPath × Value × Text) := do
  match fuel with
  | 0 => failure
  | fuel + 1 =>
    let (path, rest) ← (key? 61 s : Option (KeyPath × Text))
    let key := path.getLastD []
    let (v, rest) ← Document.within do
      Document.enterDotted path.dropLast
      let (v, rest) ← value fuel key false rest
      Document.assign key v
      Document.note key v.isArray
      return (v, rest)
    return (path, v, rest)

end

/-! ## Documents -/

/-- The header of tables or of one table, after its bracket, and the rest. -/
def header (s : Text) : Drafts Text := do
  match s with
  | 91 :: s =>
    let (path, rest) ← (key? 93 s : Option (KeyPath × Text))
    let some rest := after? 93 rest | failure
    Document.enterRow path
    Document.note [] false
    return rest
  | s =>
    let (path, rest) ← (key? 93 s : Option (KeyPath × Text))
    Document.enterTable path
    Document.note [] false
    return rest

/-- Reads lines to the end. -/
def lines (fuel : Nat) (s : Text) : Drafts Unit := do
  match fuel with
  | 0 => failure
  | fuel + 1 =>
    match nextVisible s with
    | [] => return
    | c :: rest =>
      let rest ← if c = 91 then header rest else do
        let (_, _, rest) ← assignment fuel (c :: rest)
        pure rest
      lines fuel (← (endLine? rest : Option Text))

/-- The table that a document is. -/
def parse? (s : Text) : Option Table :=
  let s := dropMark s
  if allowed s.pieces then
    ((lines (2 * s.length + 2) s).run .empty).map fun (_, d) => d.root
  else none

end Toml

end JvmClass
