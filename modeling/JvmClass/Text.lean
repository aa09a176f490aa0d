/-!
# Byte text

Names, descriptors and messages are sequences of bytes: usually UTF-8, but a
class file may hold any bytes at all, so no `String` can carry them. This module
gives the type and the few list operations that the rest of the library reads
text with.
-/

namespace JvmClass

/-- A finite sequence of bytes. -/
abbrev Bytes := List UInt8

/-- Text as a sequence of bytes, valid UTF-8 or not. -/
abbrev Text := List UInt8

namespace Text

/-- The UTF-8 bytes of a string. -/
def ofString (s : String) : Text :=
  s.toList.flatMap String.utf8EncodeChar

instance : Coe String Text := ⟨ofString⟩

/-- The code of an ASCII character as a byte. -/
def byte (c : Char) : UInt8 := c.val.toUInt8

/-- Decimal digits of a natural number. -/
def ofNat (n : Nat) : Text := ofString (toString n)

/-- Decimal digits of an integer, with a minus sign when it is negative. -/
def ofInt (n : Int) : Text := ofString (toString n)

/-- The digit of a number below sixteen, in lower case. -/
def hexDigit (n : Nat) : UInt8 :=
  if n < 10 then (48 + n).toUInt8 else (87 + n).toUInt8

/-- The last `width` hexadecimal digits of `n`, in lower case. -/
def hex (width n : Nat) : Text :=
  match width with
  | 0 => []
  | w + 1 => hex w (n / 16) ++ [hexDigit (n % 16)]

/-- The last `width` hexadecimal digits of `n`, in upper case. -/
def hexUpper (width n : Nat) : Text :=
  (hex width n).map fun b => if 97 ≤ b then b - 32 else b

/-- The rest of `s` after `front`, when `s` starts with it. -/
def dropFront? : (front s : Text) → Option Text
  | [], s => some s
  | _ :: _, [] => none
  | f :: front, c :: s => if f = c then dropFront? front s else none

/-- Whether `s` starts with `front`. -/
def startsWith (s front : Text) : Bool := front.isPrefixOf s

/-- Whether `s` ends with `back`. -/
def endsWith (s back : Text) : Bool := back.isSuffixOf s

/-- Whether `part` occurs somewhere in a text. -/
def containsText (part : Text) : Text → Bool
  | [] => part.isEmpty
  | c :: s => part.isPrefixOf (c :: s) || containsText part s

/-- The pieces joined with `sep` between neighbours. -/
def join (sep : Text) (ts : List Text) : Text := (ts.intersperse sep).flatten

/-- `s` repeated `n` times. -/
def times (n : Nat) (s : Text) : Text := (List.replicate n s).flatten

/-- Splits at the first `sep`: what precedes it and what follows it. -/
def cut? (sep : UInt8) (s : Text) : Option (Text × Text) :=
  match s.dropWhile (· ≠ sep) with
  | _ :: back => some (s.takeWhile (· ≠ sep), back)
  | [] => none

/-- The part before the last `sep`, when there is one. -/
def beforeLast? (sep : UInt8) (s : Text) : Option Text :=
  (cut? sep s.reverse).map fun (_, front) => front.reverse

/-- Collects lines onto `done`; `line` is the current one. Both have their last
item first. -/
def linesOnto (done : List Text) (line : Text) : Text → List Text
  | [] => (if line.isEmpty then done else line.reverse :: done).reverse
  | c :: rest =>
    if c = 10 then linesOnto ((c :: line).reverse :: done) [] rest
    else linesOnto done (c :: line) rest

/-- The lines of `s`, each with its newline; a last line without one stays
without it, and no empty line follows a final newline. -/
def lines (s : Text) : List Text := linesOnto [] [] s

/-- Bytewise lexicographic order. -/
def ble : Text → Text → Bool
  | [], _ => true
  | _ :: _, [] => false
  | a :: s, b :: t => a < b || (a = b && ble s t)

/-- The texts in bytewise order. -/
def sort (ts : List Text) : List Text := ts.mergeSort ble

end Text

end JvmClass
