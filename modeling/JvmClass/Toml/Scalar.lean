import JvmClass.Text.Utf8

/-!
# Scalars of TOML

A number, a date or a time is first cut out of the text by the characters that it may
have, and then checked here. Underscores may stand between digits, and a decimal number
has no leading zeros.
-/

namespace JvmClass

namespace Toml

def isDigit (c : UInt8) : Bool := 48 ≤ c && c ≤ 57

/-- The value of a digit in any base up to thirty-six. -/
def digitValue? (c : UInt8) : Option Nat :=
  if isDigit c then some (c.toNat - 48)
  else if 97 ≤ c && c ≤ 122 then some (c.toNat - 87)
  else if 65 ≤ c && c ≤ 90 then some (c.toNat - 55)
  else none

def isHexDigit (c : UInt8) : Bool := (digitValue? c).any (· < 16)

/-- The number that digits of a base write, if all of them are digits of it. -/
def natOfDigits? (base : Nat) (digits : Text) : Option Nat :=
  digits.foldlM (fun n c => do
    let d ← digitValue? c
    if d < base then some (n * base + d) else none) 0

/-- Whether every underscore follows a digit and the last character is a digit. -/
def underscoresOk (s : Text) : Bool :=
  let step (ok : Bool × Bool) (c : UInt8) : Bool × Bool :=
    (ok.1 && (c != 95 || ok.2), isHexDigit c)
  let (ok, afterDigit) := s.foldl step (true, false)
  ok && afterDigit

/-- Whether a decimal number starts with a zero that it does not need. -/
def hasLeadingZero : Text → Bool
  | 48 :: c :: _ => c != 98 && c != 111 && c != 120
  | sign :: 48 :: _ :: _ => sign == 45 || sign == 43
  | _ => false

/-- The sign of a number and the rest of it. -/
def splitSign : Text → Bool × Text
  | 45 :: rest => (true, rest)
  | 43 :: rest => (false, rest)
  | s => (false, s)

/-- The size of an integer, whose base its first characters tell. -/
def magnitude? : Text → Option Nat
  | 48 :: 98 :: digits => natOfDigits? 2 digits
  | 48 :: 111 :: digits => natOfDigits? 8 digits
  | 48 :: 120 :: digits => natOfDigits? 16 digits
  | digits => natOfDigits? 10 digits

/-- The integer that a text writes. It has to fit into 64 bits. -/
def integer? (s : Text) : Option Int := do
  if !underscoresOk s || hasLeadingZero s then none
  let (negative, rest) := splitSign (s.filter (· != 95))
  let n ← magnitude? rest
  let v : Int := if negative then -n else n
  if -0x8000000000000000 ≤ v && v < 0x8000000000000000 then some v else none

/-- Whether a decimal number, as its digits without the point and the power of ten that
they are multiplied with, rounds to a finite double. The place of the first digit decides,
except near the largest double. -/
def fitsDouble (digits : Text) (exponent : Int) : Bool :=
  let digits := digits.dropWhile (· == 48)
  let place : Int := digits.length + exponent
  let limit : Nat := Nat.pow 2 1024 - Nat.pow 2 970
  if digits.isEmpty || place < 300 then true
  else if 320 < place then false
  else (natOfDigits? 10 digits).any fun n =>
    n * Nat.pow 10 exponent.toNat < limit * Nat.pow 10 (-exponent).toNat

/-- Whether a text is digits, at least one. -/
def isNumeral (s : Text) : Bool := !s.isEmpty && s.all isDigit

/-- Whether the parts of a decimal number between its marks have their underscores and
zeros in place. -/
def floatPartsOk (s : Text) : Bool :=
  let isMark (c : UInt8) : Bool := c == 46 || c == 101 || c == 69
  let parts := (s.splitOnP isMark).filter fun p => !p.isEmpty
  parts.all underscoresOk && !(parts.head?.any hasLeadingZero)

/-- Whether a text writes a number with a point or an exponent that a double can hold. -/
def isDecimal (s : Text) : Bool :=
  let (_, body) := splitSign (s.filter (· != 95))
  let mantissa := body.takeWhile fun c => c != 101 && c != 69
  let exponent := (body.drop mantissa.length).drop 1
  let hasExponent := mantissa.length < body.length
  let whole := mantissa.takeWhile (· != 46)
  let fraction := (mantissa.drop whole.length).drop 1
  let hasPoint := whole.length < mantissa.length
  let (negative, power) := splitSign exponent
  let shaped := isNumeral whole && (!hasPoint || isNumeral fraction)
    && (!hasExponent || isNumeral power)
  shaped && (natOfDigits? 10 power).any fun p =>
    fitsDouble (whole ++ fraction) ((if negative then -(p : Int) else p) - fraction.length)

/-- Whether a text is a floating-point number. -/
def isFloat (s : Text) : Bool :=
  let (_, body) := splitSign s
  body == ("inf" : Text) || body == ("nan" : Text) || (floatPartsOk s && isDecimal s)

/-! ## Dates and times -/

/-- The number that the first digits of a text write, and the rest. -/
def fixed? (width : Nat) (s : Text) : Option (Nat × Text) := do
  let digits := s.take width
  if digits.length = width && digits.all isDigit then
    some (← natOfDigits? 10 digits, s.drop width)
  else none

/-- The rest of a text after a character. -/
def after? (c : UInt8) : Text → Option Text
  | d :: rest => if c = d then some rest else none
  | [] => none

def isLeapYear (year : Nat) : Bool := year % 4 = 0 && (year % 100 ≠ 0 || year % 400 = 0)

def daysIn (year month : Nat) : Nat :=
  if month = 2 then (if isLeapYear year then 29 else 28)
  else if month = 4 || month = 6 || month = 9 || month = 11 then 30 else 31

/-- The rest of a text after a date. -/
def afterDate? (s : Text) : Option Text := do
  let (year, s) ← fixed? 4 s
  let (month, s) ← fixed? 2 (← after? 45 s)
  let (day, s) ← fixed? 2 (← after? 45 s)
  if 1 ≤ month && month ≤ 12 && 1 ≤ day && day ≤ daysIn year month then some s else none

/-- The rest of a text after a fraction of a second, if there is one. -/
def afterFraction : Text → Text
  | 46 :: c :: rest => if isDigit c then rest.dropWhile isDigit else 46 :: c :: rest
  | s => s

/-- The rest of a text after a time of day. The seconds may be left out. -/
def afterTime? (s : Text) : Option Text := do
  let (hour, s) ← fixed? 2 s
  let (minute, s) ← fixed? 2 (← after? 58 s)
  if 23 < hour || 59 < minute then none
  match s with
  | 58 :: s =>
    let (second, s) ← fixed? 2 s
    if 59 < second then none
    some (afterFraction s)
  | s => some s

/-- Whether a text is a distance from universal time, or nothing. -/
def isZone (s : Text) : Bool :=
  match s with
  | [] | [90] => true
  | sign :: rest =>
    (sign == 43 || sign == 45) && ((do
      let (hour, rest) ← fixed? 2 rest
      let (minute, rest) ← fixed? 2 (← after? 58 rest)
      return hour ≤ 24 && minute ≤ 60 && rest.isEmpty) : Option Bool).getD false

/-- Whether a text is a date, a time, or both, with a zone only after both. -/
def isMoment (s : Text) : Bool :=
  let s := s.map fun c => if c = 122 then 90 else if c = 116 || c = 32 then 84 else c
  match afterDate? s with
  | some [] => true
  | some rest => ((after? 84 rest).bind afterTime?).any isZone
  | none => (afterTime? s).any (·.isEmpty)

end Toml

end JvmClass
