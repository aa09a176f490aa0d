import JvmClass.Toml.Scalar

/-!
# Quoted text of TOML

Text stands between double quotes, where a backslash starts an escape, or between single
quotes, where it does not. Three quotes in a row delimit text of several lines. Such text
may hold one or two quotes anywhere, also right before the quotes that end it.
-/

namespace JvmClass

namespace Toml

def isNewline (c : UInt8) : Bool := c == 10 || c == 13

def isBlank (c : UInt8) : Bool := c == 32 || c == 9

/-- The character that a code in hexadecimal stands for, and the rest of the text. -/
def codePoint? (width : Nat) (s : Text) : Option (Text × Text) := do
  let digits := s.take width
  if digits.length < width then none
  let code ← natOfDigits? 16 digits
  if Text.isScalar code then some (Text.ofCode code, s.drop width) else none

/-- What the escape after a backslash stands for, and the rest of the text. -/
def escape? : Text → Option (Text × Text)
  | [] => none
  | c :: rest =>
    if c = Text.byte 'b' then some ([8], rest)
    else if c = Text.byte 't' then some ([9], rest)
    else if c = Text.byte 'n' then some ([10], rest)
    else if c = Text.byte 'f' then some ([12], rest)
    else if c = Text.byte 'r' then some ([13], rest)
    else if c = Text.byte 'e' then some ([27], rest)
    else if c = 34 || c = 92 then some ([c], rest)
    else if c = Text.byte 'x' then codePoint? 2 rest
    else if c = Text.byte 'u' then codePoint? 4 rest
    else if c = Text.byte 'U' then codePoint? 8 rest
    else none

/-- The text with its escapes replaced, after `out`, which has its last byte first. The
fuel is the length of the text. -/
def unescapeOnto (fuel : Nat) (out s : Text) : Option Text :=
  match fuel, s with
  | _, [] => some out.reverse
  | 0, _ :: _ => none
  | fuel + 1, c :: rest =>
    if c = 92 then do
      let (t, rest) ← escape? rest
      unescapeOnto fuel (t.reverse ++ out) rest
    else unescapeOnto fuel (c :: out) rest

/-- The text with its escapes replaced. -/
def unescape? (s : Text) : Option Text := unescapeOnto s.length [] s

/-- Splits text of one line at the quote that ends it. A backslash protects what follows
it if `escapes` says so. `out` has its last byte first. -/
def lineOnto (quote : UInt8) (escapes : Bool) (out : Text) : Text → Option (Text × Text)
  | [] => none
  | [c] => if c = quote then some (out.reverse, []) else none
  | c :: d :: rest =>
    if c = quote then some (out.reverse, d :: rest)
    else if isNewline c then none
    else if escapes && c = 92 then
      if isNewline d then none else lineOnto quote escapes (d :: c :: out) rest
    else lineOnto quote escapes (c :: out) (d :: rest)

/-- Whether text ends in so many quotes that no further one may follow. The check looks
only at the last characters: a backslash before five quotes counts as an escape. -/
def tooManyQuotes (quote : UInt8) (escapes : Bool) (out : Text) : Bool :=
  out.take 5 == List.replicate 5 quote && !(escapes && out[5]? == some 92)

/-- Whether what follows a backslash in text of several lines may stand there: an escape,
or space, as before the end of a line. The escape has to be whole as it is written, since
lines are joined only later. -/
def mayFollowBackslash (s : Text) : Bool :=
  (s.head?.any fun c => isBlank c || isNewline c) || (escape? s).isSome

/-- Splits text of several lines at the three quotes that end it. `out` has its last byte
first. -/
def blockOnto (quote : UInt8) (escapes : Bool) (out : Text) : Text → Option (Text × Text)
  | [] => none
  | c :: rest =>
    if c = quote && rest.take 2 == [quote, quote] then
      if rest[2]? != some quote then some (out.reverse, rest.drop 2)
      else if tooManyQuotes quote escapes (quote :: quote :: c :: out) then none
      else blockOnto quote escapes (c :: out) rest
    else if escapes && c = 92 then
      match rest with
      | d :: more =>
        if mayFollowBackslash (d :: more) then blockOnto quote escapes (d :: c :: out) more
        else none
      | [] => none
    else blockOnto quote escapes (c :: out) rest

/-- The text without a newline at its very start. -/
def dropFirstNewline : Text → Text
  | 10 :: rest => rest
  | 13 :: 10 :: rest => rest
  | s => s

/-- The text with every backslash at the end of a line removed, and with it the blank
space up to the next visible character. `out` has its last byte first; the fuel is the
length of the text. -/
def joinLinesOnto (fuel : Nat) (out : Text) (s : Text) : Text :=
  match fuel, s with
  | 0, _ | _, [] => out.reverse
  | fuel + 1, c :: rest =>
    if c = 92 then
      let space := rest.takeWhile fun c => isBlank c || isNewline c
      if rest.head? == some 92 then joinLinesOnto fuel (92 :: 92 :: out) (rest.drop 1)
      else if space.contains 10 then joinLinesOnto fuel out (rest.drop space.length)
      else joinLinesOnto fuel (c :: out) rest
    else joinLinesOnto fuel (c :: out) rest

/-- The text with lines joined where a backslash ends them. -/
def joinLines (s : Text) : Text := joinLinesOnto s.length [] s

/-- Text of one line after its opening quote: what it says, and the rest. -/
def lineText? (quote : UInt8) (s : Text) : Option (Text × Text) := do
  let escapes := quote == 34
  let (inner, rest) ← lineOnto quote escapes [] s
  if escapes then some (← unescape? inner, rest) else some (inner, rest)

/-- Text of several lines after its opening quotes: what it says, and the rest. -/
def blockText? (quote : UInt8) (s : Text) : Option (Text × Text) := do
  let escapes := quote == 34
  let (inner, rest) ← blockOnto quote escapes [] s
  let inner := dropFirstNewline inner
  if escapes then some (← unescape? (joinLines inner), rest) else some (inner, rest)

/-- Quoted text after its first quote, in either form. -/
def quoted? (quote : UInt8) (s : Text) : Option (Text × Text) :=
  match s with
  | c :: d :: rest =>
    if c = quote && d = quote then blockText? quote rest else lineText? quote s
  | s => lineText? quote s

end Toml

end JvmClass
