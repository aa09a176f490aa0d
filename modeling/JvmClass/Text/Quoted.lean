import JvmClass.Text.Utf8
import JvmClass.Text.Printable

/-!
# Quoted text

Text inside a message is quoted so that any bytes can be told apart: printable
code points stand for themselves, the usual control characters have letters,
other code points are numbered and stray bytes keep their hexadecimal value.
-/

namespace JvmClass.Text

/-- The letter that names a control character after a backslash. -/
def controlLetter? : Nat → Option Char
  | 7 => some 'a'
  | 8 => some 'b'
  | 12 => some 'f'
  | 10 => some 'n'
  | 13 => some 'r'
  | 9 => some 't'
  | 11 => some 'v'
  | _ => none

/-- A code point as it stands between quotes `mark`. -/
def quoteCode (mark : Char) (code : Nat) : Text :=
  if code = mark.val.toNat || code = 92 then [92] ++ ofCode code
  else if isPrintable code then ofCode code
  else
    match controlLetter? code with
    | some letter => [92, byte letter]
    | none =>
      if code < 0x20 || code = 0x7F then [92, byte 'x'] ++ hex 2 code
      else if code < 0x10000 then [92, byte 'u'] ++ hex 4 code
      else [92, byte 'U'] ++ hex 8 code

/-- One piece as it stands between quotes `mark`. -/
def quotePiece (mark : Char) : Piece → Text
  | .scalar code => quoteCode mark code
  | .stray b => [92, byte 'x'] ++ hex 2 b.toNat

/-- A text in double quotes. -/
def quoted (s : Text) : Text :=
  [34] ++ s.pieces.flatMap (quotePiece '"') ++ [34]

/-- A code point below 256, given by its byte, in single quotes. -/
def quotedByte (b : UInt8) : Text :=
  [39] ++ quoteCode '\'' b.toNat ++ [39]

end JvmClass.Text
