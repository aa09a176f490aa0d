import JvmClass.Text

/-!
# UTF-8 inside byte text

A byte text is read one code point at a time. Where the bytes are not the
shortest UTF-8 form of a scalar value the first byte alone is taken, so every
text splits into code points and stray bytes, and nothing is skipped.
-/

namespace JvmClass.Text

/-- One piece of a byte text: a code point, or a byte that starts none. -/
inductive Piece where
  | scalar (code : Nat)
  | stray (byte : UInt8)
deriving DecidableEq, Repr

/-- Whether `b` may continue a multi-byte form. -/
def isContinuation (b : UInt8) : Bool := b &&& 0xC0 == 0x80

/-- The six payload bits of a continuation byte. -/
def low6 (b : UInt8) : Nat := (b &&& 0x3F).toNat

/-- Whether `code` is a scalar value: below 0x110000 and no surrogate. -/
def isScalar (code : Nat) : Bool :=
  code < 0xD800 || (0xE000 ≤ code && code < 0x110000)

/-- The first piece of a text that starts with `c`, and how many bytes after
`c` it takes. Overlong forms, surrogates and values past 0x10FFFF are no code
points. -/
def firstPiece (c : UInt8) (rest : Text) : Piece × Nat :=
  if c < 0x80 then (.scalar c.toNat, 0)
  else if c < 0xC2 then (.stray c, 0)
  else if c < 0xE0 then
    match rest with
    | d :: _ =>
      if isContinuation d then (.scalar ((c &&& 0x1F).toNat * 64 + low6 d), 1) else (.stray c, 0)
    | [] => (.stray c, 0)
  else if c < 0xF0 then
    match rest with
    | d :: e :: _ =>
      let code := (c &&& 0x0F).toNat * 4096 + low6 d * 64 + low6 e
      if isContinuation d && isContinuation e && 0x800 ≤ code && isScalar code then
        (.scalar code, 2)
      else (.stray c, 0)
    | _ => (.stray c, 0)
  else if c < 0xF5 then
    match rest with
    | d :: e :: f :: _ =>
      let code := (c &&& 0x07).toNat * 262144 + low6 d * 4096 + low6 e * 64 + low6 f
      if isContinuation d && isContinuation e && isContinuation f
          && 0x10000 ≤ code && isScalar code then
        (.scalar code, 3)
      else (.stray c, 0)
    | _ => (.stray c, 0)
  else (.stray c, 0)

/-- Splits onto `out`, the pieces so far with the last one first. -/
def piecesOnto (out : List Piece) (s : Text) : List Piece :=
  match s with
  | [] => out.reverse
  | c :: rest =>
    let (piece, taken) := firstPiece c rest
    piecesOnto (piece :: out) (rest.drop taken)
termination_by s.length
decreasing_by simp only [List.length_drop, List.length_cons]; omega

/-- The pieces of a text, in order. -/
def pieces (s : Text) : List Piece := piecesOnto [] s

/-- Whether the text is UTF-8 throughout. -/
def isUtf8 (s : Text) : Bool :=
  s.pieces.all fun
    | .scalar _ => true
    | .stray _ => false

/-- The UTF-8 form of a code point; a value that is no scalar is written as
the replacement character. -/
def ofCode (code : Nat) : Text :=
  let c := if isScalar code then code else 0xFFFD
  if c < 0x80 then [c.toUInt8]
  else if c < 0x800 then [(0xC0 + c / 64).toUInt8, (0x80 + c % 64).toUInt8]
  else if c < 0x10000 then
    [(0xE0 + c / 4096).toUInt8, (0x80 + c / 64 % 64).toUInt8, (0x80 + c % 64).toUInt8]
  else
    [(0xF0 + c / 262144).toUInt8, (0x80 + c / 4096 % 64).toUInt8,
      (0x80 + c / 64 % 64).toUInt8, (0x80 + c % 64).toUInt8]

/-- The text with the replacement character in place of every stray byte. -/
def scrubbed (s : Text) : Text :=
  s.pieces.flatMap fun
    | .scalar code => ofCode code
    | .stray _ => ofCode 0xFFFD

end JvmClass.Text
