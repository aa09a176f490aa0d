import JvmClass.Text.Utf8

/-!
# Modified UTF-8

A class file stores text in a variant of UTF-8: the code point zero takes two
bytes, and a code point past 0xFFFF is written as its two surrogates of three
bytes each. Decoding joins surrogate pairs and keeps a lone surrogate as its three
bytes, so that encoding gives the same bytes back.
-/

namespace JvmClass.ModifiedUtf8

open Text

/-- Whether a code is the first half of a surrogate pair. -/
def isHigh (code : Nat) : Bool := 0xD800 ≤ code && code ≤ 0xDBFF

/-- Whether a code is half of a surrogate pair. -/
def isSurrogate (code : Nat) : Bool := 0xD800 ≤ code && code ≤ 0xDFFF

/-- The code of a two-byte form. -/
def code2 (a b : UInt8) : Nat := (a &&& 0x1F).toNat * 64 + low6 b

/-- The code of a three-byte form. -/
def code3 (a b c : UInt8) : Nat := (a &&& 0x0F).toNat * 4096 + low6 b * 64 + low6 c

/-- The code point of a surrogate pair, given the high half and the last two
bytes of the low half. -/
def joinPair (high : Nat) (b c : UInt8) : Nat :=
  0x10000 + (high - 0xD800) * 1024 + (low6 b * 64 + low6 c + 0xD000 - 0xDC00)

/-- Whether three bytes write the second half of a surrogate pair. -/
def isLowForm (a b c : UInt8) : Bool := a == 0xED && b &&& 0xF0 == 0xB0 && isContinuation c

/-- The text of the first form of stored bytes that start with `a`, and how many
bytes after `a` it takes. -/
def decodeUnit? (a : UInt8) (rest : Bytes) : Option (Text × Nat) :=
  if a ≠ 0 && a < 0x80 then some ([a], 0)
  else if a &&& 0xE0 == 0xC0 then
    match rest with
    | b :: _ => if isContinuation b then some (ofCode (code2 a b), 1) else none
    | [] => none
  else if a &&& 0xF0 == 0xE0 then
    match rest with
    | b :: c :: after =>
      if isContinuation b && isContinuation c then
        let code := code3 a b c
        match after with
        | d :: e :: f :: _ =>
          if isHigh code && isLowForm d e f then some (ofCode (joinPair code e f), 5)
          else some (if isSurrogate code then [a, b, c] else ofCode code, 2)
        | _ => some (if isSurrogate code then [a, b, c] else ofCode code, 2)
      else none
    | _ => none
  else none

/-- Decodes onto `out`, the text so far with its last byte first. -/
def decodeOnto (out : Text) (bytes : Bytes) : Option Text :=
  match bytes with
  | [] => some out.reverse
  | a :: rest =>
    match decodeUnit? a rest with
    | some (text, taken) => decodeOnto (text.reverse ++ out) (rest.drop taken)
    | none => none
termination_by bytes.length
decreasing_by simp only [List.length_drop, List.length_cons]; omega

/-- The text of a stored constant, when the bytes are modified UTF-8. -/
def decode? (bytes : Bytes) : Option Text := decodeOnto [] bytes

/-- The stored form of a code point. -/
def encodeCode (code : Nat) : Bytes :=
  let three (c : Nat) : Bytes :=
    [(0xE0 + c / 4096).toUInt8, (0x80 + c / 64 % 64).toUInt8, (0x80 + c % 64).toUInt8]
  if code = 0 then [0xC0, 0x80]
  else if code < 0x80 then [code.toUInt8]
  else if code < 0x800 then [(0xC0 + code / 64).toUInt8, (0x80 + code % 64).toUInt8]
  else if code < 0x10000 then three code
  else
    let c := code - 0x10000
    three (0xD800 + c / 1024) ++ three (0xDC00 + c % 1024)

/-- The stored form of the first piece of a text that starts with `a`, and how
many bytes after `a` it takes. The three bytes of a lone surrogate are kept, and
any other stray byte is stored as the replacement character. -/
def encodeUnit (a : UInt8) (rest : Text) : Bytes × Nat :=
  match firstPiece a rest with
  | (.scalar code, taken) => (encodeCode code, taken)
  | (.stray _, _) =>
    match rest with
    | b :: c :: _ =>
      if a == 0xED && b &&& 0xE0 == 0xA0 && isContinuation c then ([a, b, c], 2)
      else (encodeCode 0xFFFD, 0)
    | _ => (encodeCode 0xFFFD, 0)

/-- Encodes onto `out`, the bytes so far with the last one first. -/
def encodeOnto (out : Bytes) (text : Text) : Bytes :=
  match text with
  | [] => out.reverse
  | a :: rest =>
    let (bytes, taken) := encodeUnit a rest
    encodeOnto (bytes.reverse ++ out) (rest.drop taken)
termination_by text.length
decreasing_by simp only [List.length_drop, List.length_cons]; omega

/-- The stored form of a text. -/
def encode (text : Text) : Bytes := encodeOnto [] text

end JvmClass.ModifiedUtf8
