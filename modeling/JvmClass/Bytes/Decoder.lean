import JvmClass.Bytes.Cursor

/-!
# Reading in sequence

A decoder reads numbers one after another from a window of a buffer. The first
read that leaves the window is remembered; from then on nothing moves, every read
gives zero and the first error stays. Positions are machine words of sixty-four
bits, so adding a length to one can wrap around.
-/

namespace JvmClass

/-- A reader of the window from `pos` to `stop`, with its first error. -/
structure Decoder where
  cursor : Cursor
  pos : Int
  stop : Int
  error : Option Error

namespace Decoder

/-- The decoder of a window. An end past the buffer is moved to its end. -/
def ofWindow (cursor : Cursor) (start stop : Int) : Decoder :=
  let stop := if cursor.size < stop then (cursor.size : Int) else stop
  { cursor, pos := start, stop
    error :=
      if start < 0 || stop < start then some (.shortage (.window start stop)) else none }

/-- Bytes left in the window. -/
def remaining (d : Decoder) : Int := signed 64 (d.stop - d.pos)

/-- Remembers an error unless one is remembered already. -/
def fail (e : Error) (d : Decoder) : Decoder := { d with error := d.error.or (some e) }

/-- Whether `n` more bytes are there; if not, that is remembered. -/
def need (n : Int) (d : Decoder) : Bool × Decoder :=
  if d.error.isSome then (false, d)
  else if n < 0 || d.stop < signed 64 (d.pos + n) then
    (false, d.fail (.shortage (.pastWindow n d.pos d.stop)))
  else (true, d)

/-- The next number of `width` bytes, zero after an error. A region that passed the check
and still is not in the buffer would be an error of its own. -/
def number (width : Nat) (d : Decoder) : Nat × Decoder :=
  match d.need width with
  | (true, d) =>
    match d.cursor.number? width d.pos with
    | some n => (n, { d with pos := d.pos + width })
    | none => (0, d.fail .outOfBounds)
  | (false, d) => (0, d)

/-- An unsigned byte. -/
def u1 (d : Decoder) : Nat × Decoder := d.number 1

/-- An unsigned number of two bytes. -/
def u2 (d : Decoder) : Nat × Decoder := d.number 2

/-- An unsigned number of four bytes. -/
def u4 (d : Decoder) : Nat × Decoder := d.number 4

/-- A signed number of two bytes. -/
def s2 (d : Decoder) : Int × Decoder :=
  match d.u2 with
  | (n, d) => (signed 16 n, d)

/-- A signed number of four bytes. -/
def s4 (d : Decoder) : Int × Decoder :=
  match d.u4 with
  | (n, d) => (signed 32 n, d)

/-- The next `n` bytes, none after an error. The outcome is `none` when the region
passed the check only because its end wrapped around. -/
def bytes (n : Int) (d : Decoder) : Option (Bytes × Decoder) :=
  match d.need n with
  | (true, d) =>
    (d.cursor.slice? d.pos n).map fun b => (b, { d with pos := signed 64 (d.pos + n) })
  | (false, d) => some ([], d)

/-- Moves past `n` bytes. -/
def skip (n : Int) (d : Decoder) : Decoder :=
  match d.need n with
  | (true, d) => { d with pos := signed 64 (d.pos + n) }
  | (false, d) => d

end Decoder

end JvmClass
