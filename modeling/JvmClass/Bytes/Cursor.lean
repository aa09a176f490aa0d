import JvmClass.Bytes.BigEndian
import JvmClass.Error

/-!
# Reading at a position

A cursor reads big-endian numbers at absolute positions of a buffer. A read that
the buffer does not hold has no value; callers check a region first and then read
inside it.
-/

namespace JvmClass

/-- A buffer that is read by position. -/
structure Cursor where
  bytes : Array UInt8
deriving DecidableEq, Inhabited

namespace Cursor

/-- Size of the buffer. -/
def size (c : Cursor) : Nat := c.bytes.size

/-- Whether `n` bytes from `p` on lie in the buffer. -/
def has (c : Cursor) (p n : Int) : Bool := 0 ≤ p && 0 ≤ n && p ≤ c.size - n

/-- Succeeds when `n` bytes from `p` on lie in the buffer. -/
def check (c : Cursor) (p n : Int) : Except Error Unit :=
  if c.has p n then .ok () else .error (.shortage (.region n p c.size))

/-- The `n` bytes from `p` on. -/
def slice? (c : Cursor) (p n : Int) : Option Bytes :=
  if c.has p n then some (c.bytes.extract p.toNat (p + n).toNat).toList else none

/-- The number in the `width` bytes from `p` on. -/
def number? (c : Cursor) (width : Nat) (p : Int) : Option Nat :=
  (c.slice? p width).map ofBigEndian

/-- An unsigned byte. -/
def u1? (c : Cursor) (p : Int) : Option Nat := c.number? 1 p

/-- An unsigned number of two bytes. -/
def u2? (c : Cursor) (p : Int) : Option Nat := c.number? 2 p

/-- An unsigned number of four bytes. -/
def u4? (c : Cursor) (p : Int) : Option Nat := c.number? 4 p

/-- The bits of an eight-byte number. -/
def u8? (c : Cursor) (p : Int) : Option Nat := c.number? 8 p

/-- A signed byte. -/
def s1? (c : Cursor) (p : Int) : Option Int := (c.u1? p).map fun n => signed 8 n

/-- A signed number of two bytes. -/
def s2? (c : Cursor) (p : Int) : Option Int := (c.u2? p).map fun n => signed 16 n

/-- A signed number of four bytes. -/
def s4? (c : Cursor) (p : Int) : Option Int := (c.u4? p).map fun n => signed 32 n

/-- A signed number of eight bytes. -/
def s8? (c : Cursor) (p : Int) : Option Int := (c.u8? p).map fun n => signed 64 n

/-- Whether the bytes from `p` on are those given. -/
def matches_ (c : Cursor) (p : Int) (bytes : Bytes) : Bool :=
  c.slice? p bytes.length = some bytes

end Cursor

end JvmClass
