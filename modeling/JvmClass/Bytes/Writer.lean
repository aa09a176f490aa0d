import JvmClass.Bytes.BigEndian
import JvmClass.Error

/-!
# Growing an output buffer

A writer appends big-endian numbers and can go back to overwrite bytes that it
reserved, such as a length that is known only after what it measures. Overwriting
bytes that are not there has no result.
-/

namespace JvmClass

/-- The bytes written so far. -/
structure Writer where
  bytes : Bytes
deriving DecidableEq, Repr, Inhabited

namespace Writer

/-- Nothing written. -/
def empty : Writer := ⟨[]⟩

/-- Number of bytes written. -/
def size (w : Writer) : Nat := w.bytes.length

/-- Appends raw bytes. -/
def write (b : Bytes) (w : Writer) : Writer := ⟨w.bytes ++ b⟩

/-- Appends `n` zero bytes, none when `n` is negative, and gives their position. -/
def reserve (n : Int) (w : Writer) : Nat × Writer :=
  (w.size, w.write (List.replicate n.toNat 0))

/-- Overwrites the bytes at `p`. -/
def patch? (p : Int) (b : Bytes) (w : Writer) : Option Writer :=
  if 0 ≤ p && p + b.length ≤ w.size then
    some ⟨w.bytes.take p.toNat ++ b ++ w.bytes.drop (p.toNat + b.length)⟩
  else none

/-- Reserves four bytes for a length. -/
def beginLength (w : Writer) : Nat × Writer := w.reserve 4

/-- Overwrites the length at `mark` with the number of bytes after it. The inner
result is the error when that number fits no length. -/
def endLength? (mark : Int) (w : Writer) : Option (Except Error Writer) :=
  let n : Int := w.size - mark - 4
  if n < 0 || 0xFFFFFFFF < n then some (.error (.overflow n))
  else (w.patch? mark (u4 n)).map .ok

end Writer

end JvmClass
