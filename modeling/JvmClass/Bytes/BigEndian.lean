import JvmClass.Text

/-!
# Big-endian numbers

Every number of a class file is written with its most significant byte first. A
number that is too large for its field keeps its low bytes.
-/

namespace JvmClass

/-- The low `width` bytes of `n`, most significant first. -/
def bigEndian : (width n : Nat) → Bytes
  | 0, _ => []
  | width + 1, n => bigEndian width (n / 256) ++ [n.toUInt8]

/-- The number that bytes stand for, most significant first. -/
def ofBigEndian (bytes : Bytes) : Nat :=
  bytes.foldl (fun n b => n * 256 + b.toNat) 0

/-- The value of the low `bits` bits of `n` as an unsigned number. -/
def unsigned (bits : Nat) (n : Int) : Nat := (n % Nat.pow 2 bits).toNat

/-- The value of the low `bits` bits of `n` in two's complement. -/
def signed (bits : Nat) (n : Int) : Int := n.bmod (Nat.pow 2 bits)

/-- One byte. -/
def u1 (n : Int) : Bytes := bigEndian 1 (unsigned 8 n)

/-- Two bytes. -/
def u2 (n : Int) : Bytes := bigEndian 2 (unsigned 16 n)

/-- Four bytes. -/
def u4 (n : Int) : Bytes := bigEndian 4 (unsigned 32 n)

/-- Eight bytes. -/
def u8 (n : Int) : Bytes := bigEndian 8 (unsigned 64 n)

/-- A number has as many bytes as it is wide. -/
@[simp] theorem length_bigEndian (width n : Nat) : (bigEndian width n).length = width := by
  induction width generalizing n with
  | zero => rfl
  | succ width ih => simp [bigEndian, ih]

end JvmClass
