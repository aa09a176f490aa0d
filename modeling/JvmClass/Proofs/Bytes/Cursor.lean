import Mathlib.Algebra.GroupWithZero.Nat
import Mathlib.Data.List.Induction
import JvmClass.Bytes.BigEndian
import JvmClass.Bytes.Cursor

/-!
# Numbers and bytes of a buffer

A number that was read from some bytes is written as those bytes again, and a number that fits the
width it is written with is read back. What stands at a position of a buffer is a segment of it, and
numbers are read from segments.
-/

namespace JvmClass

/-- A byte at the end counts once, and all before it 256 times. -/
theorem ofBigEndian_concat (front : Bytes) (b : UInt8) :
    ofBigEndian (front ++ [b]) = ofBigEndian front * 256 + b.toNat := by
  simp [ofBigEndian]

/-- A number of some bytes is less than 256 to the power of how many there are. -/
theorem ofBigEndian_lt (bytes : Bytes) : ofBigEndian bytes < 256 ^ bytes.length := by
  induction bytes using List.reverseRecOn with
  | nil => decide
  | append_singleton front b inductionHypothesis =>
      rw [ofBigEndian_concat, List.length_append, List.length_singleton, Nat.pow_succ]
      have := b.toNat_lt
      omega

theorem toNat_toUInt8 (n : Nat) : n.toUInt8.toNat = n % 256 := rfl

/-- A number written in some bytes is read modulo what they can hold. -/
theorem ofBigEndian_bigEndian (width n : Nat) :
    ofBigEndian (bigEndian width n) = n % 256 ^ width := by
  induction width generalizing n with
  | zero => simp [bigEndian, ofBigEndian, Nat.mod_one]
  | succ width inductionHypothesis =>
      rw [bigEndian, ofBigEndian_concat, inductionHypothesis, toNat_toUInt8, Nat.pow_succ,
        Nat.mul_comm (256 ^ width) 256, Nat.mod_mul]
      omega

/-- Bytes are written again as the number that they are read as. -/
theorem bigEndian_ofBigEndian (bytes : Bytes) :
    bigEndian bytes.length (ofBigEndian bytes) = bytes := by
  induction bytes using List.reverseRecOn with
  | nil => rfl
  | append_singleton front b inductionHypothesis =>
      have low := b.toNat_lt
      have quotient : (ofBigEndian front * 256 + b.toNat) / 256 = ofBigEndian front := by omega
      have digit : (ofBigEndian front * 256 + b.toNat).toUInt8 = b := by
        apply UInt8.toNat_inj.mp
        rw [toNat_toUInt8]
        omega
      rw [ofBigEndian_concat, List.length_append, List.length_singleton, bigEndian, quotient,
        inductionHypothesis, digit]

/-- A natural number that fits is its own unsigned form. -/
theorem unsigned_ofNat {bits n : Nat} (fits : n < 2 ^ bits) : unsigned bits n = n := by
  have small : n % Nat.pow 2 bits = n := Nat.mod_eq_of_lt fits
  rw [unsigned, ← Int.natCast_emod, Int.toNat_natCast, small]

/-- An unsigned number fits its bits. -/
theorem unsigned_lt (bits : Nat) (n : Int) : unsigned bits n < 2 ^ bits := by
  have positive : (0 : Int) < (Nat.pow 2 bits : Nat) := by exact_mod_cast Nat.two_pow_pos bits
  have low := Int.emod_nonneg n (Int.ne_of_gt positive)
  have high := Int.emod_lt_of_pos n positive
  have same : Nat.pow 2 bits = 2 ^ bits := rfl
  rw [unsigned]
  omega

/-- Two's complement undoes itself on numbers that fit. -/
theorem signed_unsigned (bits : Nat) (n : Int) : signed bits (unsigned bits n) = signed bits n := by
  have positive : (0 : Int) < (Nat.pow 2 bits : Nat) := by exact_mod_cast Nat.two_pow_pos bits
  rw [unsigned, Int.toNat_of_nonneg (Int.emod_nonneg n (Int.ne_of_gt positive)), signed, signed,
    Int.emod_bmod]

/-- A number between the bounds of two's complement is its own value. -/
theorem signed_of_bounds {bits : Nat} {n : Int} (low : -(2 ^ bits : Nat) ≤ n)
    (high : n < (2 ^ bits : Nat)) :
    signed (bits + 1) n = n := by
  have width : Nat.pow 2 (bits + 1) = 2 * 2 ^ bits := Nat.pow_succ'
  rw [signed, width]
  exact Int.bmod_eq_of_le (by omega) (by omega)

/-- One byte is written for a byte. -/
@[simp] theorem length_u1 (n : Int) : (u1 n).length = 1 := length_bigEndian _ _
@[simp] theorem length_u2 (n : Int) : (u2 n).length = 2 := length_bigEndian _ _
@[simp] theorem length_u4 (n : Int) : (u4 n).length = 4 := length_bigEndian _ _
@[simp] theorem length_u8 (n : Int) : (u8 n).length = 8 := length_bigEndian _ _

/-- A number that was read from some bytes is written as they are. -/
theorem bigEndian_unsigned {width : Nat} {bytes : Bytes} (length : bytes.length = width) :
    bigEndian width (unsigned (8 * width) (ofBigEndian bytes)) = bytes := by
  have fits : ofBigEndian bytes < 2 ^ (8 * width) := by
    rw [Nat.pow_mul, ← length]
    exact ofBigEndian_lt bytes
  rw [unsigned_ofNat fits, ← length, bigEndian_ofBigEndian]

/-- One byte is written again as the number that it is read as. -/
theorem u1_ofBigEndian {bytes : Bytes} (length : bytes.length = 1) :
    u1 (ofBigEndian bytes) = bytes := bigEndian_unsigned length

/-- A byte is written as itself. -/
@[simp] theorem u1_toNat (b : UInt8) : u1 b.toNat = [b] := by
  have given : u1 (ofBigEndian [b]) = [b] := u1_ofBigEndian rfl
  simpa [ofBigEndian] using given

/-- Two bytes are written again as the number that they are read as. -/
theorem u2_ofBigEndian {bytes : Bytes} (length : bytes.length = 2) :
    u2 (ofBigEndian bytes) = bytes := bigEndian_unsigned length

/-- Four bytes are written again as the number that they are read as. -/
theorem u4_ofBigEndian {bytes : Bytes} (length : bytes.length = 4) :
    u4 (ofBigEndian bytes) = bytes := bigEndian_unsigned length

/-! ## Segments of a buffer

What a cursor reads at a position is a segment of its buffer, and segments that meet make
up the segment from the first to the last position.
-/

namespace Cursor

variable {c : Cursor}

/-- The bytes of the buffer from `p` up to `q`. -/
def segment (c : Cursor) (p q : Nat) : Bytes := (c.bytes.extract p q).toList

/-- Whether every position of the buffer, and any that a four-byte length leads to from
there, is a machine word. No buffer that fits a memory is longer. -/
def Addressable (c : Cursor) : Prop := c.size < 0x4000000000000000

/-- A segment is as long as its ends are apart. -/
theorem length_segment {p q : Nat} (inside : q ≤ c.size) : (c.segment p q).length = q - p := by
  simp only [segment, Array.length_toList, Array.size_extract, size] at *
  omega

/-- Nothing lies between a position and itself. -/
@[simp] theorem segment_self (c : Cursor) (p : Nat) : c.segment p p = [] := by
  simp [segment]

/-- Segments that meet make up one. -/
theorem segment_append {p q r : Nat} (first : p ≤ q) (second : q ≤ r) :
    c.segment p q ++ c.segment q r = c.segment p r := by
  rw [segment, segment, segment, ← Array.toList_append, Array.extract_append_extract,
    Nat.min_eq_left first, Nat.max_eq_right second]

/-- The segment from the start to the end is the whole buffer. -/
theorem segment_all (c : Cursor) : c.segment 0 c.size = c.bytes.toList := by
  simp [segment, size]

/-- Bytes are there if they end inside the buffer. -/
theorem has_iff {p n : Nat} : c.has p n = true ↔ p + n ≤ c.size := by
  simp only [has, Bool.and_eq_true, decide_eq_true_eq]
  omega

/-- A slice is the segment of its length, where that lies in the buffer. -/
theorem slice?_eq_some_iff {p n : Nat} {bytes : Bytes} :
    c.slice? p n = some bytes ↔ p + n ≤ c.size ∧ bytes = c.segment p (p + n) := by
  have stop : ((p : Int) + (n : Int)).toNat = p + n := by omega
  simp only [slice?, segment, Int.toNat_natCast, stop, eq_comm (a := bytes)]
  split
  · rename_i inside
    simp [has_iff.mp inside]
  · rename_i outside
    simp only [has_iff] at outside
    simp [outside]

/-- A segment that lies in the buffer can be cut out. -/
theorem slice?_eq_segment {p q : Nat} (ordered : p ≤ q) (inside : q ≤ c.size) :
    c.slice? p (q - p : Nat) = some (c.segment p q) := by
  have stop : p + (q - p) = q := by omega
  rw [slice?_eq_some_iff, stop]
  exact ⟨inside, rfl⟩

/-- A number is read from the segment of its width, where that lies in the buffer. -/
theorem number?_eq_some_iff {width p n : Nat} :
    c.number? width p = some n ↔
      p + width ≤ c.size ∧ n = ofBigEndian (c.segment p (p + width)) := by
  simp only [number?, Option.map_eq_some_iff, slice?_eq_some_iff]
  constructor
  · rintro ⟨_, ⟨inside, rfl⟩, rfl⟩
    exact ⟨inside, rfl⟩
  · rintro ⟨inside, rfl⟩
    exact ⟨_, ⟨inside, rfl⟩, rfl⟩

/-- Two bytes of the buffer are those of the number that is read there. -/
theorem u2_number {p n : Nat} (read : c.u2? p = some n) : u2 n = c.segment p (p + 2) := by
  obtain ⟨inside, rfl⟩ := Iff.mp number?_eq_some_iff read
  exact u2_ofBigEndian (by rw [length_segment inside]; omega)

/-- Four bytes of the buffer are those of the number that is read there. -/
theorem u4_number {p n : Nat} (read : c.u4? p = some n) : u4 n = c.segment p (p + 4) := by
  obtain ⟨inside, rfl⟩ := Iff.mp number?_eq_some_iff read
  exact u4_ofBigEndian (by rw [length_segment inside]; omega)

/-- A number that is read fits its width. -/
theorem number_lt {width p n : Nat} (read : c.number? width p = some n) : n < 256 ^ width := by
  obtain ⟨inside, rfl⟩ := Iff.mp number?_eq_some_iff read
  have bound := ofBigEndian_lt (c.segment p (p + width))
  have width' : p + width - p = width := by omega
  rwa [length_segment inside, width'] at bound

/-- A number fits its width, wherever it is looked for. -/
theorem number?_lt {width n : Nat} {p : Int} (read : c.number? width p = some n) :
    n < 256 ^ width := by
  have inside : c.has p width = true := by
    by_contra outside
    rw [number?, slice?, if_neg outside] at read
    cases read
  obtain ⟨p, rfl⟩ : ∃ q : Nat, p = q := by
    simp only [has, Bool.and_eq_true, decide_eq_true_eq] at inside
    exact ⟨p.toNat, by omega⟩
  exact number_lt read

/-- A number that lies in the buffer is read. -/
theorem number?_of_inside {width p : Nat} (inside : p + width ≤ c.size) :
    ∃ n, c.number? width p = some n :=
  ⟨_, Iff.mpr number?_eq_some_iff ⟨inside, rfl⟩⟩

/-- A signed byte can be read from one byte. -/
theorem s1?_of_inside {p : Nat} (inside : p + 1 ≤ c.size) : ∃ n, c.s1? p = some n := by
  obtain ⟨n, read⟩ := number?_of_inside inside
  exact ⟨signed 8 n, by simp [s1?, u1?, read]⟩

/-- A signed number can be read from two bytes. -/
theorem s2?_of_inside {p : Nat} (inside : p + 2 ≤ c.size) : ∃ n, c.s2? p = some n := by
  obtain ⟨n, read⟩ := number?_of_inside inside
  exact ⟨signed 16 n, by simp [s2?, u2?, read]⟩

/-- A signed number can be read from four bytes. -/
theorem s4?_of_inside {p : Nat} (inside : p + 4 ≤ c.size) : ∃ n, c.s4? p = some n := by
  obtain ⟨n, read⟩ := number?_of_inside inside
  exact ⟨signed 32 n, by simp [s4?, u4?, read]⟩

/-- A signed number can be read from eight bytes. -/
theorem s8?_of_inside {p : Nat} (inside : p + 8 ≤ c.size) : ∃ n, c.s8? p = some n := by
  obtain ⟨n, read⟩ := number?_of_inside inside
  exact ⟨signed 64 n, by simp [s8?, u8?, read]⟩

/-- A byte is less than 256. -/
theorem u1_lt {p n : Nat} (read : c.u1? p = some n) : n < 256 := number_lt read

/-- Two bytes are less than 65536. -/
theorem u2_lt {p n : Nat} (read : c.u2? p = some n) : n < 65536 := number_lt read

/-- Four bytes are less than two to the power of 32. -/
theorem u4_lt {p n : Nat} (read : c.u4? p = some n) : n < 4294967296 := number_lt read

/-! ## Bytes at a position

A buffer spells some bytes at a position. What is read there depends on the bytes only, wherever
they stand, and a number that was written is read back.
-/

variable {c' : Cursor} {p p' : Nat} {bytes front back : Bytes}

/-- The bytes stand at `p`. -/
structure Spells (c : Cursor) (p : Nat) (bytes : Bytes) : Prop where
  inside : p + bytes.length ≤ c.size
  same : c.segment p (p + bytes.length) = bytes

/-- A buffer spells its own segments. -/
theorem spells_segment {q : Nat} (ordered : p ≤ q) (inside : q ≤ c.size) :
    c.Spells p (c.segment p q) := by
  have length := length_segment (p := p) inside
  have stop : p + (q - p) = q := by omega
  refine ⟨by rw [length]; omega, ?_⟩
  rw [length, stop]

/-- Two pieces are spelled where the first is spelled and the second behind it. -/
theorem spells_append_iff :
    c.Spells p (front ++ back) ↔ c.Spells p front ∧ c.Spells (p + front.length) back := by
  have ends : p + (front ++ back).length = p + front.length + back.length := by
    rw [List.length_append]; omega
  constructor
  · rintro ⟨inside, same⟩
    rw [ends] at inside same
    rw [← segment_append (q := p + front.length) (by omega) (by omega)] at same
    obtain ⟨first, second⟩ := List.append_inj same (by rw [length_segment (by omega)]; omega)
    exact ⟨⟨by omega, first⟩, ⟨inside, second⟩⟩
  · rintro ⟨⟨inside, same⟩, ⟨inside', same'⟩⟩
    refine ⟨by rw [ends]; exact inside', ?_⟩
    rw [ends, ← segment_append (q := p + front.length) (by omega) (by omega), same, same']

/-- Where a segment is spelled, its first part is. -/
theorem Spells.before {q r : Nat} (spells : c'.Spells p' (c.segment p q)) (first : p ≤ r)
    (second : r ≤ q) : c'.Spells p' (c.segment p r) := by
  rw [← segment_append first second, spells_append_iff] at spells
  exact spells.1

/-- Where a segment is spelled, the rest of it is, behind the first part. -/
theorem Spells.after {q r : Nat} (spells : c'.Spells p' (c.segment p q)) (first : p ≤ r)
    (second : r ≤ q) (inside : q ≤ c.size) : c'.Spells (p' + (r - p)) (c.segment r q) := by
  rw [← segment_append first second, spells_append_iff,
    length_segment (Nat.le_trans second inside)] at spells
  exact spells.2

/-- All bytes of a buffer stand at its start. -/
theorem spells_all (bytes : Bytes) : (⟨bytes.toArray⟩ : Cursor).Spells 0 bytes := by
  refine ⟨by simp [size], ?_⟩
  simp [segment]

/-- A part of what is spelled is spelled where it starts. -/
theorem Spells.part (spells : c.Spells p bytes) {k n : Nat} (fits : k + n ≤ bytes.length) :
    c.Spells (p + k) ((bytes.drop k).take n) := by
  have split : bytes = bytes.take k ++ ((bytes.drop k).take n ++ (bytes.drop k).drop n) := by
    rw [List.take_append_drop, List.take_append_drop]
  rw [split, spells_append_iff, spells_append_iff, List.length_take_of_le (by omega)] at spells
  exact spells.2.1

/-- Inside bytes that are spelled, segments are pieces of them. -/
theorem Spells.segment_eq (spells : c.Spells p bytes) {k n : Nat} (fits : k + n ≤ bytes.length) :
    c.segment (p + k) (p + k + n) = (bytes.drop k).take n := by
  have part := (spells.part fits).same
  rwa [List.length_take_of_le (by rw [List.length_drop]; omega)] at part

/-- What is read inside some bytes depends on them only. -/
theorem Spells.number (spells : c.Spells p bytes) (spells' : c'.Spells p' bytes) {k width : Nat}
    (fits : k + width ≤ bytes.length) :
      c.number? width (p + k : Nat) = c'.number? width (p' + k : Nat) := by
  have inside := spells.inside
  have inside' := spells'.inside
  have read : c.number? width (p + k : Nat) = some (ofBigEndian ((bytes.drop k).take width)) :=
    number?_eq_some_iff.mpr ⟨by omega, by rw [spells.segment_eq fits]⟩
  have read' : c'.number? width (p' + k : Nat) = some (ofBigEndian ((bytes.drop k).take width)) :=
    number?_eq_some_iff.mpr ⟨by omega, by rw [spells'.segment_eq fits]⟩
  rw [read, read']

/-- Bytes that are spelled can be cut out. -/
theorem Spells.slice (spells : c.Spells p bytes) : c.slice? p bytes.length = some bytes :=
  slice?_eq_some_iff.mpr ⟨spells.inside, spells.same.symm⟩

/-- A number that is spelled is read. -/
theorem Spells.bigEndian {width n : Nat} (spells : c.Spells p (bigEndian width n)) :
    c.number? width p = some (n % 256 ^ width) := by
  obtain ⟨inside, same⟩ := spells
  rw [length_bigEndian] at inside same
  exact number?_eq_some_iff.mpr ⟨inside, by rw [same, ofBigEndian_bigEndian]⟩

/-- A byte that is spelled is read as the number that it was written as, modulo its width. -/
theorem Spells.u1 {n : Int} (spells : c.Spells p (u1 n)) : c.u1? p = some (unsigned 8 n) := by
  have small := unsigned_lt 8 n
  rw [u1?, Spells.bigEndian spells, Nat.mod_eq_of_lt (by simpa using small)]

/-- Two bytes that are spelled are read as the number that they were written as, modulo their
width. -/
theorem Spells.u2 {n : Int} (spells : c.Spells p (u2 n)) : c.u2? p = some (unsigned 16 n) := by
  have small := unsigned_lt 16 n
  rw [u2?, Spells.bigEndian spells, Nat.mod_eq_of_lt (by simpa using small)]

/-- Four bytes that are spelled are read as the number that they were written as, modulo their
width. -/
theorem Spells.u4 {n : Int} (spells : c.Spells p (u4 n)) : c.u4? p = some (unsigned 32 n) := by
  have small := unsigned_lt 32 n
  rw [u4?, Spells.bigEndian spells, Nat.mod_eq_of_lt (by simpa using small)]

/-- Eight bytes that are spelled are read as the number that they were written as, modulo their
width. -/
theorem Spells.u8 {n : Int} (spells : c.Spells p (u8 n)) : c.u8? p = some (unsigned 64 n) := by
  have small := unsigned_lt 64 n
  rw [u8?, Spells.bigEndian spells, Nat.mod_eq_of_lt (by simpa using small)]

/-- A byte that is spelled is read as it is. -/
theorem Spells.byte {b : UInt8} (spells : c.Spells p [b]) : c.u1? p = some b.toNat := by
  rw [← u1_toNat b] at spells
  rw [spells.u1, unsigned_ofNat b.toNat_lt]

/-- The first byte is read as a number, and the others stand after it. -/
theorem Spells.cons {b : UInt8} {rest : Bytes} (spells : c.Spells p (b :: rest)) :
    c.u1? p = some b.toNat ∧ c.Spells (p + 1) rest := by
  rw [← List.singleton_append, spells_append_iff] at spells
  exact ⟨spells.1.byte, spells.2⟩

/-- A byte that is spelled is read as a signed number, wrapped to its width. -/
theorem Spells.s1 {n : Int} (spells : c.Spells p (JvmClass.u1 n)) :
    c.s1? p = some (signed 8 n) := by
  rw [s1?, Spells.u1 spells]
  exact congrArg some (signed_unsigned 8 n)

/-- Two bytes that are spelled are read as a signed number, wrapped to their width. -/
theorem Spells.s2 {n : Int} (spells : c.Spells p (JvmClass.u2 n)) :
    c.s2? p = some (signed 16 n) := by
  rw [s2?, Spells.u2 spells]
  exact congrArg some (signed_unsigned 16 n)

/-- Four bytes that are spelled are read as a signed number, wrapped to their width. -/
theorem Spells.s4 {n : Int} (spells : c.Spells p (JvmClass.u4 n)) :
    c.s4? p = some (signed 32 n) := by
  rw [s4?, Spells.u4 spells]
  exact congrArg some (signed_unsigned 32 n)

/-- Eight bytes that are spelled are read as a signed number, wrapped to their width. -/
theorem Spells.s8 {n : Int} (spells : c.Spells p (JvmClass.u8 n)) :
    c.s8? p = some (signed 64 n) := by
  rw [s8?, Spells.u8 spells]
  exact congrArg some (signed_unsigned 64 n)

/-- A byte that is spelled is read as the number that it was written as, if that fits. -/
theorem Spells.u1_of_lt {n : Nat} (spells : c.Spells p (JvmClass.u1 n)) (small : n < 256) :
    c.u1? p = some n := by
  rw [spells.u1, unsigned_ofNat small]

/-- Two bytes that are spelled are read as the number that they were written as, if that fits. -/
theorem Spells.u2_of_lt {n : Nat} (spells : c.Spells p (JvmClass.u2 n)) (small : n < 65536) :
    c.u2? p = some n := by
  rw [spells.u2, unsigned_ofNat small]

/-- Four bytes that are spelled are read as the number that they were written as, if that fits. -/
theorem Spells.u4_of_lt {n : Nat} (spells : c.Spells p (JvmClass.u4 n)) (small : n < 4294967296) :
    c.u4? p = some n := by
  rw [spells.u4, unsigned_ofNat small]

end Cursor

end JvmClass
