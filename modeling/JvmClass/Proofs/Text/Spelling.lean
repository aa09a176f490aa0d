import JvmClass.Proofs.Text.ModifiedUtf8

/-!
# Reading an encoded text back

A text that was decoded is decoded again from what it is encoded as. Two halves of a pair are
joined where they meet, so it matters that a decoded text never has the first half of a pair
right before the second.
-/

namespace JvmClass.ModifiedUtf8

open Text

/-- The bytes start with the second half of a surrogate pair. -/
def StartsLow (bytes : Bytes) : Prop :=
  ∃ d e f rest, bytes = d :: e :: f :: rest ∧ isLowForm d e f = true

/-- A byte from this range leads two bytes. -/
theorem lead_two {a : UInt8} (range : 0xC0 ≤ a.toNat ∧ a.toNat < 0xE0) :
    (a &&& 0xE0 == 0xC0) = true :=
  forall_byte (p := fun a => 0xC0 ≤ a.toNat ∧ a.toNat < 0xE0 → (a &&& 0xE0 == 0xC0) = true)
    (by decide +kernel) a range

/-- A byte from this range leads three bytes. -/
theorem lead_three {a : UInt8} (range : 0xE0 ≤ a.toNat ∧ a.toNat < 0xF0) :
    (a &&& 0xE0 == 0xC0) = false ∧ (a &&& 0xF0 == 0xE0) = true :=
  forall_byte (p := fun a => 0xE0 ≤ a.toNat ∧ a.toNat < 0xF0 →
    (a &&& 0xE0 == 0xC0) = false ∧ (a &&& 0xF0 == 0xE0) = true) (by decide +kernel) a range

/-- Three bytes are the second half of a pair exactly if they lie in these ranges. -/
theorem isLowForm_iff {d e f : UInt8} :
    isLowForm d e f = true ↔ d.toNat = 0xED ∧ (0xB0 ≤ e.toNat ∧ e.toNat < 0xC0) ∧
      0x80 ≤ f.toNat ∧ f.toNat < 0xC0 := by
  have second : (e &&& 0xF0 == 0xB0) = true ↔ 0xB0 ≤ e.toNat ∧ e.toNat < 0xC0 :=
    forall_byte (p := fun e => (e &&& 0xF0 == 0xB0) = true ↔ 0xB0 ≤ e.toNat ∧ e.toNat < 0xC0)
      (by decide +kernel) e
  have first : (d == 0xED) = true ↔ d.toNat = 0xED := by
    rw [beq_iff_eq, ← UInt8.toNat_inj]
    rfl
  rw [isLowForm, Bool.and_eq_true, Bool.and_eq_true, first, second, isContinuation_iff, and_assoc]

/-- Bytes start with the second half of a pair exactly if their first three are one. -/
theorem startsLow_cons {d e f : UInt8} {rest : Bytes} :
    StartsLow (d :: e :: f :: rest) ↔ isLowForm d e f = true := by
  constructor
  · rintro ⟨d', e', f', rest', same, low⟩
    simp only [List.cons.injEq] at same
    obtain ⟨rfl, rfl, rfl, -⟩ := same
    exact low
  · exact fun low => ⟨d, e, f, rest, rfl, low⟩

/-- Three bytes decode to their code point or stay as they are, unless they are the first half of
a pair and the second follows. -/
theorem decodeUnit_three {a b c : UInt8} {r : Bytes} (lead : 0xE0 ≤ a.toNat ∧ a.toNat < 0xF0)
    (continues : isContinuation b = true) (continues' : isContinuation c = true)
    (single : isHigh (code3 a b c) = true → ¬StartsLow r) :
    decodeUnit? a (b :: c :: r) =
      some (if isSurrogate (code3 a b c) then [a, b, c] else ofCode (code3 a b c), 2) := by
  have plain : ¬a.toNat < 0x80 := by omega
  simp only [decodeUnit?, lead_three lead, continues, continues', UInt8.lt_iff_toNat_lt,
    UInt8.reduceToNat, plain, decide_false, Bool.and_false, Bool.false_eq_true, Bool.and_self,
    ↓reduceIte]
  split
  · rename_i d e f after
    rw [startsLow_cons] at single
    by_cases high : isHigh (code3 a b c) = true
    · simp [single high]
    · simp [high]
  · rfl

/-- The two halves of a pair decode to one code point. -/
theorem decodeUnit_pair {a b c d e f : UInt8} {r : Bytes}
    (lead : 0xE0 ≤ a.toNat ∧ a.toNat < 0xF0) (continues : isContinuation b = true)
    (continues' : isContinuation c = true) (high : isHigh (code3 a b c) = true)
    (low : isLowForm d e f = true) :
    decodeUnit? a (b :: c :: d :: e :: f :: r) =
      some (ofCode (joinPair (code3 a b c) e f), 5) := by
  have plain : ¬a.toNat < 0x80 := by omega
  simp only [decodeUnit?, lead_three lead, continues, continues', UInt8.lt_iff_toNat_lt,
    UInt8.reduceToNat, plain, decide_false, Bool.and_false, Bool.false_eq_true, Bool.and_self,
    high, low, ↓reduceIte]

/-- A code point is written as its two halves. -/
theorem encodeCode_pair (excess : Nat) :
    encodeCode (excess + 0x10000) =
      [(0xE0 + (0xD800 + excess / 1024) / 4096).toUInt8,
        (0x80 + (0xD800 + excess / 1024) / 64 % 64).toUInt8,
        (0x80 + (0xD800 + excess / 1024) % 64).toUInt8,
        (0xE0 + (0xDC00 + excess % 1024) / 4096).toUInt8,
        (0x80 + (0xDC00 + excess % 1024) / 64 % 64).toUInt8,
        (0x80 + (0xDC00 + excess % 1024) % 64).toUInt8] := by
  have large : ¬excess + 0x10000 = 0 ∧ ¬excess + 0x10000 < 0x80 ∧ ¬excess + 0x10000 < 0x800 ∧
      ¬excess + 0x10000 < 0x10000 := by omega
  simp only [encodeCode, large, ↓reduceIte, Nat.add_sub_cancel, List.cons_append, List.nil_append]

/-- The two halves of a code point join to it. -/
theorem joinPair_halves (excess : Nat) {e f : UInt8}
    (second : e.toNat = 0x80 + (0xDC00 + excess % 1024) / 64 % 64)
    (third : f.toNat = 0x80 + (0xDC00 + excess % 1024) % 64) :
    joinPair (0xD800 + excess / 1024) e f = excess + 0x10000 := by
  have low : 0xD000 + (e.toNat % 64 * 64 + f.toNat % 64) = 0xDC00 + excess % 1024 := by omega
  have high : 0xD800 + excess / 1024 - 0xD800 = excess / 1024 := Nat.add_sub_cancel_left _ _
  unfold joinPair
  rw [low6_eq, low6_eq, high, Nat.add_comm _ 0xD000, low]
  -- An equation with so large a literal is more than a unifier can try, so it is split first.
  apply Nat.le_antisymm
  · omega
  · omega

/-- What a code point is written as decodes to it, whatever follows. -/
theorem decodeUnit_encodeCode {code : Nat} (scalar : isScalar code = true) (rest : Bytes) :
    ∃ a tail, encodeCode code = a :: tail ∧
      decodeUnit? a (tail ++ rest) = some (ofCode code, tail.length) := by
  have range := (isScalar_iff code).mp scalar
  have byte {n : Nat} (small : n < 256) : n.toUInt8.toNat = n := by
    rw [toNat_toUInt8]
    omega
  by_cases zero : code = 0
  · subst zero
    exact ⟨_, _, rfl, rfl⟩
  by_cases ascii : code < 0x80
  · have first : code.toUInt8.toNat = code := byte (by omega)
    have nonzero : code.toUInt8 ≠ 0 := fun same => zero (by rw [← first, same]; rfl)
    refine ⟨code.toUInt8, [], by simp [encodeCode, zero, ascii], ?_⟩
    simp [decodeUnit?, ofCode, scalar, ascii, nonzero, UInt8.lt_iff_toNat_lt, first]
  by_cases two : code < 0x800
  · have first : (0xC0 + code / 64).toUInt8.toNat = 0xC0 + code / 64 := byte (by omega)
    have second : (0x80 + code % 64).toUInt8.toNat = 0x80 + code % 64 := byte (by omega)
    have lead := lead_two (a := (0xC0 + code / 64).toUInt8) (by omega)
    have plain : ¬0xC0 + code / 64 < 0x80 := by omega
    have continues : isContinuation (0x80 + code % 64).toUInt8 = true := by
      rw [isContinuation_iff]; omega
    have value : code2 (0xC0 + code / 64).toUInt8 (0x80 + code % 64).toUInt8 = code := by
      rw [code2, toNat_and_31, low6_eq, first, second]; omega
    refine ⟨_, _, by simp only [encodeCode, zero, ascii, two, ↓reduceIte]; rfl, ?_⟩
    simp only [decodeUnit?, UInt8.lt_iff_toNat_lt, first, UInt8.reduceToNat, plain, decide_false,
      Bool.and_false, Bool.false_eq_true, lead, continues, value, List.cons_append,
      List.nil_append, List.length_singleton, ↓reduceIte]
  by_cases three : code < 0x10000
  · have first : (0xE0 + code / 4096).toUInt8.toNat = 0xE0 + code / 4096 := byte (by omega)
    have second : (0x80 + code / 64 % 64).toUInt8.toNat = 0x80 + code / 64 % 64 := byte (by omega)
    have third : (0x80 + code % 64).toUInt8.toNat = 0x80 + code % 64 := byte (by omega)
    have value : code3 (0xE0 + code / 4096).toUInt8 (0x80 + code / 64 % 64).toUInt8
        (0x80 + code % 64).toUInt8 = code := by
      rw [code3, toNat_and_15, low6_eq, low6_eq, first, second, third]; omega
    have whole : isSurrogate code = false := by
      rw [← Bool.not_eq_true, isSurrogate_iff]; omega
    have low : isHigh code = false := by
      rw [← Bool.not_eq_true]
      simp only [isHigh, Bool.and_eq_true, decide_eq_true_eq]
      omega
    refine ⟨_, _, by simp only [encodeCode, zero, ascii, two, three, ↓reduceIte]; rfl, ?_⟩
    have decoded := @decodeUnit_three (0xE0 + code / 4096).toUInt8
      (0x80 + code / 64 % 64).toUInt8 (0x80 + code % 64).toUInt8 rest
      (by omega) (by rw [isContinuation_iff]; omega) (by rw [isContinuation_iff]; omega)
      (by rw [value, low]; exact fun no => by cases no)
    rw [value, whole] at decoded
    exact decoded
  · obtain ⟨excess, rfl⟩ := Nat.exists_eq_add_of_le' (Nat.not_lt.mp three)
    have below : excess < 0x100000 := by omega
    have a : (0xE0 + (0xD800 + excess / 1024) / 4096).toUInt8.toNat = 0xED := by
      rw [byte (by omega)]; omega
    have b : (0x80 + (0xD800 + excess / 1024) / 64 % 64).toUInt8.toNat =
        0x80 + (0xD800 + excess / 1024) / 64 % 64 := byte (by omega)
    have c : (0x80 + (0xD800 + excess / 1024) % 64).toUInt8.toNat =
        0x80 + (0xD800 + excess / 1024) % 64 := byte (by omega)
    have d : (0xE0 + (0xDC00 + excess % 1024) / 4096).toUInt8.toNat = 0xED := by
      rw [byte (by omega)]; omega
    have e : (0x80 + (0xDC00 + excess % 1024) / 64 % 64).toUInt8.toNat =
        0x80 + (0xDC00 + excess % 1024) / 64 % 64 := byte (by omega)
    have f : (0x80 + (0xDC00 + excess % 1024) % 64).toUInt8.toNat =
        0x80 + (0xDC00 + excess % 1024) % 64 := byte (by omega)
    have high : code3 (0xE0 + (0xD800 + excess / 1024) / 4096).toUInt8
        (0x80 + (0xD800 + excess / 1024) / 64 % 64).toUInt8
        (0x80 + (0xD800 + excess / 1024) % 64).toUInt8 = 0xD800 + excess / 1024 := by
      rw [code3, toNat_and_15, low6_eq, low6_eq, a, b, c]; omega
    have isFirst : isHigh (0xD800 + excess / 1024) = true := by
      simp only [isHigh, Bool.and_eq_true, decide_eq_true_eq]
      omega
    have isSecond : isLowForm (0xE0 + (0xDC00 + excess % 1024) / 4096).toUInt8
        (0x80 + (0xDC00 + excess % 1024) / 64 % 64).toUInt8
        (0x80 + (0xDC00 + excess % 1024) % 64).toUInt8 = true := by
      rw [isLowForm_iff, d, e, f]; omega
    have value : joinPair (0xD800 + excess / 1024)
        (0x80 + (0xDC00 + excess % 1024) / 64 % 64).toUInt8
        (0x80 + (0xDC00 + excess % 1024) % 64).toUInt8 = excess + 0x10000 := by
      exact joinPair_halves excess e f
    have decoded := decodeUnit_pair (a := (0xE0 + (0xD800 + excess / 1024) / 4096).toUInt8)
      (b := (0x80 + (0xD800 + excess / 1024) / 64 % 64).toUInt8)
      (c := (0x80 + (0xD800 + excess / 1024) % 64).toUInt8) (r := rest)
      (by omega) (by rw [isContinuation_iff]; omega) (by rw [isContinuation_iff]; omega)
      (by rw [high]; exact isFirst) isSecond
    rw [high, value] at decoded
    exact ⟨_, _, encodeCode_pair excess, decoded⟩

/-- What a code point is written as is not the second half of a pair. -/
theorem not_startsLow_encodeCode {code : Nat} (scalar : isScalar code = true) (rest : Bytes) :
    ¬StartsLow (encodeCode code ++ rest) := by
  have range := (isScalar_iff code).mp scalar
  have byte {n : Nat} (small : n < 256) : n.toUInt8.toNat = n := by
    rw [toNat_toUInt8]
    omega
  rintro ⟨d, e, f, after, same, low⟩
  rw [isLowForm_iff] at low
  by_cases zero : code = 0
  · subst zero
    have first : (0xC0 : UInt8) = d := (List.cons.inj same).1
    rw [← first] at low
    exact absurd low.1 (by decide)
  by_cases ascii : code < 0x80
  · simp only [encodeCode, zero, ascii, ↓reduceIte, List.cons_append] at same
    have first := (List.cons.inj same).1
    have value : code.toUInt8.toNat = code := byte (by omega)
    rw [← first, value] at low
    omega
  by_cases two : code < 0x800
  · simp only [encodeCode, zero, ascii, two, ↓reduceIte, List.cons_append] at same
    have first := (List.cons.inj same).1
    have value : (0xC0 + code / 64).toUInt8.toNat = 0xC0 + code / 64 := byte (by omega)
    rw [← first, value] at low
    omega
  by_cases three : code < 0x10000
  · simp only [encodeCode, zero, ascii, two, three, ↓reduceIte, List.cons_append] at same
    obtain ⟨first, others⟩ := List.cons.inj same
    have second := (List.cons.inj others).1
    have value : (0xE0 + code / 4096).toUInt8.toNat = 0xE0 + code / 4096 := byte (by omega)
    have value' : (0x80 + code / 64 % 64).toUInt8.toNat = 0x80 + code / 64 % 64 := byte (by omega)
    rw [← first, ← second, value, value'] at low
    omega
  · obtain ⟨excess, rfl⟩ := Nat.exists_eq_add_of_le' (Nat.not_lt.mp three)
    have below : excess < 0x100000 := by omega
    rw [encodeCode_pair, List.cons_append, List.cons_append] at same
    have second := (List.cons.inj (List.cons.inj same).2).1
    have value : (0x80 + (0xD800 + excess / 1024) / 64 % 64).toUInt8.toNat =
        0x80 + (0xD800 + excess / 1024) / 64 % 64 := byte (by omega)
    rw [← second, value] at low
    omega

/-- What a unit of stored bytes decodes to, with the bytes where they stay as they are. -/
inductive UnitOf (a : UInt8) (rest : Bytes) : Text → Nat → Prop
  | scalar {code taken : Nat} (scalar : isScalar code = true) : UnitOf a rest (ofCode code) taken
  | half {b c : UInt8} {after : Bytes} (form : rest = b :: c :: after) (half : IsHalf a b c)
      (single : isHigh (code3 a b c) = true → ¬StartsLow after) : UnitOf a rest [a, b, c] 2

/-- Half of a pair is not decoded as a whole, so its first byte stands by itself. -/
theorem firstPiece_half {a b c : UInt8} (half : IsHalf a b c) (rest : Text) :
    firstPiece a (b :: c :: rest) = (.stray a, 0) := by
  obtain ⟨rfl, high, continues⟩ := half
  have continues' : isContinuation b = true := by rw [isContinuation_iff]; omega
  have surrogate : isScalar (((0xED : UInt8) &&& 0x0F).toNat * 4096 + low6 b * 64 + low6 c) =
      false := by
    rw [toNat_and_15, low6_eq, low6_eq, ← Bool.not_eq_true, isScalar_iff]
    simp only [UInt8.reduceToNat]
    omega
  simp only [firstPiece, surrogate, continues, continues', Bool.and_false]
  rfl

/-- What a unit of stored bytes decodes to is a code point or half of a pair. The cases are the
ranges of its first byte. -/
theorem unitOf_of_decodeUnit {a : UInt8} {rest : Bytes} {text : Text} {taken : Nat}
    (unit : decodeUnit? a rest = some (text, taken)) : UnitOf a rest text taken := by
  obtain ⟨inside, decodes⟩ := decodesTo_of_decodeUnit unit
  cases decodes with
  | scalar scalar => exact .scalar scalar
  | @half x y z half three =>
      subst three
      -- Only the branch that keeps three bytes gives the form of a half.
      have other {code : Nat} (scalar : isScalar code = true) (form : ofCode code = [x, y, z]) :
          False := by
        have piece := firstPiece_ofCode scalar form []
        rw [List.append_nil, firstPiece_half half] at piece
        cases piece
      have kept {b c : UInt8} {after : Bytes} (form : rest = b :: c :: after)
          (single : isHigh (code3 a b c) = true → ¬StartsLow after)
          (unit : some (if isSurrogate (code3 a b c) then [a, b, c] else ofCode (code3 a b c), 2) =
            some ([x, y, z], 2)) : UnitOf a rest [x, y, z] 2 := by
        have same := (Prod.mk.inj (Option.some.inj unit)).1
        split at same
        · simp only [List.cons.injEq, and_true] at same
          obtain ⟨rfl, rfl, rfl⟩ := same
          exact .half form half single
        · rename_i whole
          refine (other ?_ same).elim
          rw [isSurrogate_iff] at whole
          have small : code3 a b c < 0x10000 := by
            rw [code3, toNat_and_15, low6_eq, low6_eq]
            omega
          rw [isScalar_iff]
          omega
      simp only [decodeUnit?] at unit
      split at unit
      · simp at unit
      split at unit
      · split at unit
        · split at unit <;> simp at unit
        · cases unit
      split at unit
      · split at unit
        · rename_i b c after
          split at unit
          · split at unit
            · rename_i d e f beyond
              split at unit
              · simp at unit
              · rename_i apart
                refine kept rfl (fun high low => apart ?_) unit
                rw [startsLow_cons] at low
                rw [high, low]
                rfl
            · rename_i short
              refine kept rfl (fun _ low => ?_) unit
              obtain ⟨d, e, f, beyond, rfl, -⟩ := low
              exact short d e f beyond rfl
          · cases unit
        · cases unit
      · cases unit

/-- Stored bytes decode to what their first unit does and then the rest. -/
theorem decode?_unit {a : UInt8} {rest : Bytes} {unit : Text} {taken : Nat}
    (found : decodeUnit? a rest = some (unit, taken)) :
    decode? (a :: rest) = (decode? (rest.drop taken)).map fun after => unit ++ after := by
  rw [decode?, decodeOnto]
  simp only [found]
  rw [decodeOnto_eq]
  simp

/-- Only the first byte of a unit can be ASCII. -/
theorem UnitOf.beyond {a : UInt8} {rest : Bytes} {unit : Text} {taken : Nat}
    (given : UnitOf a rest unit taken) {b : UInt8} (later : b ∈ unit.tail) : 0x80 ≤ b.toNat := by
  cases given with
  | @scalar code _ scalar =>
      have range := (isScalar_iff code).mp scalar
      have byte {n : Nat} (low : 0x80 ≤ n) (small : n < 256) : 0x80 ≤ n.toUInt8.toNat := by
        rw [toNat_toUInt8]
        omega
      simp only [ofCode, scalar, ↓reduceIte] at later
      (repeat' split at later) <;>
        simp only [List.tail_cons, List.mem_cons, List.not_mem_nil, or_false] at later
      · exact later ▸ byte (by omega) (by omega)
      · rcases later with rfl | rfl <;> exact byte (by omega) (by omega)
      · rcases later with rfl | rfl | rfl <;> exact byte (by omega) (by omega)
  | @half c d after form half single =>
      simp only [List.tail_cons, List.mem_cons, List.not_mem_nil, or_false] at later
      rcases later with rfl | rfl
      · have high := half.high
        omega
      · exact ((isContinuation_iff _).mp half.continues).1

/-- A unit does not reach past a byte of ASCII. -/
theorem UnitOf.within {a : UInt8} {rest : Bytes} {unit after front back : Text} {taken : Nat}
    (given : UnitOf a rest unit taken) (same : unit ++ after = front ++ back) (some_ : front ≠ [])
    (ascii : ∀ b ∈ back.head?, b.toNat < 0x80) :
    ∃ front', front = unit ++ front' ∧ after = front' ++ back := by
  rcases List.append_eq_append_iff.mp same with ⟨front', rfl, rfl⟩ | ⟨excess, rfl, rfl⟩
  · exact ⟨front', rfl, rfl⟩
  · cases excess with
    | nil => exact ⟨[], by simp, by simp⟩
    | cons b excess =>
        have low := ascii b rfl
        have beyond := given.beyond (b := b) (by
          rw [List.tail_append_of_ne_nil some_]
          exact List.mem_append_right _ List.mem_cons_self)
        omega

/-- What comes before a byte of ASCII in a decoded text is decoded from what it is encoded as, and
what comes after can be decoded too. -/
theorem decode?_encode_front {bytes : Bytes} {front back : Text}
    (decoded : decode? bytes = some (front ++ back)) (ascii : ∀ b ∈ back.head?, b.toNat < 0x80) :
    decode? (encode front) = some front ∧ (StartsLow (encode front) → StartsLow bytes) ∧
      ∃ stored, decode? stored = some back := by
  have empty : encode [] = [] := by simp [encode, encodeOnto]
  have nothing : decode? [] = some [] := by simp [decode?, decodeOnto]
  induction length : bytes.length using Nat.strongRecOn generalizing bytes front with
  | ind n inductionHypothesis =>
      by_cases some_ : front = []
      · subst some_
        rw [empty]
        refine ⟨nothing, fun low => ?_, bytes, decoded⟩
        obtain ⟨d, e, f, rest, same, -⟩ := low
        cases same
      cases bytes with
      | nil =>
          rw [nothing, Option.some.injEq] at decoded
          exact absurd (List.append_eq_nil_iff.mp decoded.symm).1 some_
      | cons a rest =>
          obtain ⟨unit, taken, after, found, others, same⟩ := decode?_cons decoded
          have shorter : (rest.drop taken).length < n := by
            rw [← length, List.length_drop, List.length_cons]
            omega
          have kind := unitOf_of_decodeUnit found
          obtain ⟨after, rfl, rfl⟩ := kind.within same.symm some_ ascii
          obtain ⟨again, apart, stored⟩ := inductionHypothesis _ shorter others rfl
          refine and_assoc.mp ⟨?_, stored⟩
          cases kind with
          | @scalar code _ scalar =>
              obtain ⟨first, tail, form, decodes⟩ := decodeUnit_encodeCode scalar (encode after)
              rw [encode_ofCode scalar]
              refine ⟨?_, fun low => absurd low (not_startsLow_encodeCode scalar _)⟩
              rw [form, List.cons_append, decode?_unit decodes, List.drop_left, again]
              rfl
          | @half b c beyond form half single =>
              subst form
              have drops : (b :: c :: beyond).drop 2 = beyond := rfl
              rw [drops] at apart
              have decodes := decodeUnit_three (a := a) (r := encode after)
                (by rw [half.lead]; decide)
                (by have high := half.high; rw [isContinuation_iff]; omega) half.continues
                fun high low => single high (apart low)
              have whole : isSurrogate (code3 a b c) = true := by
                have lead : a.toNat = 0xED := by rw [half.lead]; rfl
                have high := half.high
                rw [isSurrogate_iff, code3, toNat_and_15, low6_eq, low6_eq, lead]
                omega
              rw [whole, if_pos rfl] at decodes
              rw [encode_half half]
              refine ⟨?_, fun low => ?_⟩
              · rw [List.cons_append, List.cons_append, List.cons_append, List.nil_append,
                  decode?_unit decodes]
                change (decode? (encode after)).map _ = _
                rw [again]
                rfl
              · rw [List.cons_append, List.cons_append, List.cons_append, List.nil_append,
                  startsLow_cons] at low
                exact startsLow_cons.mpr low

/-- A decoded text is decoded from what it is encoded as. -/
theorem decode?_encode {bytes : Bytes} {text : Text} (decoded : decode? bytes = some text) :
    decode? (encode text) = some text := by
  rw [← List.append_nil text] at decoded
  exact (decode?_encode_front decoded nofun).1

end JvmClass.ModifiedUtf8
