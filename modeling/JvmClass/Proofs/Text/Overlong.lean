import JvmClass.Proofs.Text.Stored

/-!
# Stored bytes that come back

A code has one shortest form, which encoding writes, and a decoder that does not ask for it also
takes longer ones. Bytes with no longer form are given back byte for byte, lone and reversed
halves of pairs among them; all others are given back as shorter bytes of the same text.
-/

namespace JvmClass.ModifiedUtf8

open Text

/-- Whether the form that starts with `a` is the shortest one of its code, or two bytes for zero.
A byte that starts no longer form is the shortest of its own. -/
def startsShortest (a : UInt8) (rest : Bytes) : Bool :=
  if a &&& 0xE0 == 0xC0 then
    match rest with
    | b :: _ => code2 a b == 0 || 0x80 ≤ code2 a b
    | [] => true
  else if a &&& 0xF0 == 0xE0 then
    match rest with
    | b :: c :: _ => 0x800 ≤ code3 a b c
    | _ => true
  else true

/-- Whether stored bytes have no overlong form. Bytes inside a form are none that starts a longer
one, so every place can be looked at on its own. -/
def isShortest : Bytes → Bool
  | [] => true
  | a :: rest => startsShortest a rest && isShortest rest

/-- What is left of bytes without overlong forms has none. -/
theorem isShortest_drop {bytes : Bytes} (shortest : isShortest bytes = true) (n : Nat) :
    isShortest (bytes.drop n) = true := by
  induction n generalizing bytes with
  | zero => exact shortest
  | succ n inductionHypothesis =>
      cases bytes with
      | nil => rfl
      | cons a rest =>
          rw [isShortest, Bool.and_eq_true] at shortest
          exact inductionHypothesis shortest.2

/-- A number that is that of a byte makes this byte. -/
theorem toUInt8_of_eq {n : Nat} {b : UInt8} (same : n = b.toNat) : n.toUInt8 = b :=
  UInt8.toNat_inj.mp (by rw [toNat_toUInt8, same, Nat.mod_eq_of_lt b.toNat_lt])

/-- Three bytes with the code of a surrogate are half of a pair. -/
theorem isHalf_of_isSurrogate {a b c : UInt8} (lead : (a &&& 0xF0 == 0xE0) = true)
    (continues : isContinuation b = true) (continues' : isContinuation c = true)
    (surrogate : isSurrogate (code3 a b c) = true) : IsHalf a b c := by
  have lead' : 0xE0 ≤ a.toNat ∧ a.toNat < 0xF0 :=
    forall_byte (p := fun a => (a &&& 0xF0 == 0xE0) = true → 0xE0 ≤ a.toNat ∧ a.toNat < 0xF0)
      (by decide +kernel) a lead
  have second := (isContinuation_iff b).mp continues
  rw [isSurrogate_iff, code3, toNat_and_15, low6_eq, low6_eq] at surrogate
  refine ⟨UInt8.toNat_inj.mp ?_, by omega, continues'⟩
  simp only [UInt8.reduceToNat]
  omega

/-- Two bytes are the form of their code, unless a shorter one is. -/
theorem encodeCode_code2 {a b : UInt8} (lead : (a &&& 0xE0 == 0xC0) = true)
    (continues : isContinuation b = true) (shortest : code2 a b = 0 ∨ 0x80 ≤ code2 a b) :
    encodeCode (code2 a b) = [a, b] := by
  have lead' : 0xC0 ≤ a.toNat ∧ a.toNat < 0xE0 :=
    forall_byte (p := fun a => (a &&& 0xE0 == 0xC0) = true → 0xC0 ≤ a.toNat ∧ a.toNat < 0xE0)
      (by decide +kernel) a lead
  have second := (isContinuation_iff b).mp continues
  have value : code2 a b = a.toNat % 32 * 64 + b.toNat % 64 := by
    rw [code2, toNat_and_31, low6_eq]
  generalize code2 a b = code at *
  rcases shortest with rfl | large
  · have first : (0xC0 : Nat).toUInt8 = a := toUInt8_of_eq (by omega)
    have second : (0x80 : Nat).toUInt8 = b := toUInt8_of_eq (by omega)
    rw [← first, ← second]
    rfl
  · simp only [encodeCode]
    rw [if_neg (by omega), if_neg (by omega), if_pos (by omega), toUInt8_of_eq (b := a) (by omega),
      toUInt8_of_eq (b := b) (by omega)]

/-- Three bytes are the form of their code, unless a shorter one is. -/
theorem encodeCode_code3 {a b c : UInt8} (lead : (a &&& 0xF0 == 0xE0) = true)
    (continues : isContinuation b = true) (continues' : isContinuation c = true)
    (shortest : 0x800 ≤ code3 a b c) : encodeCode (code3 a b c) = [a, b, c] := by
  have lead' : 0xE0 ≤ a.toNat ∧ a.toNat < 0xF0 :=
    forall_byte (p := fun a => (a &&& 0xF0 == 0xE0) = true → 0xE0 ≤ a.toNat ∧ a.toNat < 0xF0)
      (by decide +kernel) a lead
  have second := (isContinuation_iff b).mp continues
  have third := (isContinuation_iff c).mp continues'
  have value : code3 a b c = a.toNat % 16 * 4096 + b.toNat % 64 * 64 + c.toNat % 64 := by
    rw [code3, toNat_and_15, low6_eq, low6_eq]
  generalize code3 a b c = code at *
  simp only [encodeCode]
  rw [if_neg (by omega), if_neg (by omega), if_neg (by omega), if_pos (by omega),
    toUInt8_of_eq (b := a) (by omega), toUInt8_of_eq (b := b) (by omega),
    toUInt8_of_eq (b := c) (by omega)]

/-- The two halves of a pair are the form of the code that they join to. -/
theorem encodeCode_joinPair {a b c d e f : UInt8} (half : IsHalf a b c)
    (high : isHigh (code3 a b c) = true) (low : isLowForm d e f = true) :
    encodeCode (joinPair (code3 a b c) e f) = [a, b, c, d, e, f] := by
  have lead : a.toNat = 0xED := by rw [half.lead]; rfl
  have second := half.high
  have third := (isContinuation_iff c).mp half.continues
  rw [isLowForm_iff] at low
  simp only [isHigh, Bool.and_eq_true, decide_eq_true_eq] at high
  have value : code3 a b c = a.toNat % 16 * 4096 + b.toNat % 64 * 64 + c.toNat % 64 := by
    rw [code3, toNat_and_15, low6_eq, low6_eq]
  obtain ⟨front, front_eq⟩ := Nat.exists_eq_add_of_le high.1
  obtain ⟨back, back_eq⟩ : ∃ back, 0xD000 + (e.toNat % 64 * 64 + f.toNat % 64) = 0xDC00 + back :=
    Nat.exists_eq_add_of_le (by omega)
  have join : joinPair (code3 a b c) e f = front * 1024 + back + 0x10000 := by
    have rest : 0xDC00 + back - 0xDC00 = back := Nat.add_sub_cancel_left _ _
    have first : 0xD800 + front - 0xD800 = front := Nat.add_sub_cancel_left _ _
    unfold joinPair
    rw [low6_eq, low6_eq, Nat.add_comm _ 0xD000, back_eq, rest, front_eq, first]
    apply Nat.le_antisymm
    · omega
    · omega
  rw [join, encodeCode_pair, toUInt8_of_eq (b := a) (by omega), toUInt8_of_eq (b := b) (by omega),
    toUInt8_of_eq (b := c) (by omega), toUInt8_of_eq (b := d) (by omega),
    toUInt8_of_eq (b := e) (by omega), toUInt8_of_eq (b := f) (by omega)]

/-- A unit that was decoded from its shortest form is encoded as that form again. -/
theorem encode_of_decodeUnit {a : UInt8} {rest : Bytes} {unit : Text} {taken : Nat}
    (found : decodeUnit? a rest = some (unit, taken)) (shortest : startsShortest a rest = true)
    (after : Text) : encode (unit ++ after) = a :: rest.take taken ++ encode after := by
  simp only [decodeUnit?] at found
  split at found
  · rename_i ascii
    simp only [Bool.and_eq_true, decide_eq_true_eq, UInt8.lt_iff_toNat_lt, UInt8.reduceToNat]
      at ascii
    obtain ⟨rfl, rfl⟩ := Prod.mk.inj (Option.some.inj found)
    have scalar : isScalar a.toNat = true := (isScalar_iff _).mpr (.inl (by omega))
    have itself : ofCode a.toNat = [a] := by simp [ofCode, scalar, ascii.2]
    have nonzero : a.toNat ≠ 0 := fun zero => ascii.1 (UInt8.toNat_inj.mp zero)
    have form : encodeCode a.toNat = [a] := by simp [encodeCode, nonzero, ascii.2]
    rw [← itself, encode_ofCode scalar, form]
    rfl
  split at found
  · rename_i lead
    split at found
    · rename_i b more
      split at found
      · rename_i continues
        obtain ⟨rfl, rfl⟩ := Prod.mk.inj (Option.some.inj found)
        simp only [startsShortest, lead, if_true, Bool.or_eq_true, beq_iff_eq,
          decide_eq_true_eq] at shortest
        have scalar : isScalar (code2 a b) = true := by
          rw [isScalar_iff, code2, toNat_and_31, low6_eq]
          omega
        rw [encode_ofCode scalar, encodeCode_code2 lead continues shortest]
        rfl
      · cases found
    · cases found
  split at found
  · rename_i two lead
    split at found
    · rename_i b c more
      split at found
      · rename_i continues
        rw [Bool.and_eq_true] at continues
        simp only [startsShortest, two, lead, if_true, if_false, decide_eq_true_eq,
          Bool.false_eq_true] at shortest
        -- A form that is not the first half of a pair.
        have three : encode ((if isSurrogate (code3 a b c) then [a, b, c] else ofCode (code3 a b c))
            ++ after) = a :: [b, c] ++ encode after := by
          split
          · rename_i surrogate
            exact encode_half (isHalf_of_isSurrogate lead continues.1 continues.2 surrogate) after
          · rename_i whole
            rw [isSurrogate_iff] at whole
            have small : code3 a b c < 0x10000 := by
              rw [code3, toNat_and_15, low6_eq, low6_eq]
              omega
            rw [encode_ofCode ((isScalar_iff _).mpr (by omega)),
              encodeCode_code3 lead continues.1 continues.2 shortest]
        split at found
        · rename_i d e f beyond
          split at found
          · rename_i pair
            rw [Bool.and_eq_true] at pair
            obtain ⟨rfl, rfl⟩ := Prod.mk.inj (Option.some.inj found)
            have surrogate : isSurrogate (code3 a b c) = true := by
              have high := pair.1
              simp only [isHigh, Bool.and_eq_true, decide_eq_true_eq] at high
              rw [isSurrogate_iff]
              omega
            have half := isHalf_of_isSurrogate lead continues.1 continues.2 surrogate
            rw [encode_ofCode (joinPair_scalar pair.1 pair.2).1,
              encodeCode_joinPair half pair.1 pair.2]
            rfl
          · obtain ⟨rfl, rfl⟩ := Prod.mk.inj (Option.some.inj found)
            exact three
        · obtain ⟨rfl, rfl⟩ := Prod.mk.inj (Option.some.inj found)
          exact three
      · cases found
    · cases found
  · cases found

/-- Bytes without an overlong form are what the text that they decode to is encoded as. -/
theorem encode_of_isShortest {bytes : Bytes} {text : Text} (decoded : decode? bytes = some text)
    (shortest : isShortest bytes = true) : encode text = bytes := by
  induction length : bytes.length using Nat.strongRecOn generalizing bytes text with
  | ind n inductionHypothesis =>
      cases bytes with
      | nil =>
          obtain rfl : [] = text := by simpa [decode?, decodeOnto] using decoded
          simp [encode, encodeOnto]
      | cons a rest =>
          obtain ⟨unit, taken, after, found, others, rfl⟩ := decode?_cons decoded
          rw [isShortest, Bool.and_eq_true] at shortest
          have shorter : (rest.drop taken).length < n := by
            rw [← length, List.length_drop, List.length_cons]
            omega
          rw [encode_of_decodeUnit found shortest.1,
            inductionHypothesis _ shorter others (isShortest_drop shortest.2 taken) rfl,
            List.cons_append, List.take_append_drop]

/-- Text and its stored form determine each other: UTF-8 is read back as it was stored, bytes that
are read are stored again as bytes of the same text, never more of them, and the very same where
none of their forms is overlong, and whatever text is stored can be read. -/
theorem codec_inverse :
    (∀ text : Text, text.isUtf8 = true → decode? (encode text) = some text) ∧
    (∀ (bytes : Bytes) (text : Text), decode? bytes = some text →
      decode? (encode text) = some text ∧ (encode text).length ≤ bytes.length ∧
        (isShortest bytes = true → encode text = bytes)) ∧
    (∀ text : Text, ∃ read, decode? (encode text) = some read) := by
  refine ⟨fun text utf8 => decode?_encode_of_isUtf8 utf8, fun bytes text decoded => ?_,
    fun text => ?_⟩
  · exact ⟨decode?_encode decoded, length_encode_le decoded, encode_of_isShortest decoded⟩
  · obtain ⟨read, decodes, -⟩ := exists_decode?_encode text
    exact ⟨read, decodes⟩

/-- The letter é and a zero are UTF-8. The halves of a pair in the wrong order, and a zero, are no
UTF-8 once they are read, and are stored as the same bytes. -/
theorem codec_inverse_reversed :
    (Text.isUtf8 [0xC3, 0xA9, 0x00] = true ∧
      decode? (encode [0xC3, 0xA9, 0x00]) = some [0xC3, 0xA9, 0x00]) ∧
    (decode? [0xED, 0xB8, 0x80, 0xED, 0xA0, 0xBD, 0xC0, 0x80] =
        some [0xED, 0xB8, 0x80, 0xED, 0xA0, 0xBD, 0x00] ∧
      Text.isUtf8 [0xED, 0xB8, 0x80, 0xED, 0xA0, 0xBD, 0x00] = false ∧
      isShortest [0xED, 0xB8, 0x80, 0xED, 0xA0, 0xBD, 0xC0, 0x80] = true ∧
      encode [0xED, 0xB8, 0x80, 0xED, 0xA0, 0xBD, 0x00] =
        [0xED, 0xB8, 0x80, 0xED, 0xA0, 0xBD, 0xC0, 0x80]) := by
  have utf8 : Text.isUtf8 [0xC3, 0xA9, 0x00] = true := by cbv
  have decoded : decode? [0xED, 0xB8, 0x80, 0xED, 0xA0, 0xBD, 0xC0, 0x80] =
      some [0xED, 0xB8, 0x80, 0xED, 0xA0, 0xBD, 0x00] := by cbv
  have shortest : isShortest [0xED, 0xB8, 0x80, 0xED, 0xA0, 0xBD, 0xC0, 0x80] = true := by decide
  exact ⟨⟨utf8, codec_inverse.1 _ utf8⟩, decoded, by cbv, shortest,
    (codec_inverse.2.1 _ _ decoded).2.2 shortest⟩

end JvmClass.ModifiedUtf8
