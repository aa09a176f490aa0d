import JvmClass.ModifiedUtf8
import JvmClass.Proofs.Bytes.Cursor

/-!
# Encoding what was decoded

A decoded text is made of code points and of the three bytes of lone surrogates. Encoding
takes it apart in the same way, so what it writes is no longer than what was read.
-/

namespace JvmClass

/-- What holds of the byte of every small number holds of every byte. -/
theorem forall_byte {p : UInt8 → Prop} (holds : ∀ n : Fin 256, p (UInt8.ofNat n)) (b : UInt8) :
    p b := by
  have here := holds ⟨b.toNat, b.toNat_lt⟩
  simpa using here

namespace Text

/-- A byte continues a form exactly if it lies in this range. -/
theorem isContinuation_iff (b : UInt8) :
    isContinuation b = true ↔ 0x80 ≤ b.toNat ∧ b.toNat < 0xC0 :=
  forall_byte (p := fun b => isContinuation b = true ↔ 0x80 ≤ b.toNat ∧ b.toNat < 0xC0)
    (by decide +kernel) b

/-- The lowest six bits of a byte, as a remainder. -/
theorem low6_eq (b : UInt8) : low6 b = b.toNat % 64 := by
  rw [low6, UInt8.toNat_and]
  exact Nat.and_two_pow_sub_one_eq_mod b.toNat 6

/-- The lowest five bits of a byte, as a remainder. -/
theorem toNat_and_31 (b : UInt8) : (b &&& 0x1F).toNat = b.toNat % 32 := by
  rw [UInt8.toNat_and]
  exact Nat.and_two_pow_sub_one_eq_mod b.toNat 5

/-- The lowest four bits of a byte, as a remainder. -/
theorem toNat_and_15 (b : UInt8) : (b &&& 0x0F).toNat = b.toNat % 16 := by
  rw [UInt8.toNat_and]
  exact Nat.and_two_pow_sub_one_eq_mod b.toNat 4

/-- The lowest three bits of a byte, as a remainder. -/
theorem toNat_and_7 (b : UInt8) : (b &&& 0x07).toNat = b.toNat % 8 := by
  rw [UInt8.toNat_and]
  exact Nat.and_two_pow_sub_one_eq_mod b.toNat 3

/-- A code is that of a scalar exactly if it lies in one of the two ranges. -/
theorem isScalar_iff (code : Nat) :
    isScalar code = true ↔ code < 0xD800 ∨ (0xE000 ≤ code ∧ code < 0x110000) := by
  simp [isScalar]

/-- The form of a code point is one piece, whatever follows. -/
theorem firstPiece_ofCode {code : Nat} (scalar : isScalar code = true) {a : UInt8} {tail : Text}
    (form : ofCode code = a :: tail) (rest : Text) :
    firstPiece a (tail ++ rest) = (.scalar code, tail.length) := by
  have range := (isScalar_iff code).mp scalar
  simp only [ofCode, scalar, ↓reduceIte] at form
  split at form
  · rename_i small
    obtain ⟨rfl, rfl⟩ := List.cons.inj form
    have first : code.toUInt8.toNat = code := by rw [toNat_toUInt8]; omega
    simp [firstPiece, UInt8.lt_iff_toNat_lt, first, small]
  · split at form
    · obtain ⟨rfl, rfl⟩ := List.cons.inj form
      have first : (0xC0 + code / 64).toUInt8.toNat = 0xC0 + code / 64 := by
        rw [toNat_toUInt8]; omega
      have second : (0x80 + code % 64).toUInt8.toNat = 0x80 + code % 64 := by
        rw [toNat_toUInt8]; omega
      have continues : isContinuation (0x80 + code % 64).toUInt8 = true := by
        rw [isContinuation_iff, second]; omega
      have value : (0xC0 + code / 64) % 32 * 64 + (0x80 + code % 64) % 64 = code := by omega
      simp only [firstPiece, UInt8.lt_iff_toNat_lt, first, UInt8.reduceToNat, toNat_and_31, low6_eq,
        second, List.cons_append, continues, ↓reduceIte, value]
      rw [if_neg (by omega), if_neg (by omega), if_pos (by omega)]
      rfl
    · split at form
      · obtain ⟨rfl, rfl⟩ := List.cons.inj form
        have first : (0xE0 + code / 4096).toUInt8.toNat = 0xE0 + code / 4096 := by
          rw [toNat_toUInt8]; omega
        have second : (0x80 + code / 64 % 64).toUInt8.toNat = 0x80 + code / 64 % 64 := by
          rw [toNat_toUInt8]; omega
        have third : (0x80 + code % 64).toUInt8.toNat = 0x80 + code % 64 := by
          rw [toNat_toUInt8]; omega
        have continues : isContinuation (0x80 + code / 64 % 64).toUInt8 = true := by
          rw [isContinuation_iff, second]; omega
        have continues' : isContinuation (0x80 + code % 64).toUInt8 = true := by
          rw [isContinuation_iff, third]; omega
        have value : (0xE0 + code / 4096) % 16 * 4096 + (0x80 + code / 64 % 64) % 64 * 64
            + (0x80 + code % 64) % 64 = code := by omega
        have long : 0x800 ≤ code := by omega
        simp only [firstPiece, UInt8.lt_iff_toNat_lt, first, UInt8.reduceToNat, toNat_and_15,
          low6_eq, second, third, List.cons_append, continues, continues', value, scalar, long,
          decide_true, Bool.and_self, ↓reduceIte]
        rw [if_neg (by omega), if_neg (by omega), if_neg (by omega), if_pos (by omega)]
        rfl
      · obtain ⟨rfl, rfl⟩ := List.cons.inj form
        have first : (0xF0 + code / 262144).toUInt8.toNat = 0xF0 + code / 262144 := by
          rw [toNat_toUInt8]; omega
        have second : (0x80 + code / 4096 % 64).toUInt8.toNat = 0x80 + code / 4096 % 64 := by
          rw [toNat_toUInt8]; omega
        have third : (0x80 + code / 64 % 64).toUInt8.toNat = 0x80 + code / 64 % 64 := by
          rw [toNat_toUInt8]; omega
        have fourth : (0x80 + code % 64).toUInt8.toNat = 0x80 + code % 64 := by
          rw [toNat_toUInt8]; omega
        have continues : isContinuation (0x80 + code / 4096 % 64).toUInt8 = true := by
          rw [isContinuation_iff, second]; omega
        have continues' : isContinuation (0x80 + code / 64 % 64).toUInt8 = true := by
          rw [isContinuation_iff, third]; omega
        have continues'' : isContinuation (0x80 + code % 64).toUInt8 = true := by
          rw [isContinuation_iff, fourth]; omega
        have value : (0xF0 + code / 262144) % 8 * 262144 + (0x80 + code / 4096 % 64) % 64 * 4096
            + (0x80 + code / 64 % 64) % 64 * 64 + (0x80 + code % 64) % 64 = code := by omega
        have long : 0x10000 ≤ code := by omega
        simp only [firstPiece, UInt8.lt_iff_toNat_lt, first, UInt8.reduceToNat, toNat_and_7,
          low6_eq, second, third, fourth, List.cons_append, continues, continues', continues'',
          value, scalar, long, decide_true, Bool.and_self, ↓reduceIte]
        rw [if_neg (by omega), if_neg (by omega), if_neg (by omega), if_neg (by omega),
          if_pos (by omega)]
        rfl

end Text

namespace ModifiedUtf8

open Text

/-- The three bytes of a lone surrogate. -/
structure IsHalf (a b c : UInt8) : Prop where
  lead : a = 0xED
  high : 0xA0 ≤ b.toNat ∧ b.toNat < 0xC0
  continues : isContinuation c = true

/-- The form of a scalar is stored as its code, whatever follows. -/
theorem encodeUnit_ofCode {code : Nat} (scalar : isScalar code = true) {a : UInt8} {tail : Text}
    (form : ofCode code = a :: tail) (rest : Text) :
    encodeUnit a (tail ++ rest) = (encodeCode code, tail.length) := by
  simp only [encodeUnit, firstPiece_ofCode scalar form]

/-- Half of a pair is stored as it is, whatever follows. -/
theorem encodeUnit_half {a b c : UInt8} (half : IsHalf a b c) (rest : Text) :
    encodeUnit a (b :: c :: rest) = ([a, b, c], 2) := by
  obtain ⟨rfl, high, continues⟩ := half
  have continues' : isContinuation b = true := by rw [isContinuation_iff]; omega
  have half : (b &&& 0xE0 == 0xA0) = true :=
    forall_byte (p := fun b => 0xA0 ≤ b.toNat ∧ b.toNat < 0xC0 → (b &&& 0xE0 == 0xA0) = true)
      (by decide +kernel) b high
  have surrogate : isScalar (((0xED : UInt8) &&& 0x0F).toNat * 4096 + low6 b * 64 + low6 c) =
      false := by
    rw [toNat_and_15, low6_eq, low6_eq, ← Bool.not_eq_true, isScalar_iff]
    simp only [UInt8.reduceToNat]
    omega
  have piece : firstPiece 0xED (b :: c :: rest) = (.stray 0xED, 0) := by
    simp only [firstPiece, surrogate, continues, continues', Bool.and_false]
    rfl
  simp only [encodeUnit, piece, half, continues]
  rfl

/-- What a text is stored as is put behind what was stored before. -/
theorem encodeOnto_eq (text : Text) (out : Bytes) :
    encodeOnto out text = out.reverse ++ encode text := by
  induction length : text.length using Nat.strongRecOn generalizing text out with
  | ind n inductionHypothesis =>
      cases text with
      | nil => simp [encode, encodeOnto]
      | cons a rest =>
          have shorter : (rest.drop (encodeUnit a rest).2).length < n := by
            rw [← length, List.length_drop, List.length_cons]
            omega
          have step (front : Bytes) := inductionHypothesis _ shorter _ front rfl
          rw [encode, encodeOnto, encodeOnto]
          simp only [step, List.reverse_append, List.reverse_reverse, List.append_assoc,
            List.append_nil]

/-- Encoding takes off the first unit of a text. -/
theorem encode_cons {a : UInt8} {rest : Text} {bytes : Bytes} {taken : Nat}
    (unit : encodeUnit a rest = (bytes, taken)) :
    encode (a :: rest) = bytes ++ encode (rest.drop taken) := by
  rw [encode, encodeOnto]
  simp only [unit, List.append_nil]
  rw [encodeOnto_eq, List.reverse_reverse]

/-- A scalar and what follows it are stored one after the other. -/
theorem encode_ofCode {code : Nat} (scalar : isScalar code = true) (rest : Text) :
    encode (ofCode code ++ rest) = encodeCode code ++ encode rest := by
  cases form : ofCode code with
  | nil =>
      simp only [ofCode] at form
      repeat' split at form
      all_goals cases form
  | cons a tail =>
      rw [List.cons_append, encode_cons (encodeUnit_ofCode scalar form rest), List.drop_left]

/-- Half of a pair and what follows it are stored one after the other. -/
theorem encode_half {a b c : UInt8} (half : IsHalf a b c) (rest : Text) :
    encode ([a, b, c] ++ rest) = [a, b, c] ++ encode rest := by
  rw [List.cons_append, List.cons_append, List.cons_append, List.nil_append,
    encode_cons (encodeUnit_half half rest)]
  rfl

/-- A code is stored in at most as many bytes as its range takes. -/
theorem length_encodeCode_le {code : Nat} : (encodeCode code).length ≤
    if code ≠ 0 ∧ code < 0x80 then 1 else if code < 0x800 then 2
    else if code < 0x10000 then 3 else 6 := by
  simp only [encodeCode]
  grind

/-- A code is that of a surrogate exactly if it lies in this range. -/
theorem isSurrogate_iff (code : Nat) :
    isSurrogate code = true ↔ 0xD800 ≤ code ∧ code ≤ 0xDFFF := by
  simp [isSurrogate]

/-- What a unit of stored bytes decodes to: a code point that is written in no more bytes, or
the bytes themselves. -/
inductive DecodesTo (taken : Nat) : Text → Prop
  | scalar {code : Nat} (scalar : isScalar code = true)
      (short : (encodeCode code).length ≤ taken + 1) : DecodesTo taken (ofCode code)
  | half {a b c : UInt8} (half : IsHalf a b c) (three : taken = 2) : DecodesTo taken [a, b, c]

/-- Three bytes on their own decode to their code point, or stay as they are. -/
theorem decodesTo_three {a b c : UInt8} (lead : (a &&& 0xF0 == 0xE0) = true)
    (continues : isContinuation b = true) (continues' : isContinuation c = true) :
    DecodesTo 2 (if isSurrogate (code3 a b c) then [a, b, c] else ofCode (code3 a b c)) := by
  have lead' : 0xE0 ≤ a.toNat ∧ a.toNat < 0xF0 :=
    forall_byte (p := fun a => (a &&& 0xF0 == 0xE0) = true → 0xE0 ≤ a.toNat ∧ a.toNat < 0xF0)
      (by decide +kernel) a lead
  have second := (isContinuation_iff b).mp continues
  have value : code3 a b c = a.toNat % 16 * 4096 + b.toNat % 64 * 64 + c.toNat % 64 := by
    rw [code3, toNat_and_15, low6_eq, low6_eq]
  split
  · rename_i surrogate
    rw [isSurrogate_iff, value] at surrogate
    refine .half ⟨?_, by omega, continues'⟩ rfl
    apply UInt8.toNat_inj.mp
    simp only [UInt8.reduceToNat]
    omega
  · rename_i plain
    rw [isSurrogate_iff, value] at plain
    refine .scalar (by rw [isScalar_iff, value]; omega) ?_
    have length := @length_encodeCode_le (code3 a b c)
    grind

/-- Two bytes decode to the code point that they spell, which takes no more of them in a text. -/
theorem decodesTo_two {a b : UInt8} : DecodesTo 1 (ofCode (code2 a b)) := by
  have value : code2 a b = a.toNat % 32 * 64 + b.toNat % 64 := by
    rw [code2, toNat_and_31, low6_eq]
  refine .scalar (by rw [isScalar_iff, value]; omega) ?_
  have length := @length_encodeCode_le (code2 a b)
  grind

/-- Two surrogates that make up a pair decode to one code point. -/
theorem decodesTo_pair {high : Nat} {d e f : UInt8} (first : isHigh high = true)
    (second : isLowForm d e f = true) : DecodesTo 5 (ofCode (joinPair high e f)) := by
  simp only [isHigh, Bool.and_eq_true, decide_eq_true_eq] at first
  simp only [isLowForm, Bool.and_eq_true] at second
  have low : 0xB0 ≤ e.toNat ∧ e.toNat < 0xC0 :=
    forall_byte (p := fun e => (e &&& 0xF0 == 0xB0) = true → 0xB0 ≤ e.toNat ∧ e.toNat < 0xC0)
      (by decide +kernel) e second.1.2
  have range : 0x10000 ≤ joinPair high e f ∧ joinPair high e f < 0x110000 := by
    unfold joinPair
    rw [low6_eq, low6_eq]
    constructor <;> omega
  -- The code stays opaque from here on: unfolding its subtraction is what a checker cannot do.
  generalize joinPair high e f = code at range
  have scalar : isScalar code = true := by
    rw [isScalar_iff]
    exact .inr ⟨by omega, range.2⟩
  have length := @length_encodeCode_le code
  exact .scalar scalar (by grind)

/-- What a unit of stored bytes decodes to is a code point or the bytes themselves, and no more
bytes are taken than there are. -/
theorem decodesTo_of_decodeUnit {a : UInt8} {rest : Bytes} {text : Text} {taken : Nat}
    (unit : decodeUnit? a rest = some (text, taken)) :
    taken ≤ rest.length ∧ DecodesTo taken text := by
  simp only [decodeUnit?] at unit
  split at unit
  · rename_i ascii
    simp only [Bool.and_eq_true, decide_eq_true_eq, UInt8.lt_iff_toNat_lt, UInt8.reduceToNat]
      at ascii
    obtain ⟨rfl, rfl⟩ := Prod.mk.inj (Option.some.inj unit)
    have form : ofCode a.toNat = [a] := by
      have scalar : isScalar a.toNat = true := by rw [isScalar_iff]; omega
      simp [ofCode, scalar, ascii.2]
    rw [← form]
    refine ⟨Nat.zero_le _, .scalar (by rw [isScalar_iff]; omega) ?_⟩
    have positive : a.toNat ≠ 0 := fun zero => ascii.1 (UInt8.toNat_inj.mp zero)
    simp [encodeCode, positive, ascii.2]
  · split at unit
    · split at unit
      · rename_i b after
        split at unit
        · obtain ⟨rfl, rfl⟩ := Prod.mk.inj (Option.some.inj unit)
          exact ⟨by simp, decodesTo_two⟩
        · cases unit
      · cases unit
    · split at unit
      · rename_i lead
        split at unit
        · rename_i b c after
          split at unit
          · rename_i continues
            rw [Bool.and_eq_true] at continues
            have three := decodesTo_three lead continues.1 continues.2
            split at unit
            · rename_i d e f rest
              split at unit
              · rename_i pair
                rw [Bool.and_eq_true] at pair
                obtain ⟨rfl, rfl⟩ := Prod.mk.inj (Option.some.inj unit)
                exact ⟨by simp, decodesTo_pair pair.1 pair.2⟩
              · obtain ⟨rfl, rfl⟩ := Prod.mk.inj (Option.some.inj unit)
                exact ⟨by simp, three⟩
            · obtain ⟨rfl, rfl⟩ := Prod.mk.inj (Option.some.inj unit)
              exact ⟨by simp, three⟩
          · cases unit
        · cases unit
      · cases unit

/-- A decoded unit is encoded by itself. -/
theorem DecodesTo.encode {taken : Nat} {text : Text} (decodes : DecodesTo taken text) :
    ∃ bytes : Bytes, bytes.length ≤ taken + 1 ∧
      ∀ after, ModifiedUtf8.encode (text ++ after) = bytes ++ ModifiedUtf8.encode after := by
  cases decodes with
  | scalar scalar short => exact ⟨_, short, encode_ofCode scalar⟩
  | half half three => exact ⟨_, by simp [three], encode_half half⟩

/-- What stored bytes decode to is put behind what was decoded before. -/
theorem decodeOnto_eq (bytes : Bytes) (out : Text) :
    decodeOnto out bytes = (decode? bytes).map fun text => out.reverse ++ text := by
  induction length : bytes.length using Nat.strongRecOn generalizing bytes out with
  | ind n inductionHypothesis =>
      cases bytes with
      | nil => simp [decode?, decodeOnto]
      | cons a rest =>
          rw [decode?, decodeOnto, decodeOnto]
          split
          · rename_i text taken unit
            have shorter : (rest.drop taken).length < n := by
              rw [← length, List.length_drop, List.length_cons]
              omega
            have step (front : Bytes) := inductionHypothesis _ shorter _ front rfl
            simp only [step, Option.map_map]
            congr 1
            funext rest
            simp
          · rfl

/-- What decodes is a unit and what decodes after it. -/
theorem decode?_cons {a : UInt8} {rest : Bytes} {text : Text}
    (decoded : decode? (a :: rest) = some text) :
    ∃ unit taken after, decodeUnit? a rest = some (unit, taken) ∧
      decode? (rest.drop taken) = some after ∧ text = unit ++ after := by
  rw [decode?, decodeOnto] at decoded
  split at decoded
  · rename_i unit taken found
    rw [decodeOnto_eq, Option.map_eq_some_iff] at decoded
    obtain ⟨after, others, rfl⟩ := decoded
    exact ⟨unit, taken, after, found, others, by simp⟩
  · cases decoded

/-- What encodes a decoded text is no longer than what it was decoded from. -/
theorem length_encode_le {bytes : Bytes} {text : Text} (decoded : decode? bytes = some text) :
    (encode text).length ≤ bytes.length := by
  induction length : bytes.length using Nat.strongRecOn generalizing bytes text with
  | ind n inductionHypothesis =>
      cases bytes with
      | nil =>
          obtain rfl : [] = text := by simpa [decode?, decodeOnto] using decoded
          simp [encode, encodeOnto]
      | cons a rest =>
          obtain ⟨unit, taken, after, found, others, rfl⟩ := decode?_cons decoded
          obtain ⟨inside, decodes⟩ := decodesTo_of_decodeUnit found
          obtain ⟨bytes, short, encodes⟩ := decodes.encode
          have remaining := List.length_drop (i := taken) (l := rest)
          have shorter := inductionHypothesis _
            (by rw [remaining, ← length, List.length_cons]; omega) others rfl
          rw [encodes, List.length_append, ← length, List.length_cons]
          omega

end ModifiedUtf8

end JvmClass
