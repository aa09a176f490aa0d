import JvmClass.Proofs.Text.Spelling

/-!
# Reading any text back

A text that is no UTF-8 is not read back as it was, but it is read back: every text is stored as
bytes that decode, and none comes to spell an ASCII text that it did not spell before.
-/

namespace JvmClass

namespace Text

/-- A piece that is a code point is its first byte, or lies past ASCII. -/
theorem firstPiece_scalar {a : UInt8} {rest : Text} {code taken : Nat}
    (piece : firstPiece a rest = (.scalar code, taken)) :
    (a.toNat < 0x80 ∧ code = a.toNat ∧ taken = 0) ∨ (isScalar code = true ∧ 0x80 ≤ code) := by
  simp only [firstPiece, UInt8.lt_iff_toNat_lt, UInt8.reduceToNat] at piece
  split at piece
  · rename_i small
    obtain ⟨same, rfl⟩ := Prod.mk.inj piece
    exact .inl ⟨small, (Piece.scalar.inj same).symm, rfl⟩
  split at piece
  · cases piece
  split at piece
  · rename_i low high
    split at piece
    · split at piece
      · obtain ⟨same, -⟩ := Prod.mk.inj piece
        obtain rfl := Piece.scalar.inj same
        right
        rw [isScalar_iff, toNat_and_31, low6_eq]
        omega
      · cases piece
    · cases piece
  split at piece
  · split at piece
    · split at piece
      · rename_i whole
        obtain ⟨same, -⟩ := Prod.mk.inj piece
        obtain rfl := Piece.scalar.inj same
        simp only [Bool.and_eq_true, decide_eq_true_eq] at whole
        exact .inr ⟨whole.2, by omega⟩
      · cases piece
    · cases piece
  split at piece
  · split at piece
    · split at piece
      · rename_i whole
        obtain ⟨same, -⟩ := Prod.mk.inj piece
        obtain rfl := Piece.scalar.inj same
        simp only [Bool.and_eq_true, decide_eq_true_eq] at whole
        exact .inr ⟨whole.2, by omega⟩
      · cases piece
    · cases piece
  · cases piece

/-- A code point past ASCII has bytes past ASCII. -/
theorem ofCode_high {code : Nat} (scalar : isScalar code = true) (high : 0x80 ≤ code) :
    ∃ b ∈ ofCode code, 0x80 ≤ b.toNat := by
  have range := (isScalar_iff code).mp scalar
  have plain : ¬code < 0x80 := by omega
  simp only [ofCode, scalar, ↓reduceIte, plain]
  split
  · exact ⟨_, List.mem_cons_self .., by rw [toNat_toUInt8]; omega⟩
  · split <;> exact ⟨_, List.mem_cons_self .., by rw [toNat_toUInt8]; omega⟩

end Text

namespace ModifiedUtf8

open Text

/-- What the first unit of a text is stored as. -/
inductive EncodesAs (a : UInt8) (rest : Text) : Bytes → Nat → Prop
  | ascii (small : a.toNat < 0x80) : EncodesAs a rest (encodeCode a.toNat) 0
  | high {code taken : Nat} (beyond : 0x80 ≤ a.toNat) (scalar : isScalar code = true)
      (high : 0x80 ≤ code) : EncodesAs a rest (encodeCode code) taken
  | half {b c : UInt8} {after : Text} (form : rest = b :: c :: after) (half : IsHalf a b c) :
      EncodesAs a rest [a, b, c] 2

/-- The first unit of a text is stored in one of the forms: a code point in its shortest form or as
two halves, or half of a pair as it is. -/
theorem encodesAs (a : UInt8) (rest : Text) :
    EncodesAs a rest (encodeUnit a rest).1 (encodeUnit a rest).2 := by
  unfold encodeUnit
  by_cases small : a.toNat < 0x80
  · have piece : firstPiece a rest = (.scalar a.toNat, 0) := by
      simp [firstPiece, UInt8.lt_iff_toNat_lt, small]
    rw [piece]
    exact .ascii small
  · have beyond := Nat.not_lt.mp small
    have replaced : EncodesAs a rest (encodeCode 0xFFFD) 0 := .high beyond (by decide) (by decide)
    split
    · rename_i code taken piece
      rcases firstPiece_scalar piece with ⟨small', -⟩ | ⟨scalar, high⟩
      · exact absurd small' small
      · exact .high beyond scalar high
    · split
      · rename_i b c after piece
        split
        · rename_i form
          simp only [Bool.and_eq_true] at form
          have middle : 0xA0 ≤ b.toNat ∧ b.toNat < 0xC0 :=
            forall_byte (p := fun b => (b &&& 0xE0 == 0xA0) = true →
              0xA0 ≤ b.toNat ∧ b.toNat < 0xC0)
              (by decide +kernel) b form.1.2
          exact .half rfl ⟨eq_of_beq form.1.1, middle, form.2⟩
        · exact replaced
      · exact replaced

/-- Stored text that starts with the second half of a pair is a text that does. -/
theorem encode_of_startsLow {text : Text} (low : StartsLow (encode text)) :
    ∃ d e f rest, text = d :: e :: f :: rest ∧ encode text = [d, e, f] ++ encode rest ∧
      isLowForm d e f = true := by
  cases text with
  | nil =>
      obtain ⟨d, e, f, rest, same, -⟩ := low
      simp [encode, encodeOnto] at same
  | cons a rest =>
      rcases unit : encodeUnit a rest with ⟨bytes, taken⟩
      have kind := encodesAs a rest
      rw [unit] at kind
      rw [encode_cons unit] at low ⊢
      cases kind with
      | ascii small =>
          have scalar : isScalar a.toNat = true := (isScalar_iff _).mpr (.inl (by omega))
          exact absurd low (not_startsLow_encodeCode scalar _)
      | high _ scalar => exact absurd low (not_startsLow_encodeCode scalar _)
      | @half b c after form half =>
          subst form
          exact ⟨a, b, c, after, rfl, rfl, startsLow_cons.mp low⟩

/-- The bytes of a half have the code of a surrogate. -/
theorem isHalf_surrogate {a b c : UInt8} (half : IsHalf a b c) :
    isSurrogate (code3 a b c) = true := by
  have lead : a.toNat = 0xED := by rw [half.lead]; rfl
  have high := half.high
  rw [isSurrogate_iff, code3, toNat_and_15, low6_eq, low6_eq, lead]
  omega

/-- A pair joins to a code point past ASCII. -/
theorem joinPair_scalar {high : Nat} (first : isHigh high = true) {d e f : UInt8}
    (second : isLowForm d e f = true) :
    isScalar (joinPair high e f) = true ∧ 0x80 ≤ joinPair high e f := by
  simp only [isHigh, Bool.and_eq_true, decide_eq_true_eq] at first
  rw [isLowForm_iff] at second
  have range : 0x10000 ≤ joinPair high e f ∧ joinPair high e f < 0x110000 := by
    unfold joinPair
    rw [low6_eq, low6_eq]
    constructor
    · omega
    · omega
  exact ⟨(isScalar_iff _).mpr (.inr ⟨by omega, range.2⟩), by omega⟩

/-- Every text is read back as some text, which is the same if either is an ASCII text. -/
theorem exists_decode?_encode (text : Text) : ∃ stored, decode? (encode text) = some stored ∧
    ((∀ b ∈ stored, b.toNat < 0x80) ∨ (∀ b ∈ text, b.toNat < 0x80) → stored = text) := by
  induction length : text.length using Nat.strongRecOn generalizing text with
  | ind n inductionHypothesis =>
      cases text with
      | nil => exact ⟨[], by simp [encode, encodeOnto, decode?, decodeOnto], fun _ => rfl⟩
      | cons a rest =>
          rcases unit : encodeUnit a rest with ⟨bytes, taken⟩
          have kind := encodesAs a rest
          rw [unit] at kind
          have shorter : (rest.drop taken).length < n := by
            rw [← length, List.length_drop, List.length_cons]
            omega
          obtain ⟨after, decoded, plain⟩ := inductionHypothesis _ shorter _ rfl
          -- A code point, whatever comes after it.
          have scalar {code : Nat} (scalar : isScalar code = true) (more : Text) {stored : Text}
              (decoded : decode? (encode more) = some stored) :
              decode? (encodeCode code ++ encode more) = some (ofCode code ++ stored) := by
            obtain ⟨first, tail, form, decodes⟩ := decodeUnit_encodeCode scalar (encode more)
            rw [form, List.cons_append, decode?_unit decodes, List.drop_left, decoded]
            rfl
          -- A byte past ASCII on either side leaves nothing to show.
          have past {front stored : Text} {b : UInt8} (member : b ∈ front) (high : 0x80 ≤ b.toNat)
              (beyond : 0x80 ≤ a.toNat) (ascii : (∀ b ∈ front ++ stored, b.toNat < 0x80) ∨
                ∀ b ∈ a :: rest, b.toNat < 0x80) : front ++ stored = a :: rest := by
            rcases ascii with ascii | ascii
            · exact absurd (ascii b (List.mem_append_left _ member)) (Nat.not_lt.mpr high)
            · exact absurd (ascii a (List.mem_cons_self ..)) (Nat.not_lt.mpr beyond)
          rw [encode_cons unit]
          cases kind with
          | ascii small =>
              have isCode : isScalar a.toNat = true := (isScalar_iff _).mpr (.inl (by omega))
              have itself : ofCode a.toNat = [a] := by simp [ofCode, isCode, small]
              refine ⟨_, scalar isCode _ decoded, fun ascii => ?_⟩
              rw [itself] at ascii ⊢
              rw [plain (ascii.imp (fun all b member => all b (List.mem_append_right _ member))
                fun all b member => all b (List.mem_cons_of_mem _ member))]
              rfl
          | high beyond isCode high =>
              obtain ⟨b, member, high⟩ := ofCode_high isCode high
              exact ⟨_, scalar isCode _ decoded, past member high beyond⟩
          | @half b c more form half =>
              subst form
              have drops : (b :: c :: more).drop 2 = more := rfl
              rw [drops] at decoded shorter
              have lead : 0xE0 ≤ a.toNat ∧ a.toNat < 0xF0 := by rw [half.lead]; decide
              have continues : isContinuation b = true := by
                have high := half.high
                rw [isContinuation_iff]
                omega
              by_cases joined : isHigh (code3 a b c) = true ∧ StartsLow (encode more)
              · obtain ⟨high, low⟩ := joined
                obtain ⟨d, e, f, beyond, rfl, form, isLow⟩ := encode_of_startsLow low
                obtain ⟨stored, decoded', -⟩ := inductionHypothesis beyond.length
                  (by simp only [List.length_cons] at shorter; omega) beyond rfl
                have decodes := decodeUnit_pair (r := encode beyond) lead continues half.continues
                  high isLow
                obtain ⟨isCode, large⟩ := joinPair_scalar high isLow
                obtain ⟨byte, member, large⟩ := ofCode_high isCode large
                refine ⟨_ ++ stored, ?_, past member large (by omega)⟩
                rw [drops, form]
                change decode? (a :: b :: c :: d :: e :: f :: encode beyond) = _
                rw [decode?_unit decodes]
                change (decode? (encode beyond)).map _ = _
                rw [decoded']
                rfl
              · have decodes := decodeUnit_three (r := encode more) lead continues half.continues
                  fun high low => joined ⟨high, low⟩
                rw [if_pos (isHalf_surrogate half)] at decodes
                refine ⟨[a, b, c] ++ after, ?_,
                  past (List.mem_cons_self ..) (by omega) (by omega)⟩
                rw [drops]
                change decode? (a :: b :: c :: encode more) = _
                rw [decode?_unit decodes]
                change (decode? (encode more)).map _ = _
                rw [decoded]
                rfl

end ModifiedUtf8

/-! ## UTF-8 -/

namespace Text

/-- A piece that is a code point is its form. -/
theorem firstPiece_form {a : UInt8} {rest : Text} {code taken : Nat}
    (piece : firstPiece a rest = (.scalar code, taken)) :
    isScalar code = true ∧ ofCode code ++ rest.drop taken = a :: rest := by
  have byte {n : Nat} {b : UInt8} (small : n = b.toNat) : n.toUInt8 = b :=
    UInt8.toNat_inj.mp (by rw [toNat_toUInt8, small, Nat.mod_eq_of_lt b.toNat_lt])
  have bound := a.toNat_lt
  simp only [firstPiece, UInt8.lt_iff_toNat_lt, UInt8.reduceToNat] at piece
  split at piece
  · rename_i small
    obtain ⟨same, rfl⟩ := Prod.mk.inj piece
    obtain rfl := Piece.scalar.inj same
    have scalar : isScalar a.toNat = true := (isScalar_iff _).mpr (.inl (by omega))
    refine ⟨scalar, ?_⟩
    simp [ofCode, scalar, small, byte rfl]
  split at piece
  · cases piece
  split at piece
  · split at piece
    · rename_i low high _ d more
      split at piece
      · rename_i continues
        obtain ⟨same, rfl⟩ := Prod.mk.inj piece
        obtain rfl := Piece.scalar.inj same
        rw [isContinuation_iff] at continues
        rw [toNat_and_31, low6_eq]
        generalize value : a.toNat % 32 * 64 + d.toNat % 64 = code
        have scalar : isScalar code = true := (isScalar_iff _).mpr (.inl (by omega))
        refine ⟨scalar, ?_⟩
        simp only [ofCode, scalar, ↓reduceIte]
        rw [if_neg (by omega), if_pos (by omega), byte (b := a) (by omega),
          byte (b := d) (by omega)]
        rfl
      · cases piece
    · cases piece
  split at piece
  · split at piece
    · rename_i low high _ d e more
      split at piece
      · rename_i whole
        obtain ⟨same, rfl⟩ := Prod.mk.inj piece
        obtain rfl := Piece.scalar.inj same
        simp only [Bool.and_eq_true, decide_eq_true_eq, isContinuation_iff, toNat_and_15, low6_eq]
          at whole
        rw [toNat_and_15, low6_eq, low6_eq]
        generalize value : a.toNat % 16 * 4096 + d.toNat % 64 * 64 + e.toNat % 64 = code at whole
        obtain ⟨⟨⟨second, third⟩, long⟩, scalar⟩ := whole
        refine ⟨scalar, ?_⟩
        simp only [ofCode, scalar, ↓reduceIte]
        rw [if_neg (by omega), if_neg (by omega), if_pos (by omega), byte (b := a) (by omega),
          byte (b := d) (by omega), byte (b := e) (by omega)]
        rfl
      · cases piece
    · cases piece
  split at piece
  · split at piece
    · rename_i low high _ d e f more
      split at piece
      · rename_i whole
        obtain ⟨same, rfl⟩ := Prod.mk.inj piece
        obtain rfl := Piece.scalar.inj same
        simp only [Bool.and_eq_true, decide_eq_true_eq, isContinuation_iff, toNat_and_7, low6_eq]
          at whole
        rw [toNat_and_7, low6_eq, low6_eq, low6_eq]
        generalize value : a.toNat % 8 * 262144 + d.toNat % 64 * 4096 + e.toNat % 64 * 64 +
          f.toNat % 64 = code at whole
        obtain ⟨⟨⟨⟨second, third⟩, fourth⟩, long⟩, scalar⟩ := whole
        refine ⟨scalar, ?_⟩
        simp only [ofCode, scalar, ↓reduceIte]
        rw [if_neg (by omega), if_neg (by omega), if_neg (by omega), byte (b := a) (by omega),
          byte (b := d) (by omega), byte (b := e) (by omega), byte (b := f) (by omega)]
        rfl
      · cases piece
    · cases piece
  · cases piece

/-- What a text is cut into is put behind what was cut before. -/
theorem piecesOnto_eq (text : Text) (out : List Piece) :
    piecesOnto out text = out.reverse ++ pieces text := by
  induction length : text.length using Nat.strongRecOn generalizing text out with
  | ind n inductionHypothesis =>
      cases text with
      | nil => simp [pieces, piecesOnto]
      | cons a rest =>
          have shorter : (rest.drop (firstPiece a rest).2).length < n := by
            rw [← length, List.length_drop, List.length_cons]
            omega
          have step (front : List Piece) := inductionHypothesis _ shorter _ front rfl
          rw [pieces, piecesOnto, piecesOnto]
          simp only [step, List.reverse_cons, List.reverse_nil, List.append_assoc, List.nil_append]

/-- UTF-8 starts with the form of a code point. -/
theorem form_of_isUtf8 {a : UInt8} {rest : Text} (utf8 : isUtf8 (a :: rest) = true) :
    ∃ code after, isScalar code = true ∧ a :: rest = ofCode code ++ after ∧
      after.length ≤ rest.length ∧ isUtf8 after = true := by
  rcases piece : firstPiece a rest with ⟨first, taken⟩
  rw [isUtf8, pieces, piecesOnto] at utf8
  simp only [piece, piecesOnto_eq, List.reverse_singleton, List.singleton_append, List.all_cons,
    Bool.and_eq_true] at utf8
  cases first with
  | stray b => cases utf8.1
  | scalar code =>
      obtain ⟨scalar, form⟩ := firstPiece_form piece
      exact ⟨code, _, scalar, form.symm, by simp, utf8.2⟩

/-- UTF-8 is read back as it was. -/
theorem decode?_encode_of_isUtf8 {text : Text} (utf8 : text.isUtf8 = true) :
    ModifiedUtf8.decode? (ModifiedUtf8.encode text) = some text := by
  induction length : text.length using Nat.strongRecOn generalizing text with
  | ind n inductionHypothesis =>
      cases text with
      | nil => simp [ModifiedUtf8.encode, ModifiedUtf8.encodeOnto, ModifiedUtf8.decode?,
          ModifiedUtf8.decodeOnto]
      | cons a rest =>
          obtain ⟨code, after, scalar, form, short, utf8⟩ := form_of_isUtf8 utf8
          have shorter : after.length < n := by
            rw [← length, List.length_cons]
            omega
          obtain ⟨first, tail, starts, decodes⟩ :=
            ModifiedUtf8.decodeUnit_encodeCode scalar (ModifiedUtf8.encode after)
          rw [form, ModifiedUtf8.encode_ofCode scalar, starts, List.cons_append,
            ModifiedUtf8.decode?_unit decodes, List.drop_left,
            inductionHypothesis _ shorter utf8 rfl]
          rfl

end Text

end JvmClass
