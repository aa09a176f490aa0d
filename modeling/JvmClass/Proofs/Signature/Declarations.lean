import JvmClass.Proofs.Signature.Reading

/-!
# Reading the signatures of declarations

The readers of type parameters, classes and methods take what their trees are spelled as. A
parameter without bounds is where the grammar needs a look ahead: what follows it must not start
as a bound does. Main statement: reading a whole text ends, with the one proper signature that the
text is the spelling of, or with a refusal where there is none.
-/

namespace JvmClass.Signature

section

variable {s rest : Text}

/-! ## Type parameters -/

/-- A bound is a reference type that can be read. -/
theorem JavaType.isBound_iff {t : JavaType} :
    t.isBound = true ↔ t.isReference = true ∧ t.isProper = true := by
  rw [isBound, Bool.and_eq_true]

/-- The text of a bound, nothing when there is none. -/
def boundText (bound : Option JavaType) : Text := (bound.map (·.text)).getD []

/-- The text of interface bounds. -/
def boundsText (bounds : List JavaType) : Text := bounds.flatMap fun bound => 58 :: bound.text

/-- The bound by a class is read exactly from its text, and is missing where no bound starts. -/
theorem reads_classBound {bound : Option JavaType} : Reads (classBound s) bound rest ↔
    bound.all (·.isBound) = true ∧ s = boundText bound ++ rest ∧
      (bound = none → startsBound rest = false) := by
  constructor
  · intro read
    cases s with
    | nil =>
        rw [classBound] at read
        obtain ⟨rfl, rfl⟩ := reads_ok.mp read
        exact ⟨rfl, rfl, fun _ => rfl⟩
    | cons c s =>
        rw [classBound] at read
        split at read
        · obtain ⟨bound, _, _, taken, read⟩ := read.split
          obtain ⟨rfl, rfl⟩ := reads_pure.mp read
          obtain ⟨reference, proper, spelled⟩ := (spelled _).referenceType.mp taken
          exact ⟨JavaType.isBound_iff.mpr ⟨reference, proper⟩, spelled, fun none => by cases none⟩
        · rename_i other
          obtain ⟨rfl, rfl⟩ := reads_ok.mp read
          exact ⟨rfl, rfl, fun _ => Bool.eq_false_iff.mpr other⟩
  · rintro ⟨proper, rfl, other⟩
    cases bound with
    | none =>
        change Reads (classBound rest) _ _
        cases rest with
        | nil => simp [classBound]
        | cons c rest =>
            have plain : (c = Text.byte 'L' || c = Text.byte 'T' || c = 91) = false := other rfl
            rw [classBound, if_neg (Bool.eq_false_iff.mp plain), reads_ok]
            exact ⟨rfl, rfl⟩
    | some bound =>
        have given := JavaType.isBound_iff.mp proper
        have read := (spelled (bound.text ++ rest)).referenceType.mpr ⟨given.1, given.2, rfl⟩
        obtain ⟨c, tail, text, lead⟩ := bound.text_of_isReference given.1
        have starts : (c = Text.byte 'L' || c = Text.byte 'T' || c = 91) = true := by
          rcases lead with rfl | rfl | rfl <;> decide
        change Reads (classBound (bound.text ++ rest)) _ _
        rw [text, List.cons_append] at read ⊢
        rw [classBound, if_pos starts]
        exact read.join fun _ => reads_pure.mpr ⟨rfl, rfl⟩

/-- Bounds by interfaces are read one after another, as long as a colon stands before the next. -/
theorem repeats_interfaceBounds : Repeats interfaceBounds (·.isBound)
    (fun bound => 58 :: bound.text) (·.head? ≠ some 58) := by
  intro s rest bounds
  constructor
  · intro read
    cases s with
    | nil =>
        rw [interfaceBounds] at read
        obtain ⟨rfl, rfl⟩ := reads_ok.mp read
        exact .inl ⟨rfl, rfl, fun same => by cases same⟩
    | cons c s =>
        rw [interfaceBounds] at read
        split at read
        · rename_i colon
          obtain ⟨bound, s₁, _, first, read⟩ := read.split
          obtain ⟨bounds, _, _, others, read⟩ := read.split
          obtain ⟨rfl, rfl⟩ := reads_pure.mp read
          obtain ⟨reference, proper, rfl⟩ := (spelled _).referenceType.mp first
          exact .inr ⟨bound, bounds, s₁, rfl,
            ⟨JavaType.isBound_iff.mpr ⟨reference, proper⟩, by rw [colon]; rfl⟩, others⟩
        · rename_i other
          obtain ⟨rfl, rfl⟩ := reads_ok.mp read
          exact .inl ⟨rfl, rfl, by simpa using other⟩
  · rintro (⟨rfl, rfl, ends⟩ | ⟨bound, bounds, mid, rfl, ⟨proper, rfl⟩, others⟩)
    · cases s with
      | nil => simp [interfaceBounds]
      | cons c s =>
          rw [interfaceBounds, if_neg (by simpa using ends), reads_ok]
          exact ⟨rfl, rfl⟩
    · have given := JavaType.isBound_iff.mp proper
      rw [List.cons_append, interfaceBounds, if_pos rfl]
      exact ((spelled _).referenceType.mpr ⟨given.1, given.2, rfl⟩).join fun _ =>
        others.join fun _ => reads_pure.mpr ⟨rfl, rfl⟩

/-- Bounds by interfaces are read exactly from their text, up to where no further one starts. -/
theorem reads_interfaceBounds {bounds : List JavaType} : Reads (interfaceBounds s) bounds rest ↔
    bounds.all (·.isBound) = true ∧ s = boundsText bounds ++ rest ∧ rest.head? ≠ some 58 :=
  repeats_interfaceBounds.reads

/-- The text of a type parameter is its name and its bounds, each after a colon. -/
theorem TypeParam.text_eq (p : TypeParam) :
    p.text = p.name ++ 58 :: (boundText p.classBound ++ boundsText p.interfaceBounds) := by
  simp [text, boundText, boundsText]

/-- A type parameter is read exactly from its text, if what follows is no further bound. -/
theorem reads_typeParam {p : TypeParam} : Reads (typeParam s) p rest ↔
    p.isProper = true ∧ s = p.text ++ rest ∧ rest.head? ≠ some 58 ∧
      (p.isBare = true → startsBound rest = false) := by
  rw [typeParam, p.text_eq, TypeParam.isProper, TypeParam.isBare]
  constructor
  · intro read
    obtain ⟨name, s₁, _, named, read⟩ := read.split
    obtain ⟨_, s₂, _, colon, read⟩ := read.split
    obtain ⟨bound, s₃, _, bounded, read⟩ := read.split
    obtain ⟨bounds, _, _, boundedAlso, read⟩ := read.split
    obtain ⟨rfl, rfl⟩ := reads_pure.mp read
    obtain ⟨properName, rfl, -⟩ := reads_identifier.mp named
    obtain rfl := reads_expect.mp colon
    obtain ⟨proper, rfl, other⟩ := reads_classBound.mp bounded
    obtain ⟨properAlso, rfl, ends⟩ := reads_interfaceBounds.mp boundedAlso
    refine ⟨?_, by simp [Text.byte], ends, fun bare => ?_⟩
    · rw [properName, proper, properAlso]
      rfl
    · rw [Bool.and_eq_true, Option.isNone_iff_eq_none, List.isEmpty_iff] at bare
      obtain rfl : bounds = [] := bare.2
      exact other bare.1
  · rintro ⟨proper, rfl, ends, other⟩
    rw [Bool.and_eq_true, Bool.and_eq_true] at proper
    have closes : ∀ b ∈ (58 :: (boundText p.classBound ++ (boundsText p.interfaceBounds ++
        rest))).head?, b ∈ (":<>;/.[" : Text) := by
      rintro b ⟨⟩
      decide
    have follows : p.classBound = none →
        startsBound (boundsText p.interfaceBounds ++ rest) = false := fun none => by
      cases bounds : p.interfaceBounds with
      | nil => exact other (by rw [none, bounds]; rfl)
      | cons bound bounds => simp [startsBound, boundsText, Text.byte]
    rw [List.append_assoc, List.cons_append, List.append_assoc]
    exact (reads_identifier.mpr ⟨proper.1.1, rfl, closes⟩).join fun _ =>
      (reads_expect (u := ()).mpr rfl).join fun _ =>
      (reads_classBound.mpr ⟨proper.1.2, rfl, follows⟩).join fun _ =>
      (reads_interfaceBounds.mpr ⟨proper.2, rfl, ends⟩).join fun _ => reads_pure.mpr ⟨rfl, rfl⟩

/-- A type parameter does not start with the closing bracket. -/
theorem TypeParam.text_of_isProper {p : TypeParam} (proper : p.isProper = true) :
    ∃ c tail, p.text = c :: tail ∧ c ≠ 62 ∧ c ≠ 58 ∧ p.name.head? = some c := by
  simp only [isProper, isName, Bool.and_eq_true] at proper
  obtain ⟨⟨⟨some_, plain⟩, -⟩, -⟩ := proper
  cases form : p.name with
  | nil => simp [form] at some_
  | cons c name =>
      rw [form, List.all_cons, Bool.and_eq_true, decide_eq_true_eq] at plain
      refine ⟨c, _, by rw [p.text_eq, form, List.cons_append], ?_, ?_, rfl⟩
      · rintro rfl
        exact plain.1 (by decide)
      · rintro rfl
        exact plain.1 (by decide)

/-- What follows a type parameter is another one or the closing bracket. -/
theorem head_after_param {ps : List TypeParam} (proper : paramsProper ps = true) (rest : Text) :
    (ps.flatMap (·.text) ++ 62 :: rest).head? ≠ some 58 ∧
      startsBound (ps.flatMap (·.text) ++ 62 :: rest) =
        ps.head?.any fun next => startsBound next.name := by
  cases ps with
  | nil => exact ⟨by simp, by simp [startsBound, Text.byte]⟩
  | cons p ps =>
      rw [paramsProper, Bool.and_eq_true, Bool.and_eq_true] at proper
      obtain ⟨c, tail, text, -, other, named⟩ := p.text_of_isProper proper.1.1
      rw [List.flatMap_cons, text]
      refine ⟨fun colon => other (Option.some.inj colon), ?_⟩
      simp [startsBound, named]

/-- Type parameters up to the closing bracket are read exactly from their text. -/
theorem reads_paramsUntilClose {ps : List TypeParam} : Reads (paramsUntilClose s) ps rest ↔
    paramsProper ps = true ∧ s = ps.flatMap (·.text) ++ 62 :: rest := by
  obtain ⟨n, length⟩ : ∃ n, s.length = n := ⟨_, rfl⟩
  induction n using Nat.strongRecOn generalizing s ps with
  | ind n inductionHypothesis =>
      constructor
      · intro read
        cases s with
        | nil =>
            rw [paramsUntilClose] at read
            exact absurd read not_reads_error
        | cons c s =>
            rw [paramsUntilClose] at read
            split at read
            · rename_i closes
              obtain ⟨rfl, rfl⟩ := reads_ok.mp read
              exact ⟨rfl, by rw [closes]; rfl⟩
            · obtain ⟨p, s₁, less, first, read⟩ := read.split
              obtain ⟨ps, _, _, others, read⟩ := read.split
              obtain ⟨rfl, rfl⟩ := reads_pure.mp read
              obtain ⟨properOthers, rfl⟩ := (inductionHypothesis _ (length ▸ less) rfl).mp others
              obtain ⟨proper, spelled, -, follows⟩ := reads_typeParam.mp first
              rw [(head_after_param properOthers _).2] at follows
              refine ⟨?_, by rw [spelled, List.flatMap_cons, List.append_assoc]⟩
              rw [paramsProper, proper, properOthers]
              cases bare : p.isBare with
              | false => rfl
              | true => rw [follows bare]; rfl
      · rintro ⟨proper, rfl⟩
        cases ps with
        | nil =>
            change Reads (paramsUntilClose (62 :: rest)) _ _
            rw [paramsUntilClose, if_pos rfl, reads_ok]
            exact ⟨rfl, rfl⟩
        | cons p ps =>
            rw [paramsProper, Bool.and_eq_true, Bool.and_eq_true] at proper
            obtain ⟨⟨properFirst, apart⟩, properOthers⟩ := proper
            obtain ⟨ends, starts⟩ := head_after_param properOthers rest
            have follows : p.isBare = true →
                startsBound (ps.flatMap (·.text) ++ 62 :: rest) = false := fun bare => by
              rw [starts]
              simpa [bare] using apart
            have form : (p :: ps).flatMap (·.text) ++ 62 :: rest =
                p.text ++ (ps.flatMap (·.text) ++ 62 :: rest) := by
              rw [List.flatMap_cons, List.append_assoc]
            have read := reads_typeParam.mpr ⟨properFirst, form, ends, follows⟩
            have further := (inductionHypothesis _ (length ▸ read.left) rfl).mpr ⟨properOthers, rfl⟩
            obtain ⟨c, tail, text, other, -⟩ := p.text_of_isProper properFirst
            rw [form, text, List.cons_append] at read ⊢
            rw [paramsUntilClose, if_neg other]
            exact read.join fun _ => further.join fun _ => reads_pure.mpr ⟨rfl, rfl⟩

/-- Type parameters are read exactly from their text, and there are none where no bracket opens. -/
theorem reads_typeParams {ps : List TypeParam} : Reads (typeParams s) ps rest ↔
    paramsProper ps = true ∧ s = paramsText ps ++ rest ∧ (ps = [] → rest.head? ≠ some 60) := by
  constructor
  · intro read
    cases s with
    | nil =>
        rw [typeParams] at read
        obtain ⟨rfl, rfl⟩ := reads_ok.mp read
        exact ⟨rfl, rfl, fun _ same => by cases same⟩
    | cons c s =>
        rw [typeParams] at read
        split at read
        · rename_i opens
          obtain ⟨items, _, _, taken, read⟩ := read.split
          obtain ⟨nonempty, rfl, rfl⟩ := reads_nonempty.mp read
          obtain ⟨proper, rfl⟩ := reads_paramsUntilClose.mp taken
          refine ⟨proper, ?_, fun empty => absurd empty nonempty⟩
          simp [paramsText, nonempty, opens]
        · rename_i other
          obtain ⟨rfl, rfl⟩ := reads_ok.mp read
          exact ⟨rfl, rfl, fun _ => by simpa using other⟩
  · rintro ⟨proper, rfl, other⟩
    cases ps with
    | nil =>
        change Reads (typeParams rest) _ _
        cases rest with
        | nil => simp [typeParams]
        | cons c rest =>
            rw [typeParams, if_neg (by simpa using other), reads_ok]
            exact ⟨rfl, rfl⟩
    | cons p ps =>
        have form : paramsText (p :: ps) ++ rest =
            60 :: ((p :: ps).flatMap (·.text) ++ 62 :: rest) := by
          simp [paramsText]
        rw [form, typeParams, if_pos rfl]
        exact (reads_paramsUntilClose.mpr ⟨proper, rfl⟩).join fun _ =>
          reads_nonempty.mpr ⟨List.cons_ne_nil _ _, rfl, rfl⟩

/-! ## Classes and methods -/

/-- Class types are read one after another up to the end of the text. -/
theorem repeats_classTypes : Repeats classTypes (·.isProper) (·.text) (· = []) := by
  intro s rest types
  constructor
  · intro read
    cases s with
    | nil =>
        rw [classTypes] at read
        obtain ⟨rfl, rfl⟩ := reads_ok.mp read
        exact .inl ⟨rfl, rfl, rfl⟩
    | cons c s =>
        rw [classTypes] at read
        obtain ⟨type, s₁, _, first, read⟩ := read.split
        obtain ⟨types, _, _, others, read⟩ := read.split
        obtain ⟨rfl, rfl⟩ := reads_pure.mp read
        exact .inr ⟨type, types, s₁, rfl, (spelled _).classType.mp first, others⟩
  · rintro (⟨rfl, rfl, rfl⟩ | ⟨type, types, mid, rfl, ⟨proper, rfl⟩, others⟩)
    · simp [classTypes]
    · have read := (spelled (type.text ++ mid)).classType.mpr ⟨proper, rfl⟩
      have form : type.text ++ mid = 76 :: (type.body ++ [59] ++ mid) := by
        rw [ClassType.text, JavaType.text]
        rfl
      rw [form] at read ⊢
      rw [classTypes]
      exact read.join fun _ => others.join fun _ => reads_pure.mpr ⟨rfl, rfl⟩

/-- Class types up to the end are read exactly from their text. -/
theorem reads_classTypes {types : List ClassType} : Reads (classTypes s) types rest ↔
    types.all (·.isProper) = true ∧ s = types.flatMap (·.text) ∧ rest = [] :=
  repeats_classTypes.reads.trans <| and_congr_right fun _ => and_congr_left fun ends => by
    rw [ends, List.append_nil]

/-- A type does not start with the closing parenthesis. -/
theorem JavaType.text_of_isProper {t : JavaType} (proper : t.isProper = true) :
    ∃ c tail, t.text = c :: tail ∧ c ≠ 41 ∧ c ≠ Text.byte 'V' := by
  cases reference : t.isReference with
  | true =>
      obtain ⟨c, tail, text, lead⟩ := t.text_of_isReference reference
      exact ⟨c, tail, text, by rcases lead with rfl | rfl | rfl <;> decide⟩
  | false =>
      cases t with
      | base letter =>
          have among : letter ∈ baseLetters := of_decide_eq_true proper
          refine ⟨letter, [], rfl, ?_, ?_⟩
          · rintro rfl
            exact absurd among (by decide)
          · rintro rfl
            exact absurd among (by decide)
      | _ => cases reference

/-- Types are read one after another up to the closing parenthesis. -/
theorem repeats_typesUntilClose :
    Repeats typesUntilClose (·.isProper) (·.text) (·.head? = some 41) := by
  intro s rest types
  rw [typesUntilClose]
  constructor
  · intro read
    split at read
    · rename_i closes
      obtain ⟨rfl, rfl⟩ := reads_ok.mp read
      exact .inl ⟨rfl, rfl, closes⟩
    · obtain ⟨type, s₁, _, first, read⟩ := read.split
      obtain ⟨types, _, _, others, read⟩ := read.split
      obtain ⟨rfl, rfl⟩ := reads_pure.mp read
      exact .inr ⟨type, types, s₁, rfl, (spelled _).javaType.mp first, others⟩
  · rintro (⟨rfl, rfl, closes⟩ | ⟨type, types, mid, rfl, ⟨proper, rfl⟩, others⟩)
    · rw [if_pos closes, reads_ok]
      exact ⟨rfl, rfl⟩
    · have open_ : ¬(type.text ++ mid).head? = some 41 := by
        obtain ⟨c, tail, text, other, -⟩ := type.text_of_isProper proper
        rw [text]
        exact fun same => other (Option.some.inj same)
      rw [if_neg open_]
      exact ((spelled _).javaType.mpr ⟨proper, rfl⟩).join fun _ =>
        others.join fun _ => reads_pure.mpr ⟨rfl, rfl⟩

/-- The type of a result is read exactly from its text. -/
theorem reads_resultType {t : JavaType} :
    Reads (resultType s) t rest ↔ t.isResult = true ∧ s = t.text ++ rest := by
  constructor
  · intro read
    cases s with
    | nil =>
        rw [resultType] at read
        exact absurd read not_reads_error
    | cons c s =>
        rw [resultType] at read
        split at read
        · rename_i none
          obtain ⟨rfl, rfl⟩ := reads_ok.mp read
          exact ⟨by simp [JavaType.isResult, JavaType.isVoid, none], rfl⟩
        · obtain ⟨proper, spelled⟩ := (spelled _).javaType.mp read
          exact ⟨by rw [JavaType.isResult, proper, Bool.true_or], spelled⟩
  · rintro ⟨result, rfl⟩
    cases proper : t.isProper with
    | true =>
        have read := (spelled (t.text ++ rest)).javaType.mpr ⟨proper, rfl⟩
        obtain ⟨c, tail, text, -, other⟩ := t.text_of_isProper proper
        rw [text, List.cons_append] at read ⊢
        rw [resultType, if_neg other]
        exact read
    | false =>
        rw [JavaType.isResult, proper, Bool.false_or] at result
        cases t with
        | base letter =>
            change Reads (resultType (letter :: rest)) _ _
            rw [resultType, if_pos (of_decide_eq_true result), reads_ok]
            exact ⟨rfl, rfl⟩
        | _ => cases result

/-- A thrown type is read exactly from its text. -/
theorem reads_thrownType {t : JavaType} : Reads (thrownType s) t rest ↔
    (t.isThrowable && t.isProper) = true ∧ s = t.text ++ rest := by
  rw [thrownType, Bool.and_eq_true]
  constructor
  · intro read
    split at read
    · obtain ⟨name, rfl, proper, spelled⟩ := reads_typeVar.mp read
      exact ⟨⟨rfl, proper⟩, spelled⟩
    · obtain ⟨type, _, _, taken, read⟩ := read.split
      obtain ⟨rfl, rfl⟩ := reads_pure.mp read
      obtain ⟨proper, spelled⟩ := (spelled _).classType.mp taken
      exact ⟨⟨rfl, proper⟩, spelled⟩
  · rintro ⟨⟨throwable, proper⟩, rfl⟩
    cases t with
    | base letter => cases throwable
    | array component => cases throwable
    | var name =>
        rw [if_pos (show ((JavaType.var name).text ++ rest).head? = some (Text.byte 'T')
          from rfl)]
        exact reads_typeVar.mpr ⟨name, rfl, proper, rfl⟩
    | «class» type =>
        rw [if_neg (by simp [JavaType.text, Text.byte])]
        exact ((spelled _).classType.mpr ⟨proper, rfl⟩).join fun _ => reads_pure.mpr ⟨rfl, rfl⟩

/-- Thrown types are read one after another, as long as their mark stands before the next. -/
theorem repeats_thrownTypes : Repeats thrownTypes (fun type => type.isThrowable && type.isProper)
    (fun type => 94 :: type.text) (·.head? ≠ some 94) := by
  intro s rest types
  constructor
  · intro read
    cases s with
    | nil =>
        rw [thrownTypes] at read
        obtain ⟨rfl, rfl⟩ := reads_ok.mp read
        exact .inl ⟨rfl, rfl, fun same => by cases same⟩
    | cons c s =>
        rw [thrownTypes] at read
        split at read
        · rename_i caret
          obtain ⟨type, s₁, _, first, read⟩ := read.split
          obtain ⟨types, _, _, others, read⟩ := read.split
          obtain ⟨rfl, rfl⟩ := reads_pure.mp read
          obtain ⟨proper, rfl⟩ := reads_thrownType.mp first
          exact .inr ⟨type, types, s₁, rfl, ⟨proper, by rw [caret]; rfl⟩, others⟩
        · rename_i other
          obtain ⟨rfl, rfl⟩ := reads_ok.mp read
          exact .inl ⟨rfl, rfl, by simpa using other⟩
  · rintro (⟨rfl, rfl, ends⟩ | ⟨type, types, mid, rfl, ⟨proper, rfl⟩, others⟩)
    · cases s with
      | nil => simp [thrownTypes]
      | cons c s =>
          rw [thrownTypes, if_neg (by simpa using ends), reads_ok]
          exact ⟨rfl, rfl⟩
    · rw [List.cons_append, thrownTypes, if_pos rfl]
      exact (reads_thrownType.mpr ⟨proper, rfl⟩).join fun _ =>
        others.join fun _ => reads_pure.mpr ⟨rfl, rfl⟩

/-- The text of thrown types. -/
def throwsText (types : List JavaType) : Text := types.flatMap fun type => 94 :: type.text

/-- Thrown types are read exactly from their text, up to where no further one starts. -/
theorem reads_thrownTypes {types : List JavaType} : Reads (thrownTypes s) types rest ↔
    (types.all fun type => type.isThrowable && type.isProper) = true ∧
      s = throwsText types ++ rest ∧ rest.head? ≠ some 94 :=
  repeats_thrownTypes.reads

/-- The text of a class signature is that of its parts in a row. -/
theorem ClassSig.text_eq (sig : ClassSig) : sig.text =
    paramsText sig.typeParams ++ (sig.superclass.text ++ sig.interfaces.flatMap (·.text)) := by
  rw [text, List.append_assoc]

/-- A class signature is read exactly from its text. -/
theorem reads_classSig {sig : ClassSig} :
    Reads (classSig s) sig [] ↔ sig.isProper = true ∧ s = sig.text := by
  rw [classSig, sig.text_eq, ClassSig.isProper, Bool.and_eq_true, Bool.and_eq_true]
  constructor
  · intro read
    obtain ⟨params, s₁, _, declared, read⟩ := read.split
    obtain ⟨superclass, s₂, _, given, read⟩ := read.split
    obtain ⟨interfaces, s₃, _, others, read⟩ := read.split
    obtain ⟨rfl, rfl⟩ := reads_pure.mp read
    obtain ⟨properParams, rfl, -⟩ := reads_typeParams.mp declared
    obtain ⟨proper, rfl⟩ := (spelled _).classType.mp given
    obtain ⟨properOthers, rfl, -⟩ := reads_classTypes.mp others
    exact ⟨⟨⟨properParams, proper⟩, properOthers⟩, rfl⟩
  · rintro ⟨⟨⟨properParams, proper⟩, properOthers⟩, rfl⟩
    have opens : (sig.superclass.text ++ sig.interfaces.flatMap (·.text)).head? ≠ some 60 := by
      simp [ClassType.text, JavaType.text, Text.byte]
    exact (reads_typeParams.mpr ⟨properParams, rfl, fun _ => opens⟩).join fun _ =>
      ((spelled _).classType.mpr ⟨proper, rfl⟩).join fun _ =>
      (reads_classTypes.mpr ⟨properOthers, rfl, rfl⟩).join fun _ => reads_pure.mpr ⟨rfl, rfl⟩

/-- The text of a method signature is that of its parts in a row, the parameters in parentheses. -/
theorem MethodSig.text_eq (sig : MethodSig) : sig.text =
    paramsText sig.typeParams ++ 40 :: (sig.params.flatMap (·.text) ++
      41 :: (sig.result.text ++ throwsText sig.throws)) := by
  simp [text, throwsText]

/-- A method signature is read exactly from its text. -/
theorem reads_methodSig {sig : MethodSig} :
    Reads (methodSig s) sig [] ↔ sig.isProper = true ∧ s = sig.text := by
  rw [methodSig, sig.text_eq, MethodSig.isProper, Bool.and_eq_true, Bool.and_eq_true,
    Bool.and_eq_true]
  constructor
  · intro read
    obtain ⟨declared, s₁, _, params, read⟩ := read.split
    obtain ⟨_, s₂, _, opened, read⟩ := read.split
    obtain ⟨types, s₃, _, given, read⟩ := read.split
    obtain ⟨_, s₄, _, closed, read⟩ := read.split
    obtain ⟨result, s₅, _, returned, read⟩ := read.split
    obtain ⟨throws, s₆, _, thrown, read⟩ := read.split
    obtain ⟨rfl, rfl⟩ := reads_pure.mp read
    obtain ⟨properParams, rfl, -⟩ := reads_typeParams.mp params
    obtain rfl := reads_expect.mp opened
    obtain rfl := reads_expect.mp closed
    obtain ⟨proper, rfl, -⟩ := repeats_typesUntilClose.reads.mp given
    obtain ⟨properResult, rfl⟩ := reads_resultType.mp returned
    obtain ⟨properThrows, rfl, -⟩ := reads_thrownTypes.mp thrown
    exact ⟨⟨⟨⟨properParams, proper⟩, properResult⟩, properThrows⟩, by simp [Text.byte]⟩
  · rintro ⟨⟨⟨⟨properParams, proper⟩, properResult⟩, properThrows⟩, rfl⟩
    refine (reads_typeParams.mpr ⟨properParams, rfl, fun _ => by simp⟩).join fun _ =>
      (reads_expect (u := ()).mpr rfl).join fun _ =>
      (repeats_typesUntilClose.reads.mpr ⟨proper, rfl, rfl⟩).join fun _ =>
      (reads_expect (u := ()).mpr rfl).join fun _ =>
      (reads_resultType.mpr ⟨properResult, rfl⟩).join fun _ =>
      (reads_thrownTypes.mpr
        ⟨properThrows, (List.append_nil _).symm, fun same => by cases same⟩).join fun _ =>
      reads_pure.mpr ⟨rfl, rfl⟩

/-! ## Whole texts -/

/-- A text reads as a type exactly when it is the text of that type, and the type is proper. -/
theorem parseType_eq_ok_iff {t : JavaType} :
    parseType s = .ok t ↔ t.isProper = true ∧ s = t.text := by
  rw [parseType, complete_eq_ok_iff, (spelled s).javaType, List.append_nil]

/-- A text is parsed as a class signature exactly if it is the text of a proper one. -/
theorem parseClass_eq_ok_iff {sig : ClassSig} :
    parseClass s = .ok sig ↔ sig.isProper = true ∧ s = sig.text := by
  rw [parseClass, complete_eq_ok_iff, reads_classSig]

/-- A text is parsed as a method signature exactly if it is the text of a proper one. -/
theorem parseMethod_eq_ok_iff {sig : MethodSig} :
    parseMethod s = .ok sig ↔ sig.isProper = true ∧ s = sig.text := by
  rw [parseMethod, complete_eq_ok_iff, reads_methodSig]

end

/-- Reading `s` ends. It gives a signature whose text is `s`, which is read as the same signature
again, or it refuses `s`, which then is the text of no proper signature. -/
def Inverts {α : Type} (parse : Text → Except SignatureError α) (text : α → Text)
    (isProper : α → Bool) (s : Text) : Prop :=
  (∃ sig, parse s = .ok sig ∧ text sig = s ∧ parse (text sig) = .ok sig) ∨
    ∃ e, parse s = .error e ∧ ∀ sig, isProper sig = true → text sig ≠ s

/-- A parser that takes exactly the texts of proper signatures inverts their text. -/
theorem inverts_of_iff {α : Type} {parse : Text → Except SignatureError α} {text : α → Text}
    {isProper : α → Bool} {s : Text}
    (reads : ∀ sig, parse s = .ok sig ↔ isProper sig = true ∧ s = text sig) :
    Inverts parse text isProper s := by
  cases parsed : parse s with
  | ok sig =>
      obtain ⟨-, same⟩ := (reads sig).mp parsed
      exact .inl ⟨sig, parsed, same.symm, same ▸ parsed⟩
  | error e =>
      refine .inr ⟨e, parsed, fun sig proper same => ?_⟩
      rw [(reads sig).mpr ⟨proper, same.symm⟩] at parsed
      cases parsed

/-- Reading a signature of a type, a class or a method inverts printing it, whatever the text. -/
theorem parse_inverts_text (s : Text) :
    Inverts parseType JavaType.text JavaType.isProper s ∧
      Inverts parseClass ClassSig.text ClassSig.isProper s ∧
      Inverts parseMethod MethodSig.text MethodSig.isProper s :=
  ⟨inverts_of_iff fun _ => parseType_eq_ok_iff, inverts_of_iff fun _ => parseClass_eq_ok_iff,
    inverts_of_iff fun _ => parseMethod_eq_ok_iff⟩

end JvmClass.Signature
