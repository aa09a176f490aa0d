import JvmClass.Proofs.Signature.Grammar

/-!
# Reading signatures inverts printing them

Every reader of the grammar takes off the front of a text exactly the proper trees that the text
starts with the spelling of. Type arguments hold types and types hold arguments, so this is one
induction, on the length of the text, with a case for each reader. Signatures of classes and
methods follow, with a look at the one byte that tells a bound from the name of a parameter.
-/

namespace JvmClass.Signature

/-! ## Types -/

/-- What the readers of types take off the front of `s`. A list of member types is read to the
byte that closes its class type. -/
structure Spelled (s : Text) : Prop where
  javaType : ∀ {t rest}, Reads (javaType s) t rest ↔ t.isProper = true ∧ s = t.text ++ rest
  referenceType : ∀ {t rest}, Reads (referenceType s) t rest ↔
    t.isReference = true ∧ t.isProper = true ∧ s = t.text ++ rest
  classType : ∀ {c rest}, Reads (classType s) c rest ↔ c.isProper = true ∧ s = c.text ++ rest
  memberTypes : ∀ {outer c rest}, Reads (memberTypes outer s) c (59 :: rest) ↔
    ∃ members, c = outer.extend members ∧ membersProper members = true ∧
      s = membersText members ++ 59 :: rest
  typeArgs : ∀ {args rest}, Reads (typeArgs s) args rest ↔
    argsProper args = true ∧ s = argsText args ++ rest ∧ (args = [] → rest.head? ≠ some 60)
  argsUntilClose : ∀ {args rest}, Reads (argsUntilClose s) args rest ↔
    argsProper args = true ∧ s = restText args ++ rest
  typeArg : ∀ {arg rest}, Reads (typeArg s) arg rest ↔ arg.isProper = true ∧ s = arg.text ++ rest

/-- What follows a name in a class type ends the name. -/
theorem head_after_name (args : List TypeArg) (members : List (Text × List TypeArg)) (rest : Text) :
    ∀ b ∈ (argsText args ++ (membersText members ++ 59 :: rest)).head?, b = 60 ∨ b = 46 ∨
      b = 59 := by
  cases args with
  | cons arg args => simp [argsText]
  | nil =>
      cases members with
      | nil => simp [argsText, membersText]
      | cons member members => simp [argsText, membersText]

/-- What follows absent arguments in a class type does not open any. -/
theorem head_after_args (members : List (Text × List TypeArg)) (rest : Text) :
    (membersText members ++ 59 :: rest).head? ≠ some 60 := by
  cases members <;> simp [membersText]

/-- A reference type starts with a letter of its own. -/
theorem JavaType.text_of_isReference {t : JavaType} (reference : t.isReference = true) :
    ∃ c tail, t.text = c :: tail ∧ (c = 76 ∨ c = 84 ∨ c = 91) := by
  cases t with
  | base letter => cases reference
  | var name => exact ⟨84, _, rfl, by decide⟩
  | array component => exact ⟨91, _, rfl, by decide⟩
  | «class» type => exact ⟨76, _, rfl, by decide⟩

/-- An argument does not start with the closing bracket. -/
theorem TypeArg.text_of_isProper {arg : TypeArg} (proper : arg.isProper = true) :
    ∃ c tail, arg.text = c :: tail ∧ c ≠ 62 := by
  cases arg with
  | any => exact ⟨42, [], rfl, by decide⟩
  | «extends» t => exact ⟨43, _, rfl, by decide⟩
  | super t => exact ⟨45, _, rfl, by decide⟩
  | exact t =>
      rw [isProper, Bool.and_eq_true] at proper
      obtain ⟨c, tail, text, lead⟩ := t.text_of_isReference proper.1
      exact ⟨c, tail, text, by rcases lead with rfl | rfl | rfl <;> decide⟩

section

variable {s : Text}

/-- A type is read exactly from its text, if reference types are. -/
theorem reads_javaType_of (referenceType : ∀ {t rest}, Reads (referenceType s) t rest ↔
      t.isReference = true ∧ t.isProper = true ∧ s = t.text ++ rest) {t : JavaType} {rest : Text} :
    Reads (javaType s) t rest ↔ t.isProper = true ∧ s = t.text ++ rest := by
  constructor
  · intro read
    cases s with
    | nil =>
        rw [javaType] at read
        exact absurd read not_reads_error
    | cons c s =>
        rw [javaType] at read
        split at read
        · rename_i letter
          obtain ⟨rfl, rfl⟩ := reads_ok.mp read
          exact ⟨decide_eq_true letter, rfl⟩
        · exact (referenceType.mp read).2
  · rintro ⟨proper, rfl⟩
    cases reference : t.isReference with
    | false =>
        cases t with
        | base letter =>
            change Reads (javaType (letter :: rest)) _ _
            rw [javaType, if_pos (of_decide_eq_true proper), reads_ok]
            exact ⟨rfl, rfl⟩
        | _ => cases reference
    | true =>
        obtain ⟨c, tail, text, lead⟩ := t.text_of_isReference reference
        have other : c ∉ baseLetters := by rcases lead with rfl | rfl | rfl <;> decide
        have read := referenceType.mpr ⟨reference, proper, rfl⟩
        rw [text, List.cons_append] at read ⊢
        rw [javaType, if_neg other]
        exact read

variable (shorter : ∀ {part : Text}, part.length < s.length → Spelled part)

include shorter

/-- Arguments are read exactly from their text, and there are none where no bracket opens. -/
theorem reads_typeArgs_of {args : List TypeArg} {rest : Text} : Reads (typeArgs s) args rest ↔
    argsProper args = true ∧ s = argsText args ++ rest ∧ (args = [] → rest.head? ≠ some 60) := by
  constructor
  · intro read
    cases s with
    | nil =>
        rw [typeArgs] at read
        obtain ⟨rfl, rfl⟩ := reads_ok.mp read
        exact ⟨rfl, rfl, fun _ same => by cases same⟩
    | cons c s =>
        rw [typeArgs] at read
        split at read
        · rename_i opens
          obtain ⟨items, _, _, taken, read⟩ := read.split
          obtain ⟨nonempty, rfl, rfl⟩ := reads_nonempty.mp read
          obtain ⟨proper, rfl⟩ := (shorter (by simp)).argsUntilClose.mp taken
          cases items with
          | nil => exact absurd rfl nonempty
          | cons arg args =>
              exact ⟨proper, by simp [argsText, restText, opens], fun empty => by cases empty⟩
        · rename_i other
          obtain ⟨rfl, rfl⟩ := reads_ok.mp read
          exact ⟨rfl, rfl, fun _ => by simpa using other⟩
  · rintro ⟨proper, rfl, other⟩
    cases args with
    | nil =>
        change Reads (typeArgs rest) _ _
        cases rest with
        | nil => simp [typeArgs]
        | cons c rest =>
            rw [typeArgs, if_neg (by simpa using other), reads_ok]
            exact ⟨rfl, rfl⟩
    | cons arg args =>
        have form : argsText (arg :: args) ++ rest = 60 :: (restText (arg :: args) ++ rest) := by
          simp [argsText, restText]
        rw [form] at shorter ⊢
        rw [typeArgs, if_pos rfl]
        exact ((shorter (by simp)).argsUntilClose.mpr ⟨proper, rfl⟩).join fun _ =>
          reads_nonempty.mpr ⟨List.cons_ne_nil _ _, rfl, rfl⟩

/-- Further member types are read exactly from their text, up to the byte that closes the class
type. -/
theorem reads_memberTypes_of {outer c : ClassType} {rest : Text} :
    Reads (memberTypes outer s) c (59 :: rest) ↔ ∃ members, c = outer.extend members ∧
      membersProper members = true ∧ s = membersText members ++ 59 :: rest := by
  constructor
  · intro read
    cases s with
    | nil =>
        rw [memberTypes] at read
        cases (reads_ok.mp read).2
    | cons b s =>
        rw [memberTypes] at read
        split at read
        · rename_i dot
          subst dot
          obtain ⟨name, s₁, _, named, read⟩ := read.split
          obtain ⟨args, s₂, _, given, read⟩ := read.split
          obtain ⟨_, _, _, further, read⟩ := read.split
          obtain ⟨rfl, rfl⟩ := reads_pure.mp read
          obtain ⟨properName, rfl, -⟩ := reads_identifier.mp named
          obtain ⟨properArgs, rfl, -⟩ := (shorter (by grind)).typeArgs.mp given
          obtain ⟨members, rfl, proper, rfl⟩ := (shorter (by grind)).memberTypes.mp further
          refine ⟨(name, args) :: members, rfl, ?_, by simp [membersText]⟩
          rw [membersProper, List.all_cons, properName, properArgs]
          exact proper
        · obtain ⟨rfl, same⟩ := reads_ok.mp read
          exact ⟨[], rfl, rfl, same⟩
  · rintro ⟨members, rfl, proper, rfl⟩
    cases members with
    | nil =>
        change Reads (memberTypes outer (59 :: rest)) _ _
        rw [memberTypes, if_neg (by decide), reads_ok]
        exact ⟨rfl, rfl⟩
    | cons member members =>
        obtain ⟨name, args⟩ := member
        simp only [membersProper, List.all_cons, Bool.and_eq_true] at proper
        have form : membersText ((name, args) :: members) ++ 59 :: rest =
            46 :: (name ++ (argsText args ++ (membersText members ++ 59 :: rest))) := by
          simp [membersText]
        rw [form] at shorter ⊢
        rw [memberTypes, if_pos rfl]
        have ends : ∀ b ∈ (argsText args ++ (membersText members ++ 59 :: rest)).head?,
            b ∈ ("<.;/" : Text) := fun b first => by
          rcases head_after_name args members rest b first with rfl | rfl | rfl <;> decide
        exact (reads_identifier.mpr ⟨proper.1.1, rfl, ends⟩).join fun _ =>
          ((shorter (by grind)).typeArgs.mpr
            ⟨proper.1.2, rfl, fun _ => head_after_args members rest⟩).join fun _ =>
          ((shorter (by grind)).memberTypes.mpr ⟨members, rfl, proper.2, rfl⟩).join fun _ =>
          reads_pure.mpr ⟨rfl, rfl⟩

/-- A class type is read exactly from its text. -/
theorem reads_classType_of {c : ClassType} {rest : Text} :
    Reads (classType s) c rest ↔ c.isProper = true ∧ s = c.text ++ rest := by
  rw [classType]
  constructor
  · intro read
    obtain ⟨_, s₁, _, opened, read⟩ := read.split
    obtain ⟨name, s₂, _, named, read⟩ := read.split
    obtain ⟨args, s₃, _, given, read⟩ := read.split
    obtain ⟨_, s₄, _, further, read⟩ := read.split
    obtain ⟨_, _, _, closed, read⟩ := read.split
    obtain ⟨rfl, rfl⟩ := reads_pure.mp read
    obtain rfl := reads_expect.mp opened
    obtain ⟨properName, rfl, -⟩ := reads_identifier.mp named
    obtain rfl := reads_expect.mp closed
    obtain ⟨properArgs, rfl, -⟩ := (shorter (by grind)).typeArgs.mp given
    obtain ⟨members, rfl, proper, rfl⟩ := (shorter (by grind)).memberTypes.mp further
    refine ⟨?_, ?_⟩
    · rw [ClassType.isProper_extend, ClassType.isProper, properName, properArgs, proper]
      rfl
    · simp [ClassType.text, JavaType.text, ClassType.body_extend, ClassType.body]
  · rintro ⟨proper, rfl⟩
    obtain ⟨name, args, members, rfl⟩ := c.exists_extend
    simp only [ClassType.isProper_extend, ClassType.isProper, Bool.and_eq_true] at proper
    have form : ((ClassType.top name args).extend members).text ++ rest =
        76 :: (name ++ (argsText args ++ (membersText members ++ 59 :: rest))) := by
      simp [ClassType.text, JavaType.text, ClassType.body_extend, ClassType.body, Text.byte]
    rw [form] at shorter ⊢
    have ends : ∀ b ∈ (argsText args ++ (membersText members ++ 59 :: rest)).head?,
        b ∈ ("<.;" : Text) := fun b first => by
      rcases head_after_name args members rest b first with rfl | rfl | rfl <;> decide
    exact (reads_expect (u := ()).mpr rfl).join fun _ =>
      (reads_identifier.mpr ⟨proper.1.1, rfl, ends⟩).join fun _ =>
      ((shorter (by grind)).typeArgs.mpr
        ⟨proper.1.2, rfl, fun _ => head_after_args members rest⟩).join fun _ =>
      ((shorter (by grind)).memberTypes.mpr ⟨members, rfl, proper.2, rfl⟩).join fun _ =>
      (reads_expect (u := ()).mpr rfl).join fun _ => reads_pure.mpr ⟨rfl, rfl⟩

/-- A reference type is read exactly from its text. -/
theorem reads_referenceType_of {t : JavaType} {rest : Text} : Reads (referenceType s) t rest ↔
    t.isReference = true ∧ t.isProper = true ∧ s = t.text ++ rest := by
  have classType {c : ClassType} {rest : Text} := @reads_classType_of _ shorter c rest
  constructor
  · intro read
    cases s with
    | nil =>
        rw [referenceType] at read
        exact absurd read not_reads_error
    | cons b s =>
        rw [referenceType] at read
        split at read
        · obtain ⟨c, _, _, taken, read⟩ := read.split
          obtain ⟨rfl, rfl⟩ := reads_pure.mp read
          exact ⟨rfl, classType.mp taken⟩
        split at read
        · obtain ⟨name, rfl, proper, spelled⟩ := reads_typeVar.mp read
          exact ⟨rfl, proper, spelled⟩
        split at read
        · rename_i opens
          obtain ⟨component, _, _, taken, read⟩ := read.split
          obtain ⟨rfl, rfl⟩ := reads_pure.mp read
          obtain ⟨proper, rfl⟩ := (shorter (by simp)).javaType.mp taken
          exact ⟨rfl, proper, by rw [opens, JavaType.text, List.cons_append]⟩
        · exact absurd read not_reads_error
  · rintro ⟨reference, proper, rfl⟩
    cases t with
    | base letter => cases reference
    | var name =>
        have read := (reads_typeVar (s := (JavaType.var name).text ++ rest)).mpr
          ⟨name, rfl, proper, rfl⟩
        rw [JavaType.text, List.cons_append, List.cons_append] at read ⊢
        rw [referenceType, if_neg (by decide), if_pos rfl]
        exact read
    | array component =>
        rw [JavaType.isProper] at proper
        rw [JavaType.text, List.cons_append] at shorter ⊢
        rw [referenceType, if_neg (by decide), if_neg (by decide), if_pos rfl]
        exact ((shorter (by simp)).javaType.mpr ⟨proper, rfl⟩).join fun _ =>
          reads_pure.mpr ⟨rfl, rfl⟩
    | «class» c =>
        have read := classType.mpr ⟨proper, rfl⟩
        rw [JavaType.text, List.cons_append, List.cons_append] at read ⊢
        rw [referenceType, if_pos rfl]
        exact read.join fun _ => reads_pure.mpr ⟨rfl, rfl⟩

/-- An argument is read exactly from its text, by the byte that it starts with. -/
theorem reads_typeArg_of {arg : TypeArg} {rest : Text} :
    Reads (typeArg s) arg rest ↔ arg.isProper = true ∧ s = arg.text ++ rest := by
  have referenceType {t : JavaType} {rest : Text} := @reads_referenceType_of _ shorter t rest
  constructor
  · intro read
    cases s with
    | nil =>
        rw [typeArg] at read
        exact absurd read not_reads_error
    | cons c s =>
        rw [typeArg] at read
        split at read
        · rename_i star
          obtain ⟨rfl, rfl⟩ := reads_ok.mp read
          exact ⟨rfl, by rw [star]; rfl⟩
        split at read
        · rename_i plus
          obtain ⟨t, _, _, taken, read⟩ := read.split
          obtain ⟨rfl, rfl⟩ := reads_pure.mp read
          obtain ⟨reference, proper, rfl⟩ := (shorter (by simp)).referenceType.mp taken
          exact ⟨by rw [TypeArg.isProper, reference, proper]; rfl, by rw [plus]; rfl⟩
        split at read
        · rename_i minus
          obtain ⟨t, _, _, taken, read⟩ := read.split
          obtain ⟨rfl, rfl⟩ := reads_pure.mp read
          obtain ⟨reference, proper, rfl⟩ := (shorter (by simp)).referenceType.mp taken
          exact ⟨by rw [TypeArg.isProper, reference, proper]; rfl, by rw [minus]; rfl⟩
        · obtain ⟨t, _, _, taken, read⟩ := read.split
          obtain ⟨rfl, rfl⟩ := reads_pure.mp read
          obtain ⟨reference, proper, spelled⟩ := referenceType.mp taken
          exact ⟨by rw [TypeArg.isProper, reference, proper]; rfl, spelled⟩
  · rintro ⟨proper, rfl⟩
    cases arg with
    | any =>
        change Reads (typeArg (42 :: rest)) _ _
        rw [typeArg, if_pos rfl, reads_ok]
        exact ⟨rfl, rfl⟩
    | «extends» t =>
        rw [TypeArg.isProper, Bool.and_eq_true] at proper
        rw [TypeArg.text, List.cons_append] at shorter ⊢
        rw [typeArg, if_neg (by decide), if_pos rfl]
        exact ((shorter (by simp)).referenceType.mpr ⟨proper.1, proper.2, rfl⟩).join fun _ =>
          reads_pure.mpr ⟨rfl, rfl⟩
    | super t =>
        rw [TypeArg.isProper, Bool.and_eq_true] at proper
        rw [TypeArg.text, List.cons_append] at shorter ⊢
        rw [typeArg, if_neg (by decide), if_neg (by decide), if_pos rfl]
        exact ((shorter (by simp)).referenceType.mpr ⟨proper.1, proper.2, rfl⟩).join fun _ =>
          reads_pure.mpr ⟨rfl, rfl⟩
    | exact t =>
        rw [TypeArg.isProper, Bool.and_eq_true] at proper
        have read := referenceType.mpr ⟨proper.1, proper.2, rfl⟩
        obtain ⟨c, tail, text, lead⟩ := t.text_of_isReference proper.1
        rw [TypeArg.text, text, List.cons_append] at read ⊢
        have other : c ≠ 42 ∧ c ≠ 43 ∧ c ≠ 45 := by rcases lead with rfl | rfl | rfl <;> decide
        rw [typeArg, if_neg other.1, if_neg other.2.1, if_neg other.2.2]
        exact read.join fun _ => reads_pure.mpr ⟨rfl, rfl⟩

/-- Arguments up to the closing bracket are read exactly from their text. -/
theorem reads_argsUntilClose_of {args : List TypeArg} {rest : Text} :
    Reads (argsUntilClose s) args rest ↔ argsProper args = true ∧ s = restText args ++ rest := by
  have typeArg {arg : TypeArg} {rest : Text} := @reads_typeArg_of _ shorter arg rest
  constructor
  · intro read
    cases s with
    | nil =>
        rw [argsUntilClose] at read
        exact absurd read not_reads_error
    | cons c s =>
        rw [argsUntilClose] at read
        split at read
        · rename_i closes
          obtain ⟨rfl, rfl⟩ := reads_ok.mp read
          exact ⟨rfl, by rw [closes]; rfl⟩
        · obtain ⟨arg, s₁, less, first, read⟩ := read.split
          obtain ⟨others, _, _, further, read⟩ := read.split
          obtain ⟨rfl, rfl⟩ := reads_pure.mp read
          obtain ⟨proper, spelled⟩ := typeArg.mp first
          obtain ⟨properOthers, rfl⟩ := (shorter less).argsUntilClose.mp further
          exact ⟨by rw [argsProper, proper, properOthers]; rfl, by rw [spelled, restText,
            List.append_assoc]⟩
  · rintro ⟨proper, rfl⟩
    cases args with
    | nil =>
        change Reads (argsUntilClose (62 :: rest)) _ _
        rw [argsUntilClose, if_pos rfl, reads_ok]
        exact ⟨rfl, rfl⟩
    | cons arg args =>
        rw [argsProper, Bool.and_eq_true] at proper
        obtain ⟨c, tail, text, other⟩ := arg.text_of_isProper proper.1
        have form : restText (arg :: args) ++ rest = arg.text ++ (restText args ++ rest) := by
          rw [restText, List.append_assoc]
        have read := typeArg.mpr ⟨proper.1, form⟩
        have less := shorter read.left
        rw [form, text, List.cons_append] at read ⊢
        rw [argsUntilClose, if_neg other]
        exact read.join fun _ => (less.argsUntilClose.mpr ⟨proper.2, rfl⟩).join fun _ =>
          reads_pure.mpr ⟨rfl, rfl⟩

end

/-- Every reader of types takes what its kind of tree is spelled as. -/
theorem spelled (s : Text) : Spelled s := by
  induction length : s.length using Nat.strongRecOn generalizing s with
  | ind n inductionHypothesis =>
      have shorter {part : Text} (less : part.length < s.length) : Spelled part :=
        inductionHypothesis _ (length ▸ less) part rfl
      exact {
        javaType := reads_javaType_of (reads_referenceType_of shorter)
        referenceType := reads_referenceType_of shorter
        classType := reads_classType_of shorter
        memberTypes := reads_memberTypes_of shorter
        typeArgs := reads_typeArgs_of shorter
        argsUntilClose := reads_argsUntilClose_of shorter
        typeArg := reads_typeArg_of shorter }

end JvmClass.Signature
