import JvmClass.Descriptor.Method
import JvmClass.Proofs.Outcome

/-!
# The grammar of descriptors

A field descriptor is brackets, and then a letter of a primitive kind or the name of a class
between `L` and `;`. A method descriptor is field descriptors in parentheses, and the result. There
are no separators, but no field descriptor is the start of another one, so a text can be taken apart
in one way only. Main statement: what is read is exactly what the grammar spells, and nothing else
is.
-/

namespace JvmClass

variable {s field rest : Text}

/-- A cut is at the first place where the separator is. -/
theorem Text.cut?_eq_some_iff {sep : UInt8} {front back : Text} :
    cut? sep s = some (front, back) ↔ sep ∉ front ∧ s = front ++ sep :: back := by
  constructor
  · intro cut
    refine ⟨?_, Descriptor.append_of_cut? cut⟩
    unfold cut? at cut
    split at cut
    · obtain ⟨rfl, -⟩ := Prod.mk.inj (Option.some.inj cut)
      intro member
      simpa using List.all_eq_true.mp List.all_takeWhile sep member
    · cases cut
  · rintro ⟨absent, rfl⟩
    have before : ∀ b ∈ front, decide (b ≠ sep) = true := fun b member =>
      decide_eq_true (ne_of_mem_of_not_mem member absent)
    rw [cut?, List.dropWhile_append_of_pos before, List.takeWhile_append_of_pos before]
    simp

namespace Descriptor

/-! ## Field descriptors -/

/-- The name of a class is not empty, and has no byte that could end it, step into it or open an
array. -/
structure IsClassName (name : Text) : Prop where
  nonempty : name ≠ []
  plain : ∀ b ∈ name, b ≠ 59 ∧ b ≠ 46 ∧ b ≠ 91

/-- The spelling of a type that is no array. -/
inductive ElementSpelling : Text → Prop
  | base {letter : UInt8} (known : letter ∈ baseLetters) : ElementSpelling [letter]
  | class {name : Text} (named : IsClassName name) : ElementSpelling (76 :: (name ++ [59]))

/-- The spelling of a type: any number of brackets, and a type that is no array. -/
def FieldSpelling (s : Text) : Prop :=
  ∃ dims element, ElementSpelling element ∧ s = List.replicate dims 91 ++ element

/-- The spelling of a type that is no array starts with a letter of a primitive type or with the one
of classes. -/
theorem ElementSpelling.head {element : Text} (spelling : ElementSpelling element) :
    ∃ c tail, element = c :: tail ∧ (c ∈ baseLetters ∨ c = 76) := by
  cases spelling with
  | base known => exact ⟨_, _, rfl, .inl known⟩
  | «class» named => exact ⟨_, _, rfl, .inr rfl⟩

/-- A type starts with a bracket, with the letter of a primitive kind or with that of a class. -/
theorem FieldSpelling.head (spelling : FieldSpelling s) :
    ∃ c tail, s = c :: tail ∧ (c = 91 ∨ c ∈ baseLetters ∨ c = 76) := by
  obtain ⟨dims, element, spelling, rfl⟩ := spelling
  cases dims with
  | zero =>
      obtain ⟨c, tail, rfl, lead⟩ := spelling.head
      exact ⟨c, tail, rfl, .inr lead⟩
  | succ dims => exact ⟨91, _, rfl, .inl rfl⟩

/-- A type starts with none of the parentheses, and is not the mark of no value. -/
theorem FieldSpelling.other (spelling : FieldSpelling s) :
    (∀ tail, s ≠ 41 :: tail) ∧ s ≠ void.text := by
  obtain ⟨c, tail, rfl, lead⟩ := spelling.head
  have apart : c ≠ 41 ∧ c ≠ 86 := by
    rcases lead with rfl | base | rfl
    · decide
    · have letters : baseLetters.all (fun c => c ≠ 41 && c ≠ 86) = true := by decide
      simpa using List.all_eq_true.mp letters c base
    · decide
  refine ⟨fun tail' same => apart.1 (List.cons.inj same).1, fun same => apart.2 ?_⟩
  exact (List.cons.inj same).1

/-- Brackets are told from what stands behind them. -/
theorem takeWhile_brackets (dims : Nat) {tail : Text} (other : tail.head? ≠ some 91) :
    (List.replicate dims 91 ++ tail).takeWhile (· = 91) = List.replicate dims 91 ∧
      (List.replicate dims 91 ++ tail).dropWhile (· = 91) = tail := by
  have brackets : ∀ b ∈ List.replicate dims (91 : UInt8), decide (b = 91) = true := fun b member =>
    decide_eq_true (List.eq_of_mem_replicate member)
  rw [List.takeWhile_append_of_pos brackets, List.dropWhile_append_of_pos brackets]
  cases tail with
  | nil => simp
  | cons c tail =>
      have plain : c ≠ 91 := by simpa using other
      simp [plain]

/-- A text starts with the spelling of at most one type, and that is what is split off it. -/
theorem split?_eq_some_iff :
    split? s = some (field, rest) ↔ FieldSpelling field ∧ s = field ++ rest := by
  constructor
  · intro split
    refine ⟨?_, (append_of_split? split).1⟩
    have dims : s.takeWhile (· = 91) = List.replicate (s.takeWhile (· = 91)).length 91 :=
      List.eq_replicate_of_mem fun b member =>
        of_decide_eq_true (List.all_eq_true.mp List.all_takeWhile b member)
    unfold split? at split
    dsimp only at split
    split at split
    · cases split
    split at split
    · rename_i letter tail _ known
      obtain ⟨rfl, -⟩ := Prod.mk.inj (Option.some.inj split)
      exact ⟨_, _, .base known, congrArg (· ++ [letter]) dims⟩
    split at split
    · rename_i letter
      split at split
      · rename_i name back cut
        split at split
        · cases split
        · rename_i proper
          obtain ⟨rfl, -⟩ := Prod.mk.inj (Option.some.inj split)
          obtain ⟨absent, -⟩ := Text.cut?_eq_some_iff.mp cut
          simp only [Bool.or_eq_true, List.isEmpty_iff, List.any_eq_true, decide_eq_true_eq,
            not_or, not_exists, not_and] at proper
          have named : IsClassName name :=
            ⟨proper.1, fun b member => ⟨ne_of_mem_of_not_mem member absent, proper.2 b member⟩⟩
          refine ⟨(s.takeWhile (· = 91)).length, _, .class named, ?_⟩
          rw [← dims, letter, List.append_assoc]
          rfl
      · cases split
    · cases split
  · rintro ⟨⟨dims, element, spelling, rfl⟩, rfl⟩
    obtain ⟨c, tail, first, lead⟩ := spelling.head
    have other : (element ++ rest).head? ≠ some 91 := by
      rw [first, List.cons_append, List.head?_cons, ne_eq, Option.some.injEq]
      rintro rfl
      revert lead
      decide
    obtain ⟨taken, dropped⟩ := takeWhile_brackets dims other
    rw [split?, List.append_assoc, taken, dropped]
    cases spelling with
    | base known =>
        dsimp only [List.cons_append, List.nil_append]
        rw [if_pos known]
    | @«class» name named =>
        have cut : Text.cut? 59 (name ++ [59] ++ rest) = some (name, rest) :=
          Text.cut?_eq_some_iff.mpr ⟨fun member => (named.plain _ member).1 rfl, by simp⟩
        have proper : (name.isEmpty || name.any fun b => b = 46 || b = 91) = false := by
          simp only [Bool.or_eq_false_iff, List.isEmpty_eq_false_iff, List.any_eq_false,
            Bool.or_eq_true, decide_eq_true_eq, not_or]
          exact ⟨named.nonempty, fun b member => (named.plain b member).2⟩
        have letter : (76 : UInt8) ∉ baseLetters := by decide
        dsimp only [List.cons_append]
        rw [if_neg letter, if_pos (by decide), cut]
        dsimp only
        rw [if_neg (by rw [proper]; decide)]
        simp

/-- A text spells a type if nothing is left when a type is split off it. -/
theorem split?_eq_whole_iff : split? s = some (s, []) ↔ FieldSpelling s := by
  rw [split?_eq_some_iff, List.append_nil, and_iff_left rfl]

instance : DecidablePred FieldSpelling := fun _ => decidable_of_iff _ split?_eq_whole_iff

/-- A text is parsed exactly if it spells a type, and to the descriptor with this text. -/
theorem parse_eq_ok_iff {d : Descriptor} : parse s = .ok d ↔ FieldSpelling s ∧ d = ⟨s⟩ := by
  rw [parse, ← split?_eq_whole_iff]
  constructor
  · intro parsed
    split at parsed
    · rename_i field split
      obtain ⟨whole, -⟩ := append_of_split? split
      rw [List.append_nil] at whole
      rw [whole] at split parsed ⊢
      exact ⟨split, (Except.ok.inj parsed).symm⟩
    · cases parsed
  · rintro ⟨split, rfl⟩
    rw [split]

end Descriptor

namespace MethodDescriptor

open Descriptor

/-! ## Method descriptors -/

/-- All types are spelled as types, and only the result may be none. -/
structure IsProper (m : MethodDescriptor) : Prop where
  params : ∀ type ∈ m.params, FieldSpelling type.text
  result : FieldSpelling m.result.text ∨ m.result = .void

instance (m : MethodDescriptor) : Decidable m.IsProper :=
  decidable_of_iff ((∀ type ∈ m.params, FieldSpelling type.text) ∧
    (FieldSpelling m.result.text ∨ m.result = .void))
    ⟨fun ⟨params, result⟩ => ⟨params, result⟩, fun proper => ⟨proper.params, proper.result⟩⟩

variable {whole : Text} {offset : Nat} {done params : List Descriptor}

/-- Parameters are read up to the parenthesis that closes them, whatever follows it. -/
theorem readParams_eq_ok_iff : readParams whole offset done s = .ok (params, rest) ↔
    ∃ types : List Descriptor, (∀ type ∈ types, FieldSpelling type.text) ∧
      params = done.reverse ++ types ∧ s = types.flatMap (·.text) ++ 41 :: rest := by
  fun_induction readParams whole offset done s with
  | case1 =>
      constructor
      · nofun
      · rintro ⟨types, -, -, same⟩
        simp at same
  | case2 done offset back =>
      rw [Except.ok.injEq, Prod.mk.injEq]
      constructor
      · rintro ⟨rfl, rfl⟩
        exact ⟨[], nofun, by simp, rfl⟩
      · rintro ⟨types, spelled, rfl, same⟩
        cases types with
        | nil => simpa using same
        | cons type types =>
            obtain ⟨c, tail, first, -⟩ := (spelled type List.mem_cons_self).head
            have closes := (spelled type List.mem_cons_self).other.1 tail
            rw [List.flatMap_cons, List.append_assoc, first, List.cons_append,
              List.cons.injEq] at same
            exact absurd (by rw [first, same.1]) closes
  | case3 done offset c back other missing =>
      constructor
      · nofun
      · rintro ⟨types, spelled, -, same⟩
        cases types with
        | nil => exact absurd (List.cons.inj same).1 other
        | cons type types =>
            rw [List.flatMap_cons, List.append_assoc] at same
            rw [split?_eq_some_iff.mpr ⟨spelled type List.mem_cons_self, same⟩] at missing
            cases missing
  | case4 done offset c back other field rest' split inductionHypothesis =>
      obtain ⟨spelling, whole⟩ := split?_eq_some_iff.mp split
      rw [inductionHypothesis, whole]
      constructor
      · rintro ⟨types, spelled, rfl, rfl⟩
        exact ⟨⟨field⟩ :: types, List.forall_mem_cons.mpr ⟨spelling, spelled⟩, by simp, by simp⟩
      · rintro ⟨types, spelled, rfl, same⟩
        cases types with
        | nil =>
            rw [← whole] at same
            exact absurd (List.cons.inj same).1 other
        | cons type types =>
            obtain ⟨first, others⟩ := List.forall_mem_cons.mp spelled
            rw [← whole, List.flatMap_cons, List.append_assoc] at same
            -- The text starts with both types, so they are the same.
            obtain ⟨rfl, rfl⟩ : field = type.text ∧
                rest' = types.flatMap (·.text) ++ 41 :: rest := by
              simpa [split] using split?_eq_some_iff.mpr ⟨first, same⟩
            exact ⟨types, others, by simp, rfl⟩

/-- What is read are the types that a text is put together from. -/
theorem parse_eq_ok_iff {m : MethodDescriptor} : parse s = .ok m ↔ m.IsProper ∧ s = m.text := by
  rw [parse.eq_def]
  constructor
  · intro parsed
    split at parsed
    · cases parsed
    split at parsed
    · cases parsed
    rename_i c back opens
    split at parsed
    · cases parsed
    rename_i params result read
    obtain ⟨types, spelled, rfl, rfl⟩ := readParams_eq_ok_iff.mp read
    obtain rfl := not_not.mp opens
    split at parsed
    · rename_i void
      obtain rfl := Except.ok.inj parsed
      exact ⟨⟨spelled, .inr rfl⟩, by simp [text, void]⟩
    · split at parsed
      · rename_i split
        obtain rfl := Except.ok.inj parsed
        obtain ⟨spelling, same⟩ := split?_eq_some_iff.mp split
        rw [List.append_nil] at same
        exact ⟨⟨spelled, .inl (same ▸ spelling)⟩, by simp [text]⟩
      · cases parsed
  · rintro ⟨⟨spelled, result⟩, rfl⟩
    obtain ⟨params, type⟩ := m
    have read : readParams (text ⟨params, type⟩) 1 [] (params.flatMap (·.text) ++ 41 :: type.text) =
        .ok (params, type.text) := readParams_eq_ok_iff.mpr ⟨params, spelled, rfl, rfl⟩
    have form : text ⟨params, type⟩ = 40 :: (params.flatMap (·.text) ++ 41 :: type.text) := by
      simp [text]
    rw [form] at read ⊢
    dsimp only
    rw [if_neg (not_not.mpr rfl), read]
    dsimp only
    rcases result with spelling | rfl
    · have split := split?_eq_some_iff.mpr ⟨spelling, (List.append_nil _).symm⟩
      rw [if_neg spelling.other.2, split]
    · rw [if_pos rfl]

/-- Field descriptors and method descriptors are read exactly where their grammar spells them. A
method descriptor is read as the one way to take it apart, which spells it again, and types that are
put together into one are what is read from it. -/
theorem parse_accepts_grammar (s : Text) :
    ((∃ d, Descriptor.parse s = .ok d) ↔ FieldSpelling s) ∧
    (∀ d, Descriptor.parse s = .ok d → d.text = s) ∧
    ((∃ m, parse s = .ok m) ↔ ∃ (params : List Text) (result : Text),
      (∀ type ∈ params, FieldSpelling type) ∧ (FieldSpelling result ∨ result = "V") ∧
        s = "(" ++ params.flatten ++ ")" ++ result) ∧
    (∀ m, parse s = .ok m → m.IsProper ∧ m.text = s ∧ ∀ other : MethodDescriptor,
      other.IsProper → other.text = s → other = m) ∧
    (∀ (result : Descriptor) (params : List Descriptor),
      (∀ type ∈ params, FieldSpelling type.text) → (FieldSpelling result.text ∨ result = .void) →
        parse (text { params, result }) = .ok { params, result }) := by
  refine ⟨⟨?_, ?_⟩, fun d parsed => ?_, ⟨?_, ?_⟩, fun m parsed => ?_, fun result params => ?_⟩
  · rintro ⟨d, parsed⟩
    exact (Descriptor.parse_eq_ok_iff.mp parsed).1
  · intro spelling
    exact ⟨_, Descriptor.parse_eq_ok_iff.mpr ⟨spelling, rfl⟩⟩
  · rw [(Descriptor.parse_eq_ok_iff.mp parsed).2]
  · rintro ⟨m, parsed⟩
    obtain ⟨proper, rfl⟩ := parse_eq_ok_iff.mp parsed
    refine ⟨m.params.map (·.text), m.result.text, ?_, proper.result.imp_right fun none => ?_, ?_⟩
    · simpa using proper.params
    · rw [none]
      rfl
    · rw [text, List.flatMap_def]
      rfl
  · rintro ⟨params, result, spelled, proper, rfl⟩
    refine ⟨⟨params.map (⟨·⟩), ⟨result⟩⟩, parse_eq_ok_iff.mpr ⟨⟨?_, ?_⟩, ?_⟩⟩
    · simpa using spelled
    · exact proper.imp_right (congrArg Descriptor.mk)
    · rw [text, List.flatMap_map]
      simp only [List.flatMap_id']
      rfl
  · obtain ⟨proper, rfl⟩ := parse_eq_ok_iff.mp parsed
    refine ⟨proper, rfl, fun other fits same => ?_⟩
    have reread := parse_eq_ok_iff.mpr ⟨fits, rfl⟩
    rw [same, parsed] at reread
    exact (Except.ok.inj reread).symm
  · intro spelled proper
    exact parse_eq_ok_iff.mpr ⟨⟨spelled, proper⟩, rfl⟩

/-- A name in a descriptor may have parentheses and letters that mean something elsewhere. -/
theorem parse_accepts_grammar_parentheses :
    (∀ type ∈ [⟨"[L)V;"⟩, ⟨"J"⟩], FieldSpelling (Descriptor.text type)) ∧
    parse "([L)V;J)V" = .ok ⟨[⟨"[L)V;"⟩, ⟨"J"⟩], .void⟩ := by
  have spelled : ∀ type ∈ [⟨"[L)V;"⟩, ⟨"J"⟩], FieldSpelling (Descriptor.text type) := by decide
  obtain ⟨-, -, -, -, reads⟩ := parse_accepts_grammar "()V"
  exact ⟨spelled, reads .void _ spelled (.inr rfl)⟩

end MethodDescriptor

end JvmClass
