import JvmClass.Descriptor.Method
import JvmClass.Proofs.Constant.Adoption

/-!
# Names within descriptors

A descriptor that can be stored is cut at bytes of ASCII. So what is cut out of it can be stored
as well: the types of the parameters and the names of their classes.
-/

namespace JvmClass

namespace Text

open ModifiedUtf8

variable {front back : Text}

/-- A text can be stored if it is what some bytes decode to. -/
theorem decodes_of_decode? {stored : Bytes} {text : Text} (decoded : decode? stored = some text) :
    text.Decodes := decode?_encode decoded

theorem decodes_nil : Decodes [] := by simp [Decodes, encode, encodeOnto, decode?, decodeOnto]

/-- A text that can be stored is cut before a byte of ASCII. -/
theorem Decodes.cut (decodes : (front ++ back).Decodes) (ascii : ∀ b ∈ back.head?, b.toNat < 0x80) :
    front.Decodes ∧ back.Decodes := by
  obtain ⟨first, -, stored, second⟩ := decode?_encode_front decodes ascii
  exact ⟨first, decodes_of_decode? second⟩

/-- The first byte is left out, if it is ASCII. -/
theorem Decodes.tail {a : UInt8} (decodes : Decodes (a :: back)) (ascii : a.toNat < 0x80) :
    back.Decodes := by
  have scalar : isScalar a.toNat = true := by
    rw [isScalar_iff]
    omega
  have form : ofCode a.toNat = [a] := by simp [ofCode, scalar, ascii]
  obtain ⟨first, tail, split, unit⟩ := decodeUnit_encodeCode scalar (encode back)
  rw [Decodes, show a :: back = ofCode a.toNat ++ back by rw [form]; rfl, encode_ofCode scalar,
    split, List.cons_append, decode?_unit unit, List.drop_left, Option.map_eq_some_iff] at decodes
  obtain ⟨after, decoded, same⟩ := decodes
  rwa [List.append_cancel_left same] at decoded

end Text

namespace Descriptor

variable {s field rest : Text}

/-- A descriptor starts with a letter or a bracket. -/
theorem ascii_of_split? (split : split? s = some (field, rest)) :
    ∀ b ∈ s.head?, b.toNat < 0x80 := by
  intro b first
  cases s with
  | nil => cases first
  | cons a tail =>
      obtain rfl := Option.some.inj first
      by_cases bracket : a = 91
      · subst bracket
        decide
      · have whole : (a :: tail).dropWhile (· = 91) = a :: tail := by simp [bracket]
        rw [split?, whole] at split
        dsimp only at split
        split at split
        · rename_i base
          have small : baseLetters.all (·.toNat < 0x80) = true := by decide
          exact of_decide_eq_true (List.all_eq_true.mp small a base)
        · split at split
          · rename_i class_
            rw [class_]
            decide
          · cases split

/-- The name of a class stands between the first and the last byte of its descriptor. -/
theorem class_of_split? (split : split? s = some (field, rest))
    (class_ : (⟨field⟩ : Descriptor).isClass = true) :
    ∃ name, field = Text.byte 'L' :: (name ++ [59]) := by
  rw [isClass, decide_eq_true_eq] at class_
  have apart : Text.byte 'L' ≠ 91 := by decide
  have dims {tail : Text} (first : ((s.takeWhile (· = 91)) ++ tail).head? = some (Text.byte 'L')) :
      s.takeWhile (· = 91) = [] := by
    cases dims : s.takeWhile (· = 91) with
    | nil => rfl
    | cons b others =>
        rw [dims] at first
        obtain rfl := Option.some.inj first
        have bracket := List.all_takeWhile (p := (· = (91 : UInt8))) (l := s)
        rw [dims] at bracket
        simp only [List.all_cons, Bool.and_eq_true, decide_eq_true_eq] at bracket
        exact absurd bracket.1 apart
  unfold split? at split
  dsimp only at split
  split at split
  · cases split
  · split at split
    · rename_i base
      obtain ⟨rfl, rfl⟩ := Prod.mk.inj (Option.some.inj split)
      rw [dims class_, List.nil_append, List.head?_cons, Option.some.injEq] at class_
      rw [class_] at base
      exact absurd base (by decide)
    · split at split
      · rename_i letter
        split at split
        · rename_i name rest' cut
          split at split
          · cases split
          · obtain ⟨rfl, rfl⟩ := Prod.mk.inj (Option.some.inj split)
            rw [List.append_assoc] at class_ ⊢
            rw [dims class_]
            exact ⟨name, by rw [letter]; rfl⟩
        · cases split
      · cases split

/-- What names the type of a descriptor can be stored if the descriptor can. -/
theorem decodes_internalName (split : split? s = some (field, rest)) (decodes : field.Decodes) :
    ((⟨field⟩ : Descriptor).internalName?.getD []).Decodes := by
  rw [internalName?]
  split
  · rename_i class_
    obtain ⟨name, rfl⟩ := class_of_split? split class_
    split
    · exact Text.decodes_nil
    · have inner := (decodes.tail (by decide)).cut (fun b last => by
        obtain rfl := Option.some.inj last
        decide)
      simpa using inner.1
  · exact decodes

end Descriptor

namespace MethodDescriptor

variable {whole s result : Text} {offset : Nat} {done params : List Descriptor}

/-- Parameters start like a descriptor, or they end at once. -/
theorem ascii_of_readParams (read : readParams whole offset done s = .ok (params, result)) :
    ∀ b ∈ s.head?, b.toNat < 0x80 := by
  rw [readParams.eq_def] at read
  split at read
  · exact fun b none => by cases none
  · rename_i c rest
    split at read
    · rename_i close
      rintro b ⟨⟩
      rw [close]
      decide
    · split at read
      · cases read
      · rename_i split
        exact Descriptor.ascii_of_split? split

/-- The types of parameters can be stored by name if the descriptor can be stored. -/
theorem decodes_of_readParams (read : readParams whole offset done s = .ok (params, result))
    (decodes : s.Decodes) (before : ∀ d ∈ done, (d.internalName?.getD []).Decodes) :
    ∀ d ∈ params, (d.internalName?.getD []).Decodes := by
  fun_induction readParams whole offset done s with
  | case1 => cases read
  | case2 done offset rest =>
      obtain ⟨rfl, -⟩ := Prod.mk.inj (Except.ok.inj read)
      exact fun d member => before d (List.mem_reverse.mp member)
  | case3 => cases read
  | case4 done offset c rest more field rest' split inductionHypothesis =>
      obtain ⟨same, -⟩ := Descriptor.append_of_split? split
      rw [same] at decodes
      obtain ⟨here, others⟩ := decodes.cut (ascii_of_readParams read)
      exact inductionHypothesis read others
        (List.forall_mem_cons.mpr ⟨Descriptor.decodes_internalName split here, before⟩)

/-- The class names of the parameters are read back from what they are stored as, if the descriptor
is. -/
theorem decodes_of_parse {d : MethodDescriptor} (parsed : parse s = .ok d) (decodes : s.Decodes) :
    ∀ type ∈ d.params, (type.internalName?.getD []).Decodes := by
  cases s with
  | nil => cases parsed
  | cons c rest =>
      rw [parse] at parsed
      split at parsed
      · cases parsed
      rename_i opens
      have ascii : c.toNat < 0x80 := by
        rw [not_not.mp opens]
        decide
      split at parsed
      · cases parsed
      rename_i params result read
      have types := decodes_of_readParams read (decodes.tail ascii) fun type member =>
        absurd member List.not_mem_nil
      split at parsed
      · obtain rfl := Except.ok.inj parsed
        exact types
      · split at parsed
        · obtain rfl := Except.ok.inj parsed
          exact types
        · cases parsed

/-- The descriptor of a method that takes and gives nothing. -/
theorem parse_bare : parse "()V" = .ok ⟨[], .void⟩ := by cbv

end MethodDescriptor

end JvmClass
