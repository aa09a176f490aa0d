import JvmClass.Signature.Parser

/-!
# The grammar of signatures

Which trees are signatures, and what one step of reading takes. A reader takes a value off a text
when the text is what the value is spelled as and something after it; each step of a reader is
described so once, and no proof opens a reader again.
-/

namespace JvmClass.Signature

/-! ## Proper signatures -/

/-- Whether a name can stand before a byte of `stop`: it is not empty and has none of them. -/
def isName (stop name : Text) : Bool := !name.isEmpty && name.all (· ∉ stop)

/-- Whether a type is no primitive one. -/
def JavaType.isReference : JavaType → Bool
  | .base _ => false
  | _ => true

/-- Whether a type can be thrown: a type variable or a class type. -/
def JavaType.isThrowable : JavaType → Bool
  | .var _ => true
  | .class _ => true
  | _ => false

mutual

/-- Whether every name and letter of a type can be read where it stands. -/
def JavaType.isProper : JavaType → Bool
  | .base letter => letter ∈ baseLetters
  | .var name => isName ";<>:/.[" name
  | .array component => component.isProper
  | .class type => type.isProper

/-- Whether every name of a class type can be read where it stands. -/
def ClassType.isProper : ClassType → Bool
  | .top name args => isName "<.;" name && argsProper args
  | .inner outer name args => outer.isProper && isName "<.;/" name && argsProper args

/-- Whether an argument is a reference type that can be read, or a bare wildcard. -/
def TypeArg.isProper : TypeArg → Bool
  | .exact type => type.isReference && type.isProper
  | .extends type => type.isReference && type.isProper
  | .super type => type.isReference && type.isProper
  | .any => true

/-- Whether all arguments can be read. -/
def argsProper : List TypeArg → Bool
  | [] => true
  | arg :: args => arg.isProper && argsProper args

end

/-- Whether a type can be a bound: a reference type that can be read. -/
def JavaType.isBound (t : JavaType) : Bool := t.isReference && t.isProper

/-- Whether the name and the bounds of a type parameter can be read. -/
def TypeParam.isProper (p : TypeParam) : Bool :=
  isName ":<>;/.[" p.name && p.classBound.all (·.isBound) && p.interfaceBounds.all (·.isBound)

/-- Whether a type parameter has no bound at all. -/
def TypeParam.isBare (p : TypeParam) : Bool := p.classBound.isNone && p.interfaceBounds.isEmpty

/-- Whether a text starts as a bound does. -/
def startsBound (s : Text) : Bool :=
  s.head?.any fun c => c = Text.byte 'L' || c = Text.byte 'T' || c = 91

/-- Whether type parameters can be read one after the other: the name after a parameter without
bounds must not pass for a bound. -/
def paramsProper : List TypeParam → Bool
  | [] => true
  | p :: ps =>
    p.isProper && !(p.isBare && ps.head?.any fun next => startsBound next.name) && paramsProper ps

/-- Whether every part of a class signature can be read. -/
def ClassSig.isProper (s : ClassSig) : Bool :=
  paramsProper s.typeParams && s.superclass.isProper && s.interfaces.all (·.isProper)

/-- Whether a type stands for no result. -/
def JavaType.isVoid : JavaType → Bool
  | .base letter => letter = Text.byte 'V'
  | _ => false

/-- Whether a type can be a result: one that can be read, or none. -/
def JavaType.isResult (t : JavaType) : Bool := t.isProper || t.isVoid

/-- Whether every part of a method signature can be read. -/
def MethodSig.isProper (s : MethodSig) : Bool :=
  paramsProper s.typeParams && s.params.all (·.isProper) && s.result.isResult
    && s.throws.all fun t => t.isThrowable && t.isProper

/-! ## Member types one after the other -/

/-- A class type with further member types, each a name and its arguments. -/
def ClassType.extend (outer : ClassType) (members : List (Text × List TypeArg)) : ClassType :=
  members.foldl (fun type member => .inner type member.1 member.2) outer

/-- The text of further member types. -/
def membersText (members : List (Text × List TypeArg)) : Text :=
  members.flatMap fun member => 46 :: member.1 ++ argsText member.2

/-- Whether further member types can be read. -/
def membersProper (members : List (Text × List TypeArg)) : Bool :=
  members.all fun member => isName "<.;/" member.1 && argsProper member.2

/-- A class type with further member types has their text at its end. -/
theorem ClassType.body_extend (outer : ClassType) (members : List (Text × List TypeArg)) :
    (outer.extend members).body = outer.body ++ membersText members := by
  induction members generalizing outer with
  | nil => simp [extend, membersText]
  | cons member members inductionHypothesis =>
      change ((ClassType.inner outer member.1 member.2).extend members).body = _
      rw [inductionHypothesis, body]
      simp [membersText]

/-- A class type with further member types can be read exactly if it can be and they can. -/
theorem ClassType.isProper_extend (outer : ClassType) (members : List (Text × List TypeArg)) :
    (outer.extend members).isProper = (outer.isProper && membersProper members) := by
  induction members generalizing outer with
  | nil => simp [extend, membersProper]
  | cons member members inductionHypothesis =>
      change ((ClassType.inner outer member.1 member.2).extend members).isProper = _
      rw [inductionHypothesis, isProper]
      simp [membersProper, Bool.and_assoc]

/-- A class type is a top-level type with its member types. -/
theorem ClassType.exists_extend : (c : ClassType) →
    ∃ name args members, c = (ClassType.top name args).extend members
  | .top name args => ⟨name, args, [], rfl⟩
  | .inner outer name args => by
      obtain ⟨first, firstArgs, members, form⟩ := exists_extend outer
      exact ⟨first, firstArgs, members ++ [(name, args)], by simp [form, extend]⟩

/-! ## Steps of readers -/

/-- A reader takes `value` off a text and leaves `rest`. -/
def Reads {α : Type} {P : Text → Prop} (read : Except Stop (α × Subtype P)) (value : α)
    (rest : Text) : Prop :=
  ∃ left, read = .ok (value, ⟨rest, left⟩)

section

variable {α β : Type} {P Q : Text → Prop} {a value : α} {rest : Text}

/-- A reader leaves what its type says. -/
theorem Reads.left {read : Except Stop (α × Subtype P)} (reads : Reads read value rest) : P rest :=
  reads.1

/-- A reader that has gone so far takes exactly what it gives, and leaves the rest. -/
@[simp] theorem reads_ok {mid : Text} {left : P mid} :
    Reads (.ok (a, ⟨mid, left⟩) : Except Stop (α × Subtype P)) value rest ↔
      a = value ∧ mid = rest := by
  constructor
  · rintro ⟨left, same⟩
    cases same
    exact ⟨rfl, rfl⟩
  · rintro ⟨rfl, rfl⟩
    exact ⟨left, rfl⟩

/-- A reader that gives something takes exactly that, and leaves the rest. -/
@[simp] theorem reads_pure {mid : Text} {left : P mid} :
    Reads (pure (a, ⟨mid, left⟩) : Except Stop (α × Subtype P)) value rest ↔
      a = value ∧ mid = rest :=
  reads_ok

/-- A reader that has failed takes nothing. -/
@[simp] theorem not_reads_error {e : Stop} :
    ¬Reads (.error e : Except Stop (α × Subtype P)) value rest := by
  rintro ⟨left, same⟩
  cases same

section

variable {read : Except Stop (α × Subtype P)}
  {following : α × Subtype P → Except Stop (β × Subtype Q)} {mid : Text} {value : β}

/-- A chain of readers takes a first value, and then what it goes on to take. -/
theorem Reads.split (reads : Reads (read >>= following) value rest) :
    ∃ a mid, ∃ left : P mid, Reads read a mid ∧ Reads (following (a, ⟨mid, left⟩)) value rest := by
  cases read with
  | error e => exact absurd reads not_reads_error
  | ok taken => exact ⟨taken.1, taken.2.1, taken.2.2, ⟨taken.2.2, rfl⟩, reads⟩

/-- A reader after another takes what follows it. -/
theorem Reads.join (first : Reads read a mid)
    (next : ∀ left : P mid, Reads (following (a, ⟨mid, left⟩)) value rest) :
    Reads (read >>= following) value rest := by
  obtain ⟨left, rfl⟩ := first
  exact next left

end

/-- A reader of a list that must not be empty. -/
theorem reads_nonempty {items values : List α} {e : Stop} {mid : Text} {left : P mid} :
    Reads (if items.isEmpty then .error e else .ok (items, ⟨mid, left⟩) :
      Except Stop (List α × Subtype P)) values rest ↔
        values ≠ [] ∧ items = values ∧ mid = rest := by
  cases items with
  | nil => simpa using fun nonempty empty => absurd empty nonempty
  | cons item items =>
      rw [List.isEmpty_cons, if_neg Bool.false_ne_true, reads_ok]
      constructor
      · rintro ⟨rfl, rfl⟩
        exact ⟨List.cons_ne_nil _ _, rfl, rfl⟩
      · exact And.right

/-- A reader of a list stops where the text ends a list, or takes an item and goes on. -/
def Repeats (read : (s : Text) → Except Stop (List α × Remainder s)) (good : α → Bool)
    (text : α → Text) (ends : Text → Prop) : Prop :=
  ∀ {s rest : Text} {values : List α}, Reads (read s) values rest ↔
    (values = [] ∧ s = rest ∧ ends rest) ∨
      ∃ value others mid, values = value :: others ∧ (good value = true ∧ s = text value ++ mid) ∧
        Reads (read mid) others rest

/-- A list of items is read as one item after the other. -/
theorem Repeats.reads {read : (s : Text) → Except Stop (List α × Remainder s)} {good : α → Bool}
    {text : α → Text} {ends : Text → Prop} (repeats : Repeats read good text ends) {s rest : Text}
    {values : List α} : Reads (read s) values rest ↔
      values.all good = true ∧ s = values.flatMap text ++ rest ∧ ends rest := by
  induction values generalizing s with
  | nil =>
      rw [repeats]
      simp
  | cons value others inductionHypothesis =>
      rw [repeats, List.all_cons, Bool.and_eq_true, List.flatMap_cons, List.append_assoc]
      constructor
      · rintro (⟨⟨⟩, -⟩ | ⟨_, _, mid, ⟨⟩, ⟨proper, rfl⟩, further⟩)
        obtain ⟨properOthers, rfl, ending⟩ := inductionHypothesis.mp further
        exact ⟨⟨proper, properOthers⟩, rfl, ending⟩
      · rintro ⟨⟨proper, properOthers⟩, rfl, ending⟩
        exact .inr ⟨value, others, _, rfl, ⟨proper, rfl⟩,
          inductionHypothesis.mpr ⟨properOthers, rfl, ending⟩⟩

/-- A reader of a whole text gives what it takes when nothing is left. -/
theorem complete_eq_ok_iff {read : (s : Text) → Except Stop (α × Rest s)} {s : Text} :
    complete read s = .ok value ↔ Reads (read s) value [] := by
  unfold complete
  split
  · rename_i given
    simp [given]
  · rename_i some_ given
    rw [given, reads_ok]
    simpa using fun _ => some_
  · rename_i given
    simp [given]

end

section

variable {s rest : Text}

/-- A byte that has to stand there is read exactly if it does. -/
theorem reads_expect {c : Char} {u : Unit} :
    Reads (expect c s) u rest ↔ s = Text.byte c :: rest := by
  cases s with
  | nil => simp [expect]
  | cons b s =>
      rw [expect]
      split <;> simp_all

/-- A name is read up to the first byte that ends it. -/
theorem reads_identifier {stop name : Text} : Reads (identifier stop s) name rest ↔
    isName stop name = true ∧ s = name ++ rest ∧ ∀ b ∈ rest.head?, b ∈ stop := by
  have whole : s.takeWhile (· ∉ stop) ++ s.dropWhile (· ∉ stop) = s :=
    List.takeWhile_append_dropWhile
  constructor
  · intro read
    unfold identifier at read
    split at read
    · exact absurd read not_reads_error
    · rename_i c front taken
      rw [reads_ok] at read
      obtain ⟨rfl, rfl⟩ := read
      refine ⟨?_, (taken ▸ whole).symm, fun b first => ?_⟩
      · have inside : (s.takeWhile (· ∉ stop)).all (· ∉ stop) = true := List.all_takeWhile
        rw [taken] at inside
        rw [isName, inside]
        rfl
      · have ends := List.head?_dropWhile_not (· ∉ stop) s
        rw [Option.mem_def] at first
        rw [first] at ends
        simpa using ends
  · rintro ⟨proper, rfl, ends⟩
    simp only [isName, Bool.and_eq_true, Bool.not_eq_true', List.all_eq_true,
      decide_eq_true_eq] at proper
    have front : (name ++ rest).takeWhile (· ∉ stop) = name := by
      rw [List.takeWhile_append_of_pos (by simpa using proper.2)]
      cases rest with
      | nil => simp
      | cons b rest => simp [ends b rfl]
    have back : (name ++ rest).dropWhile (· ∉ stop) = rest := by
      rw [front] at whole
      exact List.append_cancel_left whole
    unfold identifier
    split
    · rename_i taken
      rw [front] at taken
      simp [taken] at proper
    · rename_i c others taken
      rw [reads_ok]
      exact ⟨by rw [← taken, front], back⟩

/-- A type variable is read exactly from its text. -/
theorem reads_typeVar {t : JavaType} : Reads (typeVar s) t rest ↔
    ∃ name, t = .var name ∧ t.isProper = true ∧ s = t.text ++ rest := by
  rw [typeVar]
  constructor
  · intro read
    obtain ⟨_, s₁, _, opened, read⟩ := read.split
    obtain ⟨name, s₂, _, named, read⟩ := read.split
    obtain ⟨_, s₃, _, closed, read⟩ := read.split
    obtain ⟨rfl, rfl⟩ := reads_pure.mp read
    obtain ⟨proper, rfl, -⟩ := reads_identifier.mp named
    obtain rfl := reads_expect.mp opened
    obtain rfl := reads_expect.mp closed
    exact ⟨name, rfl, by rwa [JavaType.isProper], by simp [JavaType.text, Text.byte]⟩
  · rintro ⟨name, rfl, proper, rfl⟩
    rw [JavaType.isProper] at proper
    have form : (JavaType.var name).text ++ rest = 84 :: (name ++ 59 :: rest) := by
      simp [JavaType.text, Text.byte]
    rw [form]
    have closes : ∀ b ∈ (59 :: rest).head?, b ∈ (";<>:/.[" : Text) := by
      rintro b ⟨⟩
      decide
    exact (reads_expect (u := ()).mpr rfl).join fun _ =>
      (reads_identifier.mpr ⟨proper, rfl, closes⟩).join fun _ =>
        (reads_expect (u := ()).mpr rfl).join fun _ => reads_pure.mpr ⟨rfl, rfl⟩

end

end JvmClass.Signature
