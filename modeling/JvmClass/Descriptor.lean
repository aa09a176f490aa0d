import JvmClass.Error

/-!
# Field descriptors

A field descriptor spells a type: any number of `[`, then a letter for a
primitive kind or `L`, a class name and `;`. Constant pools name classes without
the `L` and `;`, but name arrays by their descriptor. A `Descriptor` is a text in
that role, valid or not; `parse` tells which texts are valid.
-/

namespace JvmClass

/-- A text that stands for a field type. -/
structure Descriptor where
  text : Text
deriving DecidableEq, Repr, Inhabited

namespace Descriptor

/-- The descriptor of no value. -/
def void : Descriptor := ⟨"V"⟩

/-- The letters of the primitive kinds. -/
def baseLetters : Text := "BCDFIJSZ"

/-- Splits the valid field descriptor off the front of a text. -/
def split? (s : Text) : Option (Text × Text) :=
  let dims := s.takeWhile (· = 91)
  match s.dropWhile (· = 91) with
  | [] => none
  | c :: rest =>
    if c ∈ baseLetters then some (dims ++ [c], rest)
    else if c = Text.byte 'L' then
      match Text.cut? 59 rest with
      | some (name, rest) =>
        if name.isEmpty || name.any (fun b => b = 46 || b = 91) then none
        else some (dims ++ c :: name ++ [59], rest)
      | none => none
    else none

/-- Reads a text that is a single field descriptor. -/
def parse (s : Text) : Except DescriptorError Descriptor :=
  match split? s with
  | some (_, []) => .ok ⟨s⟩
  | _ => .error (.field s)

/-- The descriptor of a class name of a constant pool; the name of an array is
one already. -/
def ofInternalName (name : Text) : Descriptor :=
  if name.head? = some 91 then ⟨name⟩ else ⟨Text.byte 'L' :: name ++ [59]⟩

/-- The descriptor of a primitive kind or of no value. -/
def ofKind (k : Kind) : Descriptor := ⟨k.descriptor⟩

def isArray (d : Descriptor) : Bool := d.text.head? = some 91

def isClass (d : Descriptor) : Bool := d.text.head? = some (Text.byte 'L')

/-- Whether the text is a single letter. -/
def isPrimitive (d : Descriptor) : Bool := d.text.length = 1

/-- The kind that the first letter names. -/
def kind (d : Descriptor) : Kind := Kind.ofDescriptor d.text

/-- The component of an array, nothing for other types. -/
def component (d : Descriptor) : Descriptor := if d.isArray then ⟨d.text.drop 1⟩ else ⟨[]⟩

/-- An array of the type. -/
def array (d : Descriptor) : Descriptor := ⟨91 :: d.text⟩

/-- The type without its array dimensions, and their number. -/
def element (d : Descriptor) : Descriptor × Nat :=
  (⟨d.text.dropWhile (· = 91)⟩, (d.text.takeWhile (· = 91)).length)

/-- The name of the type in a constant pool: what stands between `L` and the last
letter of a class, and the descriptor itself otherwise. A lone `L` has none. -/
def internalName? (d : Descriptor) : Option Text :=
  if d.isClass then
    if d.text.length < 2 then none else some (d.text.drop 1).dropLast
  else some d.text

/-- The package of a class, empty for the unnamed one and for other types. -/
def package? (d : Descriptor) : Option Text :=
  if d.isClass then d.internalName?.map fun name => (Text.beforeLast? 47 name).getD []
  else some []

/-- A cut leaves out exactly the separator. -/
theorem append_of_cut? {sep : UInt8} {s front back : Text}
    (cut : Text.cut? sep s = some (front, back)) : s = front ++ sep :: back := by
  have whole : s.takeWhile (· ≠ sep) ++ s.dropWhile (· ≠ sep) = s :=
    List.takeWhile_append_dropWhile
  have stop := List.head?_dropWhile_not (· ≠ sep) s
  unfold Text.cut? at cut
  split at cut
  · rename_i separator back' tail_eq
    simp only [Option.some.injEq, Prod.mk.injEq] at cut
    obtain ⟨rfl, rfl⟩ := cut
    rw [tail_eq] at stop whole
    simp at stop
    subst stop
    exact whole.symm
  · simp at cut

/-- What is split off and what is left make up the text, and what is split off is
not empty. -/
theorem append_of_split? {s field rest : Text} (split : split? s = some (field, rest)) :
    s = field ++ rest ∧ field ≠ [] := by
  have whole : s.takeWhile (· = 91) ++ s.dropWhile (· = 91) = s :=
    List.takeWhile_append_dropWhile
  unfold split? at split
  split at split
  · simp at split
  · rename_i c tail tail_eq
    rw [tail_eq] at whole
    split at split
    · simp only [Option.some.injEq, Prod.mk.injEq] at split
      obtain ⟨rfl, rfl⟩ := split
      simpa using whole.symm
    · split at split
      · split at split
        · rename_i name rest' cut
          split at split
          · simp at split
          · simp only [Option.some.injEq, Prod.mk.injEq] at split
            obtain ⟨rfl, rfl⟩ := split
            rw [append_of_cut? cut] at whole
            simpa using whole.symm
        · simp at split
      · simp at split

/-- Splitting a field descriptor off leaves less. -/
theorem length_lt_of_split? {s field rest : Text} (split : split? s = some (field, rest)) :
    rest.length < s.length := by
  obtain ⟨rfl, nonempty⟩ := append_of_split? split
  have := List.length_pos_iff.2 nonempty
  simp
  omega

end Descriptor

end JvmClass
