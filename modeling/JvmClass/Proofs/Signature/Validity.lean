import JvmClass.Manifest
import JvmClass.Proofs.Signature.Erasure

/-!
# Renamed signatures that can be read

A renamed signature is printed to be read again. Types, arguments and bounds keep their shape, so
only names can stand in the way: a member type keeps what its new name has after the dollar sign
that follows the new name of its outer type, which can be nothing at all, or go on with a slash.
Main statement: these names, and names with a semicolon, are all that keeps a renamed signature
from being read as what it is.
-/

namespace JvmClass

namespace Signature

/-! ## Names that fit -/

mutual

/-- Whether every name in a type fits where it stands. -/
def JavaType.fits : JavaType → Bool
  | .base _ => true
  | .var _ => true
  | .array component => component.fits
  | .class type => type.fits

/-- Whether the names of a class type have no semicolon, and the name of every member type is not
empty and has no slash. -/
def ClassType.fits : ClassType → Bool
  | .top name args => name.all (· ≠ 59) && argsFit args
  | .inner outer name args =>
    outer.fits && (!name.isEmpty && name.all fun b => b ≠ 59 && b ≠ 47) && argsFit args

/-- Whether every name in an argument fits. -/
def TypeArg.fits : TypeArg → Bool
  | .exact type => type.fits
  | .extends type => type.fits
  | .super type => type.fits
  | .any => true

/-- Whether every name in some arguments fits. -/
def argsFit : List TypeArg → Bool
  | [] => true
  | arg :: args => arg.fits && argsFit args

end

/-- Whether every name in the bounds of a type parameter fits. -/
def TypeParam.fits (p : TypeParam) : Bool :=
  p.classBound.all (·.fits) && p.interfaceBounds.all (·.fits)

/-- Whether every name in a class signature fits. -/
def ClassSig.fits (s : ClassSig) : Bool :=
  s.typeParams.all (·.fits) && s.superclass.fits && s.interfaces.all (·.fits)

/-- Whether every name in a method signature fits. -/
def MethodSig.fits (s : MethodSig) : Bool :=
  s.typeParams.all (·.fits) && s.params.all (·.fits) && s.result.fits && s.throws.all (·.fits)

/-- A text has no byte that opens arguments or a member type. -/
def OpensNothing (s : Text) : Prop := ∀ b ∈ s, b ≠ 46 ∧ b ≠ 60

/-- Nothing opens in a text exactly if nothing does in its parts. -/
theorem opensNothing_append {s t : Text} :
    OpensNothing (s ++ t) ↔ OpensNothing s ∧ OpensNothing t :=
  List.forall_mem_append

/-- Nothing opens in the descriptor of a class exactly if nothing does in its name. -/
theorem opensNothing_class {name : Text} :
    OpensNothing (Descriptor.ofInternalName name).text ↔ OpensNothing name := by
  by_cases array : name.head? = some 91
  · rw [Descriptor.ofInternalName_of_array array]
  · simp [Descriptor.ofInternalName_of_plain array, OpensNothing, or_imp, forall_and]

/-- Nothing opens in the internal name of a descriptor in which nothing does. -/
theorem opensNothing_internalName {d : Descriptor} {name : Text}
    (given : d.internalName? = some name) (opens : OpensNothing d.text) : OpensNothing name := by
  rw [Descriptor.internalName?] at given
  split at given
  · split at given
    · cases given
    · obtain rfl := Option.some.inj given
      exact fun b member => opens b (List.mem_of_mem_drop (List.dropLast_subset _ member))
  · obtain rfl := Option.some.inj given
    exact opens

/-- A binary name is not empty, and nothing opens in it. -/
structure IsBinary (name : Text) : Prop where
  nonempty : name ≠ []
  opens : OpensNothing name

/-- A name can stand before some bytes exactly if it is not empty and has none of them. -/
theorem isName_iff {stop name : Text} :
    isName stop name = true ↔ name ≠ [] ∧ ∀ b ∈ name, b ∉ stop := by
  simp [isName]

/-- A name that can stand before the bytes that open something is a binary one. -/
theorem IsBinary.of_isName {stop name : Text} (proper : isName stop name = true)
    (stops : 46 ∈ stop ∧ 60 ∈ stop) : IsBinary name := by
  obtain ⟨nonempty, plain⟩ := isName_iff.mp proper
  refine ⟨nonempty, fun b member => ⟨?_, ?_⟩⟩
  · rintro rfl
    exact plain _ member stops.1
  · rintro rfl
    exact plain _ member stops.2

/-- A proper class type has a binary name. -/
theorem ClassType.isBinary_internalName : (c : ClassType) → c.isProper = true →
    IsBinary c.internalName
  | .top name args, proper => by
      rw [isProper, Bool.and_eq_true] at proper
      exact .of_isName proper.1 (by decide)
  | .inner outer name args, proper => by
      rw [isProper, Bool.and_eq_true, Bool.and_eq_true] at proper
      have first := outer.isBinary_internalName proper.1.1
      have last := IsBinary.of_isName proper.1.2 (by decide)
      have dollar : OpensNothing [36] := by simp [OpensNothing]
      exact ⟨by simp [internalName],
        opensNothing_append.mpr ⟨opensNothing_append.mpr ⟨first.opens, dollar⟩, last.opens⟩⟩

/-- A binary name can be read as that of a class exactly if it has no semicolon. -/
theorem isName_top {name : Text} (binary : IsBinary name) :
    isName "<.;" name = name.all (· ≠ 59) := by
  rw [Bool.eq_iff_iff, isName_iff, List.all_eq_true]
  refine (and_iff_right binary.nonempty).trans
    (forall_congr' fun b => forall_congr' fun member => ?_)
  have other := binary.opens b member
  rw [show ("<.;" : Text) = [60, 46, 59] by decide]
  simp [other.1, other.2]

/-- A name in which nothing opens can be read as that of a member type exactly if it is not empty
and has neither a semicolon nor a slash. -/
theorem isName_inner {name : Text} (opens : OpensNothing name) :
    isName "<.;/" name = (!name.isEmpty && name.all fun b => b ≠ 59 && b ≠ 47) := by
  rw [Bool.eq_iff_iff, isName_iff, Bool.and_eq_true, List.all_eq_true, Bool.not_eq_true',
    List.isEmpty_eq_false_iff]
  refine and_congr_right fun _ => forall_congr' fun b => forall_congr' fun member => ?_
  have other := opens b member
  rw [show ("<.;/" : Text) = [60, 46, 59, 47] by decide]
  simp [other.1, other.2]

end Signature

/-! ## Names that a table gives -/

/-- A checked name is not empty, and has no byte with a meaning of its own in a signature. -/
theorem InternalName.of_fault?_eq_none {name : Text} (checked : fault? name = none) :
    name ≠ [] ∧ ∀ b ∈ name, b ∉ (".;[<>" : Text) := by
  unfold fault? at checked
  split at checked
  · cases checked
  · rename_i nonempty
    split at checked
    · cases checked
    · rename_i plain
      exact ⟨by simpa using nonempty, by simpa using plain⟩

/-- The mark of a package is the slash at its end. -/
theorem InternalName.withoutMark_cases (isPackage : Bool) (name : Text) :
    withoutMark isPackage name = name ∨ name = withoutMark isPackage name ++ [47] := by
  rw [withoutMark]
  split
  · rename_i marked
    rw [Bool.and_eq_true, Text.endsWith, List.isSuffixOf_iff_suffix] at marked
    obtain ⟨front, rfl⟩ := marked.2
    exact .inr (by simp)
  · exact .inl rfl

/-- What is checked as a package has the same bytes, and a slash at its end. -/
theorem InternalName.of_withoutMark {isPackage : Bool} {name : Text}
    (checked : fault? (withoutMark isPackage name) = none) :
    name ≠ [] ∧ ∀ b ∈ name, b ∉ (".;[<>" : Text) := by
  have named := of_fault?_eq_none checked
  rcases withoutMark_cases isPackage name with same | marked
  · rwa [same] at named
  · rw [marked]
    have slash : (47 : UInt8) ∉ (".;[<>" : Text) := by decide
    exact ⟨by simp, List.forall_mem_append.mpr ⟨named.2, by simpa using slash⟩⟩

namespace RenameTable

variable {table : RenameTable} {name new : Text}

/-- Every new name of a table is one that a project file may ask for. -/
def Checked (table : RenameTable) : Prop :=
  ∀ row ∈ table, InternalName.fault? (InternalName.withoutMark (isPackage row.1) row.2) = none

/-- A new name of a checked table is not empty, and has none of the bytes that end or open
something. -/
theorem Checked.target (checked : table.Checked) {row : Text × Text} (member : row ∈ table) :
    row.2 ≠ [] ∧ ∀ b ∈ row.2, b ∉ (".;[<>" : Text) :=
  InternalName.of_withoutMark (checked row member)

/-- A table gives for a name the name itself, or a new name that it has with an end of the name. -/
inductive Gives (table : RenameTable) (name : Text) : Text → Prop
  | same : Gives table name name
  | row {row : Text × Text} {back : Text} (member : row ∈ table) (suffix : back <:+ name) :
      Gives table name (row.2 ++ back)

/-- A name that stands in a table is given its new one. -/
theorem gives_of_target? (found : table.target? name = some new) : table.Gives name new := by
  obtain ⟨row, member, rfl⟩ := mem_of_target? found
  simpa using Gives.row member List.nil_suffix

/-- Of some rows, the one with the longest key is kept. -/
theorem foldl_longer (rows : RenameTable) (first : Text × Text) :
    rows.foldl longer first ∈ first :: rows ∧
      ∀ row ∈ first :: rows, row.1.length ≤ (rows.foldl longer first).1.length := by
  induction rows generalizing first with
  | nil => simp
  | cons next rows inductionHypothesis =>
      rw [List.foldl_cons]
      by_cases shorter : first.1.length < next.1.length
      · rw [longer, if_pos shorter]
        obtain ⟨member, longest⟩ := inductionHypothesis next
        have here := longest next List.mem_cons_self
        exact ⟨List.mem_cons_of_mem _ member,
          List.forall_mem_cons.mpr ⟨Nat.le_trans (Nat.le_of_lt shorter) here, longest⟩⟩
      · rw [longer, if_neg shorter]
        obtain ⟨member, longest⟩ := inductionHypothesis first
        obtain ⟨here, others⟩ := List.forall_mem_cons.mp longest
        have skipped := Nat.le_trans (Nat.le_of_not_lt shorter) here
        exact ⟨List.cons_subset_cons _ (List.subset_cons_self _ _) member,
          List.forall_mem_cons.mpr ⟨here, List.forall_mem_cons.mpr ⟨skipped, others⟩⟩⟩

/-- The longest row for a name is one of the packages that it starts with, and no other of these is
longer. -/
theorem longest?_eq_some {row : Text × Text} (found : table.longest? name = some row) :
    row ∈ table.filter (fun row => isPackage row.1 && name.startsWith row.1) ∧
      ∀ other ∈ table.filter (fun row => isPackage row.1 && name.startsWith row.1),
        other.1.length ≤ row.1.length := by
  unfold longest? at found
  split at found
  · cases found
  · rename_i first rows kept
    obtain rfl := Option.some.inj found
    rw [kept]
    exact foldl_longer rows first

/-- The longest row for a name stands in the table. -/
theorem mem_of_longest? {row : Text × Text} (found : table.longest? name = some row) :
    row ∈ table := (List.mem_filter.mp (longest?_eq_some found).1).1

/-- Renaming by packages gives the name itself or a new one with an end of the name. -/
theorem gives_rename (table : RenameTable) (name : Text) :
    table.Gives name (table.rename name) := by
  unfold rename
  split
  · rename_i new found
    obtain ⟨row, member, rfl⟩ := mem_of_target? found
    simpa using Gives.row (List.mem_filter.mp member).1 List.nil_suffix
  · split
    · rename_i key new found
      exact @Gives.row table name (key, new) _ (mem_of_longest? found) (List.drop_suffix _ _)
    · exact .same

/-- A checked table gives no empty name for one that is not empty. -/
theorem Gives.nonempty (gives : table.Gives name new) (checked : table.Checked)
    (nonempty : name ≠ []) : new ≠ [] := by
  cases gives with
  | same => exact nonempty
  | row member suffix => exact List.append_ne_nil_of_left_ne_nil (checked.target member).1 _

/-- A checked table gives a name in which nothing opens for one in which nothing does. -/
theorem Gives.opens (gives : table.Gives name new) (checked : table.Checked)
    (opens : Signature.OpensNothing name) : Signature.OpensNothing new := by
  cases gives with
  | same => exact opens
  | row member suffix =>
      refine Signature.opensNothing_append.mpr ⟨fun b among => ?_, fun b among =>
        opens b (suffix.subset among)⟩
      have without := (checked.target member).2 b among
      constructor <;> rintro rfl <;> exact without (by decide)

end RenameTable

namespace Renaming

open Signature

variable {r : Renaming}

/-! ## What tables give -/

/-- The renaming has an answer for every descriptor but a lone letter of a class, gives a name for
every name of a class, and nothing opens in what it gives for a descriptor in which nothing does. -/
structure Plain (r : Renaming) : Prop where
  answers : ∀ {d : Descriptor}, d.text ≠ [76] → ∃ e, r.rename d = some e
  named : ∀ {name : Text}, name.head? ≠ some 91 → ∃ new : Text, (name ≠ [] → new ≠ []) ∧
    r.rename (.ofInternalName name) = some (.ofInternalName new)
  opens : ∀ {d e : Descriptor}, r.rename d = some e → OpensNothing d.text → OpensNothing e.text

/-- The name of an array is renamed at the class of its elements. -/
theorem mapInternalName?_of_array {name : Text} (array : name.head? = some 91) :
    ∃ n, r.mapInternalName? name =
      if (Descriptor.element ⟨name⟩).1.isClass then
        (r.rename (Descriptor.element ⟨name⟩).1).map fun e => List.replicate (n + 1) 91 ++ e.text
      else some name := by
  obtain ⟨back, rfl⟩ := List.head?_eq_some_iff.mp array
  have dims : (Descriptor.element ⟨91 :: back⟩).2 = (back.takeWhile (· = 91)).length + 1 := by
    simp [Descriptor.element]
  refine ⟨(back.takeWhile (· = 91)).length, ?_⟩
  rw [mapInternalName?, Descriptor.ofInternalName_of_array array, map?]
  dsimp only
  rw [dims]
  split
  · cases r.rename (Descriptor.element ⟨91 :: back⟩).1 with
    | none => rfl
    | some e =>
        exact Descriptor.internalName?_of_array (d := ⟨List.replicate (_ + 1) 91 ++ e.text⟩)
          (by simp [List.replicate_succ])
  · exact Descriptor.internalName?_of_array (d := ⟨91 :: back⟩) rfl

/-- The name of a class is renamed as its descriptor is. -/
theorem mapInternalName?_of_plain {name new : Text} (plain : name.head? ≠ some 91)
    (renamed : r.rename (.ofInternalName name) = some (.ofInternalName new)) :
    r.mapInternalName? name = some new := by
  have form := Descriptor.ofInternalName_of_plain plain
  have element := Descriptor.element_of_other (d := .ofInternalName name) (by simp [form])
  have isClass : (Descriptor.ofInternalName name).isClass = true := by
    simp [form, Descriptor.isClass, Text.byte]
  rw [mapInternalName?, map?, element]
  dsimp only
  rw [if_pos isClass, renamed]
  exact Descriptor.internalName?_ofInternalName new

/-- A plain renaming gives a binary name for a binary name. -/
theorem Plain.isBinary (plain : r.Plain) {name new : Text} (binary : IsBinary name)
    (named : r.internalName name = .ok new) : IsBinary new := by
  by_cases array : name.head? = some 91
  · obtain ⟨n, form⟩ := mapInternalName?_of_array (r := r) array
    rw [internalName_eq_ok_iff, form] at named
    split at named
    · obtain ⟨e, renamed, rfl⟩ := Option.map_eq_some_iff.mp named
      have element : OpensNothing (Descriptor.element ⟨name⟩).1.text := fun b member =>
        binary.opens b ((List.dropWhile_suffix _).subset member)
      have dims : OpensNothing (List.replicate (n + 1) 91) := by simp [OpensNothing]
      exact ⟨by simp, opensNothing_append.mpr ⟨dims, plain.opens renamed element⟩⟩
    · exact Option.some.inj named ▸ binary
  · obtain ⟨new', nonempty, renamed⟩ := plain.named array
    have same := internalName_eq_ok_iff.mp named
    rw [mapInternalName?_of_plain array renamed] at same
    obtain rfl := Option.some.inj same
    exact ⟨nonempty binary.nonempty,
      opensNothing_class.mp (plain.opens renamed (opensNothing_class.mpr binary.opens))⟩

/-- Every descriptor but the lone letter of a class has an internal name. -/
theorem exists_internalName? {d : Descriptor} (named : d.text ≠ [76]) :
    ∃ name, d.internalName? = some name := by
  rw [Descriptor.internalName?]
  split
  · rename_i isClass
    obtain ⟨back, form⟩ := List.head?_eq_some_iff.mp (of_decide_eq_true isClass)
    rw [form] at named ⊢
    rw [if_neg]
    · exact ⟨_, rfl⟩
    · cases back with
      | nil => exact absurd rfl named
      | cons c back => simp
  · exact ⟨_, rfl⟩

/-- Renaming classes by a checked table is plain. -/
theorem plain_ofTable {table : RenameTable} (checked : table.Checked) : (ofTable table).Plain where
  answers := by
    intro d named
    obtain ⟨name, given⟩ := exists_internalName? named
    exact ⟨_, congrArg (Option.map _) given⟩
  named := by
    intro name plain
    simp only [ofTable, Descriptor.internalName?_ofInternalName, Option.map_some]
    split
    · rename_i new found
      exact ⟨new, (RenameTable.gives_of_target? found).nonempty checked, rfl⟩
    · exact ⟨name, id, rfl⟩
  opens := by
    intro d e renamed opens
    obtain ⟨name, given, rfl⟩ := Option.map_eq_some_iff.mp renamed
    split
    · rename_i new found
      exact opensNothing_class.mpr
        ((RenameTable.gives_of_target? found).opens checked (opensNothing_internalName given opens))
    · exact opens

/-- Renaming packages by a checked table is plain. -/
theorem plain_ofPackages {table : RenameTable} (checked : table.Checked) :
    (ofPackages table).Plain where
  answers := by
    intro d named
    obtain ⟨name, given⟩ := exists_internalName? named
    exact ⟨_, congrArg (Option.map _) given⟩
  named := by
    intro name plain
    simp only [ofPackages, Descriptor.internalName?_ofInternalName, Option.map_some]
    exact ⟨_, (table.gives_rename name).nonempty checked, rfl⟩
  opens := by
    intro d e renamed opens
    obtain ⟨name, given, rfl⟩ := Option.map_eq_some_iff.mp renamed
    exact opensNothing_class.mpr
      ((table.gives_rename name).opens checked (opensNothing_internalName given opens))

/-! ## What is renamed and can be read -/

/-- A renamed type is a reference type exactly if the type is. -/
theorem RenamedType.isReference {t t' : JavaType} (renamed : RenamedType r t t') :
    t'.isReference = t.isReference := by
  cases renamed <;> rfl

/-- A renamed type can be thrown exactly if the type can. -/
theorem RenamedType.isThrowable {t t' : JavaType} (renamed : RenamedType r t t') :
    t'.isThrowable = t.isThrowable := by
  cases renamed <;> rfl

/-- A renamed type stands for no result exactly if the type does. -/
theorem RenamedType.isVoid {t t' : JavaType} (renamed : RenamedType r t t') :
    t'.isVoid = t.isVoid := by
  cases renamed <;> rfl

mutual

/-- Of what makes a type proper, renaming can only break what names have to be. -/
theorem RenamedType.isProper_eq (plain : r.Plain) : (t : JavaType) → {t' : JavaType} →
    t.isProper = true → RenamedType r t t' → t'.isProper = t'.fits
  | .base _, _, proper, .base _ => by rw [proper, JavaType.fits]
  | .var _, _, proper, .var _ => by rw [proper, JavaType.fits]
  | .array component, _, proper, .array renamed => by
      rw [JavaType.isProper] at proper ⊢
      rw [JavaType.fits]
      exact renamed.isProper_eq plain component proper
  | .class c, _, proper, .class renamed => by
      rw [JavaType.isProper] at proper ⊢
      rw [JavaType.fits]
      exact renamed.isProper_eq plain c proper

/-- A renamed class type can be read exactly if its names fit. The induction goes through its
arguments and the types in them. -/
theorem RenamedClass.isProper_eq (plain : r.Plain) : (c : ClassType) → {c' : ClassType} →
    c.isProper = true → RenamedClass r c c' → c'.isProper = c'.fits
  | .top name args, _, proper, .top named arguments => by
      have binary := plain.isBinary (ClassType.isBinary_internalName _ proper) named
      rw [ClassType.isProper, Bool.and_eq_true] at proper
      rw [ClassType.isProper, ClassType.fits, isName_top binary,
        arguments.isProper_eq plain args proper.2]
  | .inner outer name args, _, proper, .nested enclosing named arguments => by
      have binary := plain.isBinary (ClassType.isBinary_internalName _ proper) named
      rw [ClassType.isProper, Bool.and_eq_true, Bool.and_eq_true] at proper
      rw [ClassType.isProper, ClassType.fits, enclosing.isProper_eq plain outer proper.1.1,
        isName_inner (opensNothing_append.mp binary.opens).2,
        arguments.isProper_eq plain args proper.2]
  | .inner outer name args, _, proper, .flattened enclosing named apart arguments => by
      have binary := plain.isBinary (ClassType.isBinary_internalName _ proper) named
      rw [ClassType.isProper, Bool.and_eq_true, Bool.and_eq_true] at proper
      rw [ClassType.isProper, ClassType.fits, isName_top binary,
        arguments.isProper_eq plain args proper.2]

/-- A renamed argument can be read exactly if its names fit. -/
theorem RenamedArg.isProper_eq (plain : r.Plain) : (arg : TypeArg) → {arg' : TypeArg} →
    arg.isProper = true → RenamedArg r arg arg' → arg'.isProper = arg'.fits
  | .exact t, _, proper, .exact renamed => by
      rw [TypeArg.isProper, Bool.and_eq_true] at proper
      rw [TypeArg.isProper, TypeArg.fits, renamed.isReference, proper.1, Bool.true_and,
        renamed.isProper_eq plain t proper.2]
  | .extends t, _, proper, .extends renamed => by
      rw [TypeArg.isProper, Bool.and_eq_true] at proper
      rw [TypeArg.isProper, TypeArg.fits, renamed.isReference, proper.1, Bool.true_and,
        renamed.isProper_eq plain t proper.2]
  | .super t, _, proper, .super renamed => by
      rw [TypeArg.isProper, Bool.and_eq_true] at proper
      rw [TypeArg.isProper, TypeArg.fits, renamed.isReference, proper.1, Bool.true_and,
        renamed.isProper_eq plain t proper.2]
  | .any, _, _, .any => by rw [TypeArg.isProper, TypeArg.fits]

/-- Renamed arguments can be read exactly if their names fit. -/
theorem RenamedArgs.isProper_eq (plain : r.Plain) : (args : List TypeArg) → {args' : List TypeArg} →
    argsProper args = true → RenamedArgs r args args' → argsProper args' = argsFit args'
  | [], _, _, .nil => by rw [argsProper, argsFit]
  | arg :: args, _, proper, .cons first others => by
      rw [argsProper, Bool.and_eq_true] at proper
      rw [argsProper, argsFit, first.isProper_eq plain arg proper.1,
        others.isProper_eq plain args proper.2]

end

/-- Two checks agree on related lists if they do on related items that are good. -/
theorem all_eq_all_of_forall₂ {α β : Type} {related : α → β → Prop} {good : α → Prop}
    {p q : β → Bool} {as : List α} {bs : List β} (matching : List.Forall₂ related as bs)
    (proper : ∀ a ∈ as, good a) (each : ∀ {a b}, good a → related a b → p b = q b) :
    bs.all p = bs.all q := by
  induction matching with
  | nil => rfl
  | cons first _ inductionHypothesis =>
      rw [List.all_cons, List.all_cons, each (proper _ List.mem_cons_self) first,
        inductionHypothesis fun a member => proper a (List.mem_cons_of_mem _ member)]

/-- A renamed bound can be a bound exactly if its names fit. -/
theorem isBound_eq (plain : r.Plain) {t t' : JavaType} (proper : t.isBound = true)
    (renamed : RenamedType r t t') : t'.isBound = t'.fits := by
  rw [JavaType.isBound, Bool.and_eq_true] at proper
  rw [JavaType.isBound, renamed.isReference, proper.1, Bool.true_and,
    renamed.isProper_eq plain t proper.2]

/-- A renamed result can be a result exactly if its names fit. -/
theorem isResult_eq (plain : r.Plain) {t t' : JavaType} (result : t.isResult = true)
    (renamed : RenamedType r t t') : t'.isResult = t'.fits := by
  cases void : t.isVoid with
  | true =>
      cases renamed with
      | base letter => rw [result, JavaType.fits]
      | var name => cases void
      | array renamed => cases void
      | «class» renamed => cases void
  | false =>
      rw [JavaType.isResult, void, Bool.or_false] at result
      rw [JavaType.isResult, renamed.isVoid, void, Bool.or_false]
      exact renamed.isProper_eq plain t result

/-- A renamed type parameter can be read exactly if the names in its bounds fit. -/
theorem isProper_typeParam (plain : r.Plain) {p p' : TypeParam} (proper : p.isProper = true)
    (renamed : p.Matches (RenamedType r) p') : p'.isProper = p'.fits := by
  obtain ⟨name, bound, bounds⟩ := p
  obtain ⟨name', bound', bounds'⟩ := p'
  obtain ⟨rfl, first, others⟩ := renamed
  simp only [TypeParam.isProper, Bool.and_eq_true, List.all_eq_true] at proper
  simp only [TypeParam.isProper, TypeParam.fits, proper.1.1, Bool.true_and]
  congr 1
  · cases first with
    | none => rfl
    | some renamed => exact isBound_eq plain proper.1.2 renamed
  · exact all_eq_all_of_forall₂ others proper.2 (isBound_eq plain)

/-- A renamed type parameter has no bound exactly if the parameter has none. -/
theorem isBare_typeParam {p p' : TypeParam} (renamed : p.Matches (RenamedType r) p') :
    p'.isBare = p.isBare := by
  obtain ⟨name, bound, bounds⟩ := p
  obtain ⟨name', bound', bounds'⟩ := p'
  obtain ⟨rfl, first, others⟩ := renamed
  cases first <;> cases others <;> rfl

/-- Renamed type parameters can be read in a row exactly if their names fit: none of them loses its
bounds. -/
theorem paramsProper_eq (plain : r.Plain) {ps ps' : List TypeParam}
    (proper : paramsProper ps = true)
    (renamed : List.Forall₂ (TypeParam.Matches (RenamedType r)) ps ps') :
    paramsProper ps' = ps'.all (·.fits) := by
  induction renamed with
  | nil => rfl
  | @cons p p' ps ps' first others inductionHypothesis =>
      rw [paramsProper, Bool.and_eq_true, Bool.and_eq_true] at proper
      have next : (ps'.head?.any fun next => startsBound next.name) =
          ps.head?.any fun next => startsBound next.name := by
        cases others with
        | nil => rfl
        | cons second _ => simp [second.name]
      rw [paramsProper, List.all_cons, isProper_typeParam plain proper.1.1 first,
        isBare_typeParam first, next, proper.1.2, Bool.and_true, inductionHypothesis proper.2]

/-- A renamed class signature can be read exactly if its names fit. -/
theorem isProper_classSig (plain : r.Plain) {s s' : ClassSig} (proper : s.isProper = true)
    (renamed : s.Matches (RenamedType r) s') : s'.isProper = s'.fits := by
  simp only [ClassSig.isProper, Bool.and_eq_true, List.all_eq_true] at proper
  have each : ∀ {c c' : ClassType}, c.isProper = true →
      RenamedType r (.class c) (.class c') → c'.isProper = c'.fits := by
    intro c c' proper renamed
    cases renamed with
    | «class» renamed => exact renamed.isProper_eq plain c proper
  rw [ClassSig.isProper, ClassSig.fits, paramsProper_eq plain proper.1.1 renamed.typeParams,
    each proper.1.2 renamed.superclass, all_eq_all_of_forall₂ renamed.interfaces proper.2 each]

/-- A renamed method signature can be read exactly if its names fit. -/
theorem isProper_methodSig (plain : r.Plain) {s s' : MethodSig} (proper : s.isProper = true)
    (renamed : s.Matches (RenamedType r) s') : s'.isProper = s'.fits := by
  simp only [MethodSig.isProper, Bool.and_eq_true, List.all_eq_true] at proper
  have each : ∀ {t t' : JavaType}, t.isProper = true → RenamedType r t t' →
      t'.isProper = t'.fits := fun proper renamed => renamed.isProper_eq plain _ proper
  have thrown : ∀ {t t' : JavaType}, t.isThrowable = true ∧ t.isProper = true →
      RenamedType r t t' → (t'.isThrowable && t'.isProper) = t'.fits := by
    intro t t' proper renamed
    rw [renamed.isThrowable, proper.1, Bool.true_and, each proper.2 renamed]
  rw [MethodSig.isProper, MethodSig.fits, paramsProper_eq plain proper.1.1.1 renamed.typeParams,
    all_eq_all_of_forall₂ renamed.params proper.1.1.2 each,
    isResult_eq plain proper.1.2 renamed.result,
    all_eq_all_of_forall₂ renamed.throws proper.2 thrown]

/-! ## What tables answer -/

/-- No name stands for an array of a class without a name, which no table can look up. -/
def Named (names : List Text) : Prop :=
  ∀ name ∈ names, (Descriptor.ofInternalName name).element.1.text ≠ [76]

/-- A plain renaming has new names for all that stand for no array of a class without a name. -/
theorem Plain.names (plain : r.Plain) {names : List Text} (named : Named names) :
    r.Names names := by
  intro name member
  simp only [internalName_eq_ok_iff]
  by_cases array : name.head? = some 91
  · obtain ⟨n, form⟩ := mapInternalName?_of_array (r := r) array
    have element := named name member
    rw [Descriptor.ofInternalName_of_array array] at element
    obtain ⟨e, renamed⟩ := plain.answers element
    rw [form, renamed]
    split <;> exact ⟨_, rfl⟩
  · obtain ⟨new, -, renamed⟩ := plain.named array
    exact ⟨new, mapInternalName?_of_plain array renamed⟩

/-- A renaming with new names for some takes their types to renamed ones. -/
theorem takes_renamedType {names : List Text} (named : r.Names names) :
    r.Takes (RenamedType r) names := by
  intro t _ among
  obtain ⟨t', given⟩ := exists_type t (named.mono among)
  exact ⟨t', given, renamedType_of_type t given⟩

/-- A signature whose classes are renamed by a checked table is read again as what it is exactly
when every new name fits where it stands: that of a top-level class has no semicolon, and that of
a member type is not empty after the dollar sign and has no slash there. -/
theorem reads_renamed_iff {table : RenameTable} (checked : table.Checked) {r : Renaming}
    (tabled : r = ofTable table ∨ r = ofPackages table) (s : Text) :
    (∀ t, parseType s = .ok t → Named t.classNames →
      ∃ t', r.type t = .ok t' ∧ (parseType t'.text = .ok t' ↔ t'.fits = true)) ∧
    (∀ c, parseClass s = .ok c → Named c.classNames →
      ∃ c', r.classSig c = .ok c' ∧ (parseClass c'.text = .ok c' ↔ c'.fits = true)) ∧
    (∀ m, parseMethod s = .ok m → Named m.classNames →
      ∃ m', r.methodSig m = .ok m' ∧ (parseMethod m'.text = .ok m' ↔ m'.fits = true)) := by
  have plain : r.Plain := by
    rcases tabled with rfl | rfl
    · exact plain_ofTable checked
    · exact plain_ofPackages checked
  refine ⟨fun t parsed named => ?_, fun c parsed named => ?_, fun m parsed named => ?_⟩
  · have proper := (parseType_eq_ok_iff.mp parsed).1
    obtain ⟨t', given, renamed⟩ := (takes_renamedType (plain.names named)).proper proper
    exact ⟨t', given, by
      rw [parseType_eq_ok_iff, and_iff_left rfl, renamed.isProper_eq plain t proper]⟩
  · have proper := (parseClass_eq_ok_iff.mp parsed).1
    obtain ⟨c', given, renamed⟩ := (takes_renamedType (plain.names named)).classSig proper
    exact ⟨c', given, by
      rw [parseClass_eq_ok_iff, and_iff_left rfl, isProper_classSig plain proper renamed]⟩
  · have proper := (parseMethod_eq_ok_iff.mp parsed).1
    obtain ⟨m', given, renamed⟩ := (takes_renamedType (plain.names named)).methodSig proper
    exact ⟨m', given, by
      rw [parseMethod_eq_ok_iff, and_iff_left rfl, isProper_methodSig plain proper renamed]⟩

/-- A member type whose new name goes on after the dollar sign stays one, and is read again. -/
theorem reads_renamed_iff_nested : ∃ t t', parseType "LA<*>.B;" = .ok t ∧
    (ofTable [("A", "p/X"), ("A$B", "p/X$Y")]).type t = .ok t' ∧ t'.text = "Lp/X<*>.Y;" ∧
      parseType t'.text = .ok t' := by
  have parsed : parseType "LA<*>.B;" = .ok (.class (.inner (.top "A" [.any]) "B" [])) :=
    parseType_eq_ok_iff.mpr ⟨by decide, by decide⟩
  have checked : RenameTable.Checked [("A", "p/X"), ("A$B", "p/X$Y")] := by
    unfold RenameTable.Checked
    decide
  have named : Named (JavaType.class (.inner (.top "A" [.any]) "B" [])).classNames := by
    unfold Named
    decide
  obtain ⟨t', given, reads⟩ := (reads_renamed_iff checked (.inl rfl) _).1 _ parsed named
  have value : (ofTable [("A", "p/X"), ("A$B", "p/X$Y")]).type
      (.class (.inner (.top "A" [.any]) "B" [])) =
        .ok (.class (.inner (.top "p/X" [.any]) "Y" [])) := by rfl
  obtain rfl := Except.ok.inj (given.symm.trans value)
  exact ⟨_, _, parsed, given, by decide, reads.mpr (by decide)⟩

/-- A member type whose new name ends in the dollar sign is left without a name. -/
theorem dollar_target_unreadable : RenameTable.Checked [("A", "x"), ("A$B", "x$")] ∧
    ∃ t t', parseType "LA.B;" = .ok t ∧
      (ofTable [("A", "x"), ("A$B", "x$")]).type t = .ok t' ∧ t'.text = "Lx.;" ∧
        parseType t'.text = .error ⟨"Lx.;", 3, .identifier⟩ := by
  refine ⟨?_, .class (.inner (.top "A" []) "B" []), .class (.inner (.top "x" []) "" []),
    parseType_eq_ok_iff.mpr ⟨by decide, by decide⟩, by rfl, by decide, ?_⟩
  · unfold RenameTable.Checked
    decide
  · have text : (JavaType.class (.inner (.top "x" []) "" [])).text = "Lx.;" := by decide
    rw [text]
    cbv

end Renaming

end JvmClass
