import JvmClass.Proofs.Signature.Validity
import Mathlib.Data.List.Nodup

/-!
# Renaming by packages

A table holds names of classes and names of packages, in no order that matters. A class is looked up
by its own name first, and then by the longest package that it lies in. Main statement: this is what
is found in whatever order the packages are gone through, longest ones first; and where all pairs of
a table are as a project file may ask for them, internal names are renamed to internal names.
-/

namespace JvmClass

namespace Text

variable {s : Text} {sep : UInt8}

/-- A text contains a part exactly if the part stands in it as a whole. -/
theorem containsText_iff {part : Text} : containsText part s = true ↔ part <:+: s := by
  induction s with
  | nil => rw [containsText, List.isEmpty_iff, List.infix_nil]
  | cons c s inductionHypothesis =>
      rw [containsText, Bool.or_eq_true, List.isPrefixOf_iff_prefix, inductionHypothesis,
        List.infix_cons_iff]

/-- A text starts with a front exactly if the front stands before the rest. -/
theorem startsWith_iff {front : Text} : s.startsWith front = true ↔ front <+: s :=
  List.isPrefixOf_iff_prefix

/-- A text ends with a back exactly if the back stands after the rest. -/
theorem endsWith_iff {back : Text} : s.endsWith back = true ↔ back <:+ s :=
  List.isSuffixOf_iff_suffix

/-- The first piece of a text is empty if the text is, or starts with a separator. -/
theorem nil_mem_splitOn : [] ∈ s.splitOn sep ↔
    (s = [] ∨ [sep] <+: s) ∨ [] ∈ (s.splitOn sep).tail := by
  cases s with
  | nil => simp
  | cons c s =>
      rw [List.splitOn_cons_eq_if_modifyHead, List.cons_prefix_cons]
      split
      · rename_i same
        simp [eq_of_beq same]
      · rename_i other
        obtain ⟨piece, pieces, split⟩ := List.exists_cons_of_ne_nil (List.splitOn_ne_nil sep s)
        have apart : sep ≠ c := fun same => other (beq_iff_eq.mpr same.symm)
        simp [split, apart]

/-- A later piece is empty if it stands between neighbouring separators, or behind the last one. -/
theorem nil_mem_tail_splitOn : [] ∈ (s.splitOn sep).tail ↔ [sep] <:+ s ∨ [sep, sep] <:+: s := by
  induction s with
  | nil => simp
  | cons c s inductionHypothesis =>
      rw [List.splitOn_cons_eq_if_modifyHead, List.suffix_cons_iff, List.infix_cons_iff,
        List.cons_prefix_cons, List.cons.injEq]
      split
      · rename_i same
        rw [List.tail_cons, nil_mem_splitOn, inductionHypothesis, eq_of_beq same]
        simp only [true_and, eq_comm (a := s)]
        tauto
      · rename_i other
        have apart : sep ≠ c := fun same => other (beq_iff_eq.mpr same.symm)
        simp only [apart, false_and, false_or, List.tail_modifyHead, inductionHypothesis]

end Text

namespace InternalName

variable {name front back : Text}

/-- A name is internal if nothing in it has a meaning elsewhere, and no piece of it is empty. -/
theorem fault?_eq_none_iff :
    fault? name = none ↔ (∀ b ∈ name, b ∉ (".;[<>" : Text)) ∧ [] ∉ name.splitOn 47 := by
  have plain : (name.any fun c => (".;[<>" : Text).contains c) = false ↔
      ∀ b ∈ name, b ∉ (".;[<>" : Text) := by
    simp
  rw [Text.nil_mem_splitOn, Text.nil_mem_tail_splitOn, ← plain, fault?]
  split
  · rename_i empty
    simp [List.isEmpty_iff.mp empty]
  rename_i nonempty
  split
  · rename_i bad
    exact iff_of_false nofun fun proper => absurd (bad.symm.trans proper.1) (by decide)
  rename_i good
  simp only [Bool.or_eq_true, Text.startsWith_iff, Text.endsWith_iff, Text.containsText_iff]
  rw [List.isEmpty_iff] at nonempty
  split
  · rename_i gap
    simp only [reduceCtorEq, false_iff, not_and, not_not]
    tauto
  · rename_i none
    simp only [Bool.not_eq_true] at good
    simp only [good, nonempty, false_or, true_and, true_iff]
    tauto

/-- A package and a name in it make up an internal name if, and only if, both are internal. -/
theorem fault?_append_eq_none_iff : fault? (front ++ 47 :: back) = none ↔
    fault? front = none ∧ fault? back = none := by
  have slash : (47 : UInt8) ∉ (".;[<>" : Text) := by decide
  simp only [fault?_eq_none_iff, List.splitOn_append_cons_self, List.mem_append, List.mem_cons,
    or_imp, forall_and, forall_eq, slash, not_false_eq_true, true_and, not_or]
  tauto

/-- What is fit for a project file: a class for a class or a package for a package, both by internal
names. -/
theorem of?_eq_none_iff {old new : Text} : RenameFault.of? old new = none ↔
    RenameTable.isPackage new = RenameTable.isPackage old ∧
      fault? (withoutMark (RenameTable.isPackage old) old) = none ∧
      fault? (withoutMark (RenameTable.isPackage old) new) = none := by
  rw [RenameFault.of?]
  dsimp only
  split
  · rename_i mixed
    refine iff_of_false nofun fun ⟨same, _⟩ => ?_
    rw [same, bne_self_eq_false] at mixed
    cases mixed
  · rename_i same
    rw [bne_iff_ne, not_not] at same
    rw [and_iff_right same.symm]
    split <;> simp_all

/-- The name of a package is written without the slash that marks it. -/
theorem withoutMark_append {front : Text} : withoutMark true (front ++ [47]) = front := by
  rw [withoutMark, if_pos]
  · exact List.dropLast_concat
  · exact Text.endsWith_iff.mpr (List.suffix_append front [47])

end InternalName

namespace RenameTable

variable {table : RenameTable} {name key new rest : Text}

/-- A name is that of a package exactly if it ends in a slash. -/
theorem isPackage_iff : isPackage name = true ↔ ∃ front, name = front ++ [47] := by
  rw [isPackage, Text.endsWith_iff]
  exact ⟨fun ⟨front, same⟩ => ⟨front, same.symm⟩, fun ⟨front, same⟩ => ⟨front, same.symm⟩⟩

/-! ## The new name of a class -/

/-- The name lies in the package that a row is for. -/
def Covers (name : Text) (row : Text × Text) : Prop := isPackage row.1 = true ∧ row.1 <+: name

instance (name : Text) (row : Text × Text) : Decidable (Covers name row) :=
  inferInstanceAs (Decidable (_ ∧ _))

/-- The new name of a class according to a table. -/
inductive NewName (table : RenameTable) (name : Text) : Text → Prop
  /-- The class is a key itself. -/
  | exact {new : Text} (member : (name, new) ∈ table) (single : isPackage name = false) :
      NewName table name new
  /-- Of the packages that are keys, this is the longest one that the class lies in. -/
  | package {key new rest : Text} (unlisted : ∀ row ∈ table, row.1 = name → isPackage name = true)
      (member : (key, new) ∈ table) (package : isPackage key = true) (within : name = key ++ rest)
      (longest : ∀ row ∈ table, Covers name row → row.1.length ≤ key.length) :
      NewName table name (new ++ rest)
  /-- No key has to do with the class. -/
  | kept (unlisted : ∀ row ∈ table, row.1 = name → isPackage name = true)
      (uncovered : ∀ row ∈ table, ¬Covers name row) : NewName table name name

/-- Rows with the same key are the same where no key comes twice. -/
theorem eq_of_mem (distinct : (table.map (·.1)).Nodup) {row other : Text × Text}
    (member : row ∈ table) (among : other ∈ table) (same : row.1 = other.1) : row = other :=
  List.inj_on_of_nodup_map distinct member among same

/-- A class has one new name, if no name stands twice in the table: one of the class itself goes
before all packages, and of these the longest counts. -/
theorem NewName.unique (distinct : (table.map (·.1)).Nodup) {first second : Text}
    (named : table.NewName name first) (also : table.NewName name second) : first = second := by
  cases named with
  | exact member single =>
      cases also with
      | exact among => exact congrArg Prod.snd (eq_of_mem distinct member among rfl)
      | package unlisted => cases single.symm.trans (unlisted _ member rfl)
      | kept unlisted => cases single.symm.trans (unlisted _ member rfl)
  | @package key new rest unlisted member package within longest =>
      cases also with
      | exact among single => cases single.symm.trans (unlisted _ among rfl)
      | @package key' new' rest' _ among package' within' longest' =>
          have front : key <+: name := ⟨rest, within.symm⟩
          have front' : key' <+: name := ⟨rest', within'.symm⟩
          have length : key.length = key'.length :=
            Nat.le_antisymm (longest' _ member ⟨package, front⟩)
              (longest _ among ⟨package', front'⟩)
          obtain ⟨rfl, rfl⟩ := List.append_inj (within.symm.trans within') length
          obtain rfl : new = new' := congrArg Prod.snd (eq_of_mem distinct member among rfl)
          rfl
      | kept _ uncovered => exact absurd ⟨package, rest, within.symm⟩ (uncovered _ member)
  | kept unlisted uncovered =>
      cases also with
      | exact among single => cases single.symm.trans (unlisted _ among rfl)
      | package _ member package within =>
          exact absurd ⟨package, _, within.symm⟩ (uncovered _ member)
      | kept => rfl

/-- A table has the same new name in any order. -/
theorem NewName.perm {order : RenameTable} (named : table.NewName name new)
    (perm : order.Perm table) : order.NewName name new := by
  cases named with
  | exact member single => exact .exact (perm.mem_iff.mpr member) single
  | package unlisted member package within longest =>
      exact .package (fun row among => unlisted row (perm.mem_iff.mp among))
        (perm.mem_iff.mpr member) package within
        fun row among => longest row (perm.mem_iff.mp among)
  | kept unlisted uncovered =>
      exact .kept (fun row among => unlisted row (perm.mem_iff.mp among))
        fun row among => uncovered row (perm.mem_iff.mp among)

/-! ## What is found -/

/-- The new name of a class where the packages are gone through in an order of their own, up to the
first one that the class lies in. -/
def renameInOrder (table packages : RenameTable) (name : Text) : Text :=
  match target? (table.filter fun row => !isPackage row.1) name with
  | some new => new
  | none =>
    match packages.find? fun row => name.startsWith row.1 with
    | some (key, new) => new ++ name.drop key.length
    | none => name

/-- A name that is found among those of classes stands in the table as such. -/
theorem target?_single_eq_some (found : target? (table.filter fun row => !isPackage row.1) name =
    some new) : (name, new) ∈ table ∧ isPackage name = false := by
  rw [target?, Option.map_eq_some_iff] at found
  obtain ⟨⟨key, new⟩, found, rfl⟩ := found
  have same := List.find?_some found
  obtain rfl : key = name := of_decide_eq_true same
  obtain ⟨member, single⟩ := List.mem_filter.mp (List.mem_of_find?_eq_some found)
  exact ⟨member, by simpa using single⟩

/-- A name that is not found among those of classes stands in the table only as a package. -/
theorem target?_single_eq_none (missing : target? (table.filter fun row => !isPackage row.1) name =
    none) : ∀ row ∈ table, row.1 = name → isPackage name = true := by
  rw [target?, Option.map_eq_none_iff, List.find?_eq_none] at missing
  rintro row member rfl
  by_contra single
  exact missing row (List.mem_filter.mpr ⟨member, by simpa using single⟩) (decide_eq_true rfl)

/-- The longest packages come first. -/
def LongestFirst (packages : RenameTable) : Prop :=
  packages.Pairwise fun row next => next.1.length ≤ row.1.length

/-- What is found first among the longest packages is what the table has. -/
theorem newName_renameInOrder {packages : RenameTable}
    (all : packages.Perm (table.filter fun row => isPackage row.1))
    (sorted : LongestFirst packages) (name : Text) :
    table.NewName name (renameInOrder table packages name) := by
  have listed {row : Text × Text} : row ∈ packages ↔ row ∈ table ∧ isPackage row.1 = true :=
    all.mem_iff.trans List.mem_filter
  rw [renameInOrder]
  split
  · rename_i new found
    obtain ⟨member, single⟩ := target?_single_eq_some found
    exact .exact member single
  rename_i missing
  have unlisted := target?_single_eq_none missing
  split
  · rename_i key new found
    obtain ⟨front, first, back, rfl, others⟩ := List.find?_eq_some_iff_append.mp found
    obtain ⟨rest, within⟩ := Text.startsWith_iff.mp front
    obtain ⟨member, package⟩ := listed.mp (List.mem_append_right first List.mem_cons_self)
    have drop : name.drop key.length = rest := by rw [← within, List.drop_left]
    rw [drop]
    refine .package unlisted member package within.symm fun row among covers => ?_
    rcases List.mem_append.mp (listed.mpr ⟨among, covers.1⟩) with before | here
    · exact absurd (others row before) (by simpa using Text.startsWith_iff.mpr covers.2)
    · rcases List.mem_cons.mp here with rfl | after
      · exact Nat.le_refl _
      · exact (List.pairwise_cons.mp (List.pairwise_append.mp sorted).2.1).1 row after
  · rename_i none
    refine .kept unlisted fun row among covers => ?_
    exact List.find?_eq_none.mp none row (listed.mpr ⟨among, covers.1⟩)
      (Text.startsWith_iff.mpr covers.2)

/-- A table finds the new name of a class without going through its packages in order. -/
theorem newName_rename (table : RenameTable) (name : Text) :
    table.NewName name (table.rename name) := by
  have covers {row : Text × Text} :
      row ∈ table.filter (fun row => isPackage row.1 && name.startsWith row.1) ↔
        row ∈ table ∧ Covers name row := by
    rw [List.mem_filter, Bool.and_eq_true, Text.startsWith_iff, Covers]
  rw [rename]
  split
  · rename_i new found
    obtain ⟨member, single⟩ := target?_single_eq_some found
    exact .exact member single
  rename_i missing
  have unlisted := target?_single_eq_none missing
  split
  · rename_i key new found
    obtain ⟨among, longest⟩ := longest?_eq_some found
    obtain ⟨member, package, rest, rfl⟩ := covers.mp among
    rw [List.drop_left]
    exact .package unlisted member package rfl fun row among' covered =>
      longest row (covers.mpr ⟨among', covered⟩)
  · rename_i none
    refine .kept unlisted fun row member covered => ?_
    have among := covers.mpr ⟨member, covered⟩
    unfold longest? at none
    split at none
    · rename_i empty
      rw [empty] at among
      cases among
    · cases none

/-- Internal names get internal names from a table that a project file may hold. -/
theorem NewName.internal (named : table.NewName name new)
    (checked : ∀ row ∈ table, RenameFault.of? row.1 row.2 = none)
    (internal : InternalName.fault? name = none) : InternalName.fault? new = none := by
  cases named with
  | exact member single =>
      obtain ⟨-, -, target⟩ := InternalName.of?_eq_none_iff.mp (checked _ member)
      simpa only [single, InternalName.withoutMark, Bool.false_and, Bool.false_eq_true,
        if_false] using target
  | @package key new rest _ member package within =>
      obtain ⟨alike, -, target⟩ := InternalName.of?_eq_none_iff.mp (checked _ member)
      obtain ⟨front, rfl⟩ := isPackage_iff.mp package
      obtain ⟨front', rfl⟩ := isPackage_iff.mp (alike.trans package)
      rw [package, InternalName.withoutMark_append] at target
      rw [within, List.append_assoc, List.singleton_append,
        InternalName.fault?_append_eq_none_iff] at internal
      rw [List.append_assoc, List.singleton_append, InternalName.fault?_append_eq_none_iff]
      exact ⟨target, internal.2⟩
  | kept => exact internal

/-- A class is renamed as its own key says, else as the longest package that it lies in, else not at
all, and this is so in whatever order a table with distinct keys is, and its packages are gone
through as long as longer ones come first. If the pairs of the table are checked, and the name is
internal, so is the new name. -/
theorem rename_eq_iff_newName (distinct : (table.map (·.1)).Nodup) (name : Text) :
    (∀ new, table.rename name = new ↔ table.NewName name new) ∧
    (∀ order packages : RenameTable, order.Perm table →
      packages.Perm (order.filter fun row => isPackage row.1) → LongestFirst packages →
        renameInOrder order packages name = table.rename name) ∧
    ((∀ row ∈ table, RenameFault.of? row.1 row.2 = none) → InternalName.fault? name = none →
      InternalName.fault? (table.rename name) = none) := by
  have named := table.newName_rename name
  refine ⟨fun new => ⟨?_, fun other => named.unique distinct other⟩, ?_, fun checked =>
    named.internal checked⟩
  · rintro rfl
    exact named
  · intro order packages perm all sorted
    have distinct' : (order.map (·.1)).Nodup := (perm.map _).nodup_iff.mpr distinct
    exact (newName_renameInOrder all sorted name).unique distinct' (named.perm perm)

/-- The longer of two nested packages is found, although the shorter one comes first. -/
theorem rename_eq_iff_newName_nested :
    (List.map (·.1) ([("a/", "x/"), ("a/b/", "y/z/")] : RenameTable)).Nodup ∧
    rename [("a/", "x/"), ("a/b/", "y/z/")] "a/b/C" = "y/z/C" ∧
    InternalName.fault? "y/z/C" = none := by
  have distinct : (List.map (·.1) ([("a/", "x/"), ("a/b/", "y/z/")] : RenameTable)).Nodup := by
    decide
  obtain ⟨found, -, internal⟩ := rename_eq_iff_newName distinct "a/b/C"
  have renamed : rename [("a/", "x/"), ("a/b/", "y/z/")] "a/b/C" = "y/z/C" :=
    (found _).mpr (@NewName.package _ _ "a/b/" "y/z/" "C" (by decide) (by decide) (by decide)
      (by decide) (by decide))
  exact ⟨distinct, renamed, renamed ▸ internal (by decide) (by decide)⟩

end RenameTable

end JvmClass
