import JvmClass.Proofs.Descriptor.Grammar
import JvmClass.Proofs.Signature.Validity

/-!
# Renamed descriptors keep their layout

A table gives the name of a class for the name of a class, so a renamed type is spelled as a type of
the same kind, behind the same brackets. Main statement: a renamed method descriptor is read as the
renamed types, one for each, with the same slots; it stays as it is if all names in it do; and
renaming twice is renaming once, by both tables at a time.
-/

namespace JvmClass

namespace Descriptor

variable {d : Descriptor} {dims : Nat} {letter : UInt8} {name : Text}

/-- The name of the class that a type is, or is an array of. -/
def className? (d : Descriptor) : Option Text :=
  if d.element.1.isClass then d.element.1.internalName? else none

/-- The name of a class does not start as that of an array. -/
theorem IsClassName.plain_head (named : IsClassName name) : name.head? ≠ some 91 := by
  intro first
  obtain ⟨back, rfl⟩ := List.head?_eq_some_iff.mp first
  exact (named.plain 91 List.mem_cons_self).2.2 rfl

/-- The descriptor for the name of a class has it between its letter and a semicolon. -/
theorem IsClassName.ofInternalName (named : IsClassName name) :
    Descriptor.ofInternalName name = ⟨76 :: (name ++ [59])⟩ :=
  ofInternalName_of_plain named.plain_head

/-- The element of a spelled array is what stands after its brackets. -/
theorem element_of_spelling {type : Text} (spelling : ElementSpelling type) :
    (⟨List.replicate dims 91 ++ type⟩ : Descriptor).element = (⟨type⟩, dims) := by
  have other : type.head? ≠ some 91 := by
    obtain ⟨c, tail, rfl, lead⟩ := spelling.head
    rw [List.head?_cons, ne_eq, Option.some.injEq]
    rintro rfl
    revert lead
    decide
  obtain ⟨taken, dropped⟩ := takeWhile_brackets dims other
  rw [element, taken, dropped, List.length_replicate]

end Descriptor

open Descriptor

/-! ## Tables -/

namespace RenameTable

variable {table : RenameTable} {name new : Text}

/-- Every new name of a table is an internal name of a class or of a package. -/
def Internal (table : RenameTable) : Prop :=
  ∀ row ∈ table, ∃ isPackage, InternalName.fault? (InternalName.withoutMark isPackage row.2) = none

/-- What a table gives for the name of a class can stand in a descriptor, too. -/
theorem Gives.isClassName (gives : table.Gives name new) (internal : table.Internal)
    (named : IsClassName name) : IsClassName new := by
  cases gives with
  | same => exact named
  | @row row back member suffix =>
      obtain ⟨isPackage, checked⟩ := internal row member
      obtain ⟨nonempty, plain⟩ := InternalName.of_withoutMark checked
      refine ⟨List.append_ne_nil_of_left_ne_nil nonempty _, fun b among => ?_⟩
      rcases List.mem_append.mp among with front | back
      · have without := plain b front
        refine ⟨?_, ?_, ?_⟩ <;> rintro rfl <;> exact without (by decide)
      · exact named.plain b (suffix.subset back)

/-- One table for two: the new names of the first are renamed by the second, which also renames
what the first leaves. -/
def followedBy (table next : RenameTable) : RenameTable :=
  table.map (fun row => (row.1, (next.target? row.2).getD row.2)) ++ next

/-- Two tables in a row look a name up in the first, and what that gives in the second. -/
theorem target?_followedBy {next : RenameTable} : (table.followedBy next).target? name =
    match table.target? name with
    | some new => some ((next.target? new).getD new)
    | none => next.target? name := by
  rw [followedBy, target?, List.find?_append, List.find?_map, target?]
  change (Option.or (Option.map _ (table.find? fun row => row.1 = name)) _).map _ = _
  cases table.find? fun row => row.1 = name with
  | none => rfl
  | some row => rfl

/-- A name that is no key, and starts with no key of a package, is kept. -/
theorem rename_eq_self (absent : ∀ row ∈ table, row.1 ≠ name ∧
    (isPackage row.1 = true → ¬row.1 <+: name)) : table.rename name = name := by
  have exact : target? (table.filter fun row => !isPackage row.1) name = none := by
    rw [target?, Option.map_eq_none_iff, List.find?_eq_none]
    intro row member
    simpa using (absent row (List.mem_filter.mp member).1).1
  have longest : table.longest? name = none := by
    have kept : (table.filter fun row => isPackage row.1 && name.startsWith row.1) = [] := by
      rw [List.filter_eq_nil_iff]
      intro row member
      rw [Bool.and_eq_true, Text.startsWith, List.isPrefixOf_iff_prefix]
      exact fun both => (absent row member).2 both.1 both.2
    rw [longest?, kept]
  rw [rename, exact, longest]

end RenameTable

namespace Renaming

variable {r r' : Renaming}

/-- Renaming by one table and then by another. -/
def andThen (r r' : Renaming) : Renaming := ⟨fun d => (r.rename d).bind r'.rename⟩

/-- Two exact tables that follow each other are one exact table. -/
theorem ofTable_andThen (table next : RenameTable) :
    (ofTable table).andThen (ofTable next) = ofTable (table.followedBy next) := by
  rw [andThen, ofTable, ofTable, ofTable, mk.injEq]
  funext d
  dsimp only
  cases given : d.internalName? with
  | none => rfl
  | some name =>
      simp only [Option.map_some, Option.bind_some, RenameTable.target?_followedBy]
      cases table.target? name with
      | none => simp only [given, Option.map_some]
      | some new =>
          simp only [internalName?_ofInternalName, Option.map_some]
          cases next.target? new <;> rfl

/-! ## Types -/

/-- The renaming gives the name of a class for the name of a class. -/
def NamesClasses (r : Renaming) : Prop := ∀ name, IsClassName name →
  ∃ new, IsClassName new ∧ r.rename (.ofInternalName name) = some (.ofInternalName new)

/-- Renaming by a table of internal names gives names of classes, whether it renames classes or
packages. -/
theorem namesClasses_of_tabled {table : RenameTable} (internal : table.Internal)
    (tabled : r = ofTable table ∨ r = ofPackages table) : r.NamesClasses := by
  intro name named
  rcases tabled with rfl | rfl
  · simp only [ofTable, internalName?_ofInternalName, Option.map_some]
    split
    · rename_i new found
      exact ⟨new, (RenameTable.gives_of_target? found).isClassName internal named, rfl⟩
    · exact ⟨name, named, rfl⟩
  · simp only [ofPackages, internalName?_ofInternalName, Option.map_some]
    exact ⟨_, (table.gives_rename name).isClassName internal named, rfl⟩

/-- A class that no key names, and that lies in no package that a key names, is not renamed. -/
theorem internalName_of_absent {table : RenameTable} {name : Text}
    (tabled : r = ofTable table ∨ r = ofPackages table) (named : IsClassName name)
    (absent : ∀ row ∈ table,
      row.1 ≠ name ∧ (RenameTable.isPackage row.1 = true → ¬row.1 <+: name)) :
    r.internalName name = .ok name := by
  refine internalName_eq_ok_iff.mpr (mapInternalName?_of_plain named.plain_head ?_)
  rcases tabled with rfl | rfl
  · have unknown : table.target? name = none := by
      rw [RenameTable.target?, Option.map_eq_none_iff, List.find?_eq_none]
      intro row member
      simpa using (absent row member).1
    simp only [ofTable, internalName?_ofInternalName, Option.map_some, unknown]
  · simp only [ofPackages, internalName?_ofInternalName, Option.map_some,
      RenameTable.rename_eq_self absent]

/-- Two types take the same place: they are of one kind, with the same number of brackets. -/
structure SameLayout (d e : Descriptor) : Prop where
  kind : e.kind = d.kind
  dims : e.element.2 = d.element.2

section Types

variable {d e : Descriptor} {dims : Nat} {letter : UInt8} {name : Text}

/-- A descriptor is renamed exactly if it has a new one. -/
theorem map_eq_ok_iff_map? : r.map d = .ok e ↔ r.map? d = some e := by
  rw [map]
  cases r.map? d <;> simp [answered]

/-- Primitive types and their arrays stay as they are. -/
theorem map?_of_base (known : letter ∈ baseLetters) :
    r.map? ⟨List.replicate dims 91 ++ [letter]⟩ = some ⟨List.replicate dims 91 ++ [letter]⟩ := by
  have other : (⟨[letter]⟩ : Descriptor).isClass = false := by
    have letters : baseLetters.all (fun c => !(⟨[c]⟩ : Descriptor).isClass) = true := by decide
    simpa using List.all_eq_true.mp letters letter known
  rw [map?, element_of_spelling (.base known)]
  dsimp only
  rw [if_neg (by rw [other]; decide)]

/-- A type of a class, or an array of one, is renamed by its class, with as many brackets. -/
theorem map?_of_class (named : IsClassName name) :
    r.map? ⟨List.replicate dims 91 ++ 76 :: (name ++ [59])⟩ =
      (r.rename (.ofInternalName name)).map fun e => ⟨List.replicate dims 91 ++ e.text⟩ := by
  rw [map?, element_of_spelling (.class named), named.ofInternalName]
  exact if_pos rfl

/-- Primitive types and their arrays name no class. -/
theorem className?_of_base (known : letter ∈ baseLetters) :
    className? ⟨List.replicate dims 91 ++ [letter]⟩ = none := by
  have letters : baseLetters.all (fun c => !(⟨[c]⟩ : Descriptor).isClass) = true := by decide
  have other := List.all_eq_true.mp letters letter known
  rw [className?, element_of_spelling (.base known), if_neg]
  simpa using other

/-- A type of a class, or an array of one, names this class. -/
theorem className?_of_class (named : IsClassName name) :
    className? ⟨List.replicate dims 91 ++ 76 :: (name ++ [59])⟩ = some name := by
  rw [className?, element_of_spelling (.class named), ← named.ofInternalName]
  rw [internalName?_ofInternalName, named.ofInternalName]
  exact if_pos rfl

/-- What an array or a class is renamed to is one as well. -/
theorem kind_of_class (name : Text) :
    (⟨List.replicate dims 91 ++ 76 :: name⟩ : Descriptor).kind = .reference := by
  cases dims <;> rfl

variable (names : r.NamesClasses)
include names

/-- A type is renamed to a type that takes the same place, and whatever comes next sees the type as
if both renamings were one. -/
theorem NamesClasses.exists_map (type : FieldSpelling d.text ∨ d = .void) :
    ∃ e, r.map d = .ok e ∧ (FieldSpelling e.text ∨ e = .void) ∧
      (FieldSpelling d.text → FieldSpelling e.text) ∧ SameLayout d e ∧
      ∀ r' : Renaming, r'.map e = (r.andThen r').map d := by
  rcases type with spelling | rfl
  · obtain ⟨text⟩ := d
    obtain ⟨dims, element, spelling, rfl⟩ := spelling
    cases spelling with
    | @base letter known =>
        have stays (r : Renaming) : r.map? ⟨List.replicate dims 91 ++ [letter]⟩ = _ :=
          r.map?_of_base known
        have spelled : FieldSpelling (List.replicate dims 91 ++ [letter]) :=
          ⟨dims, _, .base known, rfl⟩
        refine ⟨_, map_eq_ok_iff_map?.mpr (stays r), .inl spelled, id, ⟨rfl, rfl⟩, fun r' => ?_⟩
        rw [map, map, stays, stays]
    | @«class» name named =>
        obtain ⟨new, proper, renamed⟩ := names name named
        have given : r.map? ⟨List.replicate dims 91 ++ 76 :: (name ++ [59])⟩ =
            some ⟨List.replicate dims 91 ++ 76 :: (new ++ [59])⟩ := by
          rw [map?_of_class named, renamed, proper.ofInternalName]
          rfl
        have spelled : FieldSpelling (List.replicate dims 91 ++ 76 :: (new ++ [59])) :=
          ⟨dims, _, .class proper, rfl⟩
        refine ⟨_, map_eq_ok_iff_map?.mpr given, .inl spelled, fun _ => spelled, ⟨?_, ?_⟩,
          fun r' => ?_⟩
        · rw [kind_of_class, kind_of_class]
        · rw [element_of_spelling (.class proper), element_of_spelling (.class named)]
        · rw [map, map, map?_of_class proper, map?_of_class named, andThen]
          dsimp only
          rw [renamed, Option.bind_some]
  · exact ⟨.void, rfl, .inr rfl, id, ⟨rfl, rfl⟩, fun r' => rfl⟩

/-- A type stays as it is if, and only if, its class does. -/
theorem NamesClasses.map_eq_self_iff (type : FieldSpelling d.text ∨ d = .void) :
    r.map d = .ok d ↔ ∀ name, d.className? = some name → r.internalName name = .ok name := by
  rcases type with spelling | rfl
  · obtain ⟨text⟩ := d
    obtain ⟨dims, element, spelling, rfl⟩ := spelling
    cases spelling with
    | base known =>
        rw [className?_of_base known]
        exact iff_of_true (map_eq_ok_iff_map?.mpr (map?_of_base known)) nofun
    | @«class» name named =>
        obtain ⟨new, proper, renamed⟩ := names name named
        have called := mapInternalName?_of_plain named.plain_head renamed
        rw [map_eq_ok_iff_map?, map?_of_class named, renamed, className?_of_class named,
          proper.ofInternalName]
        simp [internalName_eq_ok_iff, called]
  · exact iff_of_true rfl nofun

end Types

/-! ## Methods -/

variable {m m' m'' : MethodDescriptor} {s : Text}

/-- A method descriptor has the types of another one, each of them renamed. -/
structure MapsTo (r : Renaming) (m m' : MethodDescriptor) : Prop where
  params : List.Forall₂ (fun d e => r.map d = .ok e) m.params m'.params
  result : r.map m.result = .ok m'.result

/-- Types that take the same places. -/
structure SameFrame (m m' : MethodDescriptor) : Prop where
  params : List.Forall₂ SameLayout m.params m'.params
  result : SameLayout m.result m'.result

/-- Types that take the same places agree in all that does not depend on names. -/
theorem SameFrame.map_eq {α : Type} {f : Descriptor → α} (same : SameFrame m m')
    (each : ∀ {d e}, SameLayout d e → f e = f d) : m'.params.map f = m.params.map f := by
  obtain ⟨params, result⟩ := m
  obtain ⟨params', result'⟩ := m'
  have all : List.Forall₂ SameLayout params params' := same.params
  clear same
  induction all with
  | nil => rfl
  | cons first _ inductionHypothesis =>
      simp only [List.map_cons, each first, List.cons.injEq, true_and]
      exact inductionHypothesis

/-- Types that take the same places take as many slots. -/
theorem SameFrame.slots (same : SameFrame m m') : m'.slots = m.slots := by
  have of_kinds (m : MethodDescriptor) :
      m.slots = (m.params.map (·.kind)).foldr (fun k n => k.slots + n) 0 := by
    rw [MethodDescriptor.slots, List.foldr_map]
  rw [of_kinds, of_kinds, same.map_eq (·.kind)]

/-- A method descriptor is renamed exactly to the text of one whose types are each renamed. -/
theorem methodDescriptor_eq_ok_iff {s' : Text} (parsed : MethodDescriptor.parse s = .ok m) :
    r.methodDescriptor s = .ok s' ↔ ∃ m', r.MapsTo m m' ∧ s' = m'.text := by
  rw [methodDescriptor, parsed]
  simp only [bind_eq_ok_iff, mapM_eq_ok_iff, pure_eq_ok_iff]
  constructor
  · rintro ⟨params, each, result, given, rfl⟩
    exact ⟨⟨params, result⟩, ⟨each, given⟩, rfl⟩
  · rintro ⟨⟨params, result⟩, ⟨each, given⟩, rfl⟩
    exact ⟨params, each, result, given, rfl⟩

/-- The types of a method descriptor can all be renamed, and what comes of them is one again. -/
theorem NamesClasses.exists_renames (names : r.NamesClasses) (proper : m.IsProper) :
    ∃ m', r.MapsTo m m' ∧ m'.IsProper ∧ SameFrame m m' ∧
      ∀ {r' m''}, r'.MapsTo m' m'' → (r.andThen r').MapsTo m m'' := by
  obtain ⟨params, result⟩ := m
  obtain ⟨spelled, last⟩ := proper
  obtain ⟨result', given, last', -, layout, next⟩ := names.exists_map last
  suffices all : ∃ params', List.Forall₂ (fun d e => r.map d = .ok e) params params' ∧
      (∀ e ∈ params', FieldSpelling e.text) ∧ List.Forall₂ SameLayout params params' ∧
      ∀ {r' : Renaming} {params''}, List.Forall₂ (fun d e => r'.map d = .ok e) params' params'' →
        List.Forall₂ (fun d e => (r.andThen r').map d = .ok e) params params'' by
    obtain ⟨params', each, proper, same, after⟩ := all
    refine ⟨⟨params', result'⟩, ⟨each, given⟩, ⟨proper, last'⟩, ⟨same, layout⟩, ?_⟩
    intro r' m'' renames
    exact ⟨after renames.params, (next r').symm.trans renames.result⟩
  clear last given layout next
  induction params with
  | nil => exact ⟨[], .nil, nofun, .nil, fun none => by cases none; exact .nil⟩
  | cons d params inductionHypothesis =>
      obtain ⟨first, others⟩ := List.forall_mem_cons.mp spelled
      obtain ⟨e, mapped, -, keeps, same, next⟩ := names.exists_map (.inl first)
      obtain ⟨params', each, proper, all, after⟩ := inductionHypothesis others
      refine ⟨e :: params', .cons mapped each, List.forall_mem_cons.mpr ⟨keeps first, proper⟩,
        .cons same all, fun renames => ?_⟩
      cases renames with
      | cons here rest => exact .cons ((next _).symm.trans here) (after rest)

/-- Types stay as they are if, and only if, their classes do. -/
theorem NamesClasses.renames_self_iff (names : r.NamesClasses) (proper : m.IsProper) :
    r.MapsTo m m ↔ ∀ type ∈ m.result :: m.params, ∀ name, type.className? = some name →
      r.internalName name = .ok name := by
  have result := names.map_eq_self_iff proper.result
  have params : (∀ d ∈ m.params, r.map d = .ok d) ↔ ∀ d ∈ m.params, ∀ name,
      d.className? = some name → r.internalName name = .ok name :=
    forall₂_congr fun d member => names.map_eq_self_iff (.inl (proper.params d member))
  rw [List.forall_mem_cons, ← result, ← params]
  refine ⟨fun renames => ⟨renames.result, List.forall₂_same.mp renames.params⟩, fun stay => ?_⟩
  exact ⟨List.forall₂_same.mpr stay.2, stay.1⟩

/-- Renaming a method descriptor by one table and then another is renaming it by both. -/
theorem NamesClasses.methodDescriptor_andThen {r' : Renaming} (names : r.NamesClasses)
    (next : r'.NamesClasses) (parsed : MethodDescriptor.parse s = .ok m) :
    (r.methodDescriptor s >>= r'.methodDescriptor) = (r.andThen r').methodDescriptor s := by
  obtain ⟨spelled, -⟩ := MethodDescriptor.parse_eq_ok_iff.mp parsed
  obtain ⟨m', first, proper, -, after⟩ := names.exists_renames spelled
  obtain ⟨m'', second, -⟩ := next.exists_renames proper
  have reread := MethodDescriptor.parse_eq_ok_iff.mpr ⟨proper, rfl⟩
  rw [(methodDescriptor_eq_ok_iff parsed).mpr ⟨m', first, rfl⟩,
    (methodDescriptor_eq_ok_iff parsed).mpr ⟨m'', after second, rfl⟩]
  exact (methodDescriptor_eq_ok_iff reread).mpr ⟨m'', second, rfl⟩

/-- A method descriptor whose classes are renamed by a table of internal names is read as the
renamed types, one for each type and in the same place as that. It stays as it is exactly if every
class in it keeps its name, as it does if no key means the class. Two tables can be applied one
after the other or at once. -/
theorem methodDescriptor_keeps_layout {table : RenameTable} (internal : table.Internal)
    (tabled : r = ofTable table ∨ r = ofPackages table)
    (parsed : MethodDescriptor.parse s = .ok m) :
    (∃ s' m', r.methodDescriptor s = .ok s' ∧ MethodDescriptor.parse s' = .ok m' ∧
      List.Forall₂ (fun d e => r.map d = .ok e) m.params m'.params ∧
      r.map m.result = .ok m'.result ∧ m'.params.length = m.params.length ∧
      m'.params.map (·.kind) = m.params.map (·.kind) ∧ m'.result.kind = m.result.kind ∧
      m'.params.map (·.element.2) = m.params.map (·.element.2) ∧
      m'.result.element.2 = m.result.element.2 ∧ m'.slots = m.slots) ∧
    (r.methodDescriptor s = .ok s ↔ ∀ type ∈ m.result :: m.params, ∀ name,
      type.className? = some name → r.internalName name = .ok name) ∧
    (∀ name, IsClassName name → (∀ row ∈ table, row.1 ≠ name ∧
      (RenameTable.isPackage row.1 = true → ¬row.1 <+: name)) → r.internalName name = .ok name) ∧
    (∀ next : RenameTable, next.Internal → ∀ r', (r' = ofTable next ∨ r' = ofPackages next) →
      (r.methodDescriptor s >>= r'.methodDescriptor) = (r.andThen r').methodDescriptor s) ∧
    (∀ next : RenameTable, next.Internal →
      ((ofTable table).methodDescriptor s >>= (ofTable next).methodDescriptor) =
        (ofTable (table.followedBy next)).methodDescriptor s) := by
  have names := namesClasses_of_tabled internal tabled
  obtain ⟨proper, rfl⟩ := MethodDescriptor.parse_eq_ok_iff.mp parsed
  refine ⟨?_, ?_, fun name => internalName_of_absent tabled, fun next checked r' kind => ?_,
    fun next checked => ?_⟩
  · obtain ⟨m', renames, proper', same, -⟩ := names.exists_renames proper
    exact ⟨m'.text, m', (methodDescriptor_eq_ok_iff parsed).mpr ⟨m', renames, rfl⟩,
      MethodDescriptor.parse_eq_ok_iff.mpr ⟨proper', rfl⟩, renames.params, renames.result,
      renames.params.length_eq.symm, same.map_eq (·.kind), same.result.kind, same.map_eq (·.dims),
      same.result.dims, same.slots⟩
  · rw [← names.renames_self_iff proper]
    refine ⟨fun stays => ?_, fun renames =>
      (methodDescriptor_eq_ok_iff parsed).mpr ⟨m, renames, rfl⟩⟩
    obtain ⟨m', renames, proper', -⟩ := names.exists_renames proper
    have given := (methodDescriptor_eq_ok_iff parsed).mpr ⟨m', renames, rfl⟩
    -- Only one method descriptor has this text.
    have text := Except.ok.inj (stays.symm.trans given)
    have same := MethodDescriptor.parse_eq_ok_iff.mpr ⟨proper', text⟩
    obtain rfl := Except.ok.inj (parsed.symm.trans same)
    exact renames
  · exact names.methodDescriptor_andThen (namesClasses_of_tabled checked kind) parsed
  · rw [← ofTable_andThen]
    exact (namesClasses_of_tabled internal (.inl rfl)).methodDescriptor_andThen
      (namesClasses_of_tabled checked (.inl rfl)) parsed

/-- A class with a parenthesis in its name takes the place of the class of an array; the long behind
it stays in its two slots. -/
theorem methodDescriptor_keeps_layout_parenthesis :
    RenameTable.Internal [("a/B", "c)V")] ∧
    MethodDescriptor.parse "([La/B;J)La/C;" = .ok ⟨[⟨"[La/B;"⟩, ⟨"J"⟩], ⟨"La/C;"⟩⟩ ∧
    (ofTable [("a/B", "c)V")]).methodDescriptor "([La/B;J)La/C;" = .ok "([Lc)V;J)La/C;" ∧
    MethodDescriptor.parse "([Lc)V;J)La/C;" = .ok ⟨[⟨"[Lc)V;"⟩, ⟨"J"⟩], ⟨"La/C;"⟩⟩ := by
  have internal : RenameTable.Internal [("a/B", "c)V")] := by
    intro row member
    obtain rfl := List.mem_singleton.mp member
    exact ⟨false, by decide⟩
  have parsed : MethodDescriptor.parse "([La/B;J)La/C;" = .ok ⟨[⟨"[La/B;"⟩, ⟨"J"⟩], ⟨"La/C;"⟩⟩ :=
    MethodDescriptor.parse_eq_ok_iff.mpr ⟨by decide, by decide⟩
  obtain ⟨⟨s', ⟨params, result⟩, given, reread, each, last, -⟩, -⟩ :=
    methodDescriptor_keeps_layout internal (.inl rfl) parsed
  obtain rfl := Except.ok.inj (last.symm.trans (by rfl : _ = Except.ok ⟨"La/C;"⟩))
  have mapped : params = [⟨"[Lc)V;"⟩, ⟨"J"⟩] := by
    obtain _ | ⟨first, _ | ⟨second, _ | _⟩⟩ := each
    rw [← Except.ok.inj ((by rfl : _ = Except.ok ⟨"[Lc)V;"⟩).symm.trans first),
      ← Except.ok.inj ((by rfl : _ = Except.ok ⟨"J"⟩).symm.trans second)]
  subst mapped
  obtain rfl : s' = "([Lc)V;J)La/C;" := (MethodDescriptor.parse_eq_ok_iff.mp reread).2
  exact ⟨internal, parsed, given, reread⟩

end Renaming

end JvmClass
