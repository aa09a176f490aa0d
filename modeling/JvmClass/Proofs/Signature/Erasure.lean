import JvmClass.Renaming
import JvmClass.Proofs.Outcome
import JvmClass.Proofs.Signature.Declarations

/-!
# Renaming commutes with erasure

A renamed signature names at every class type the class that its name is renamed to, whether a
member type stays one or becomes a type of its own, and is of the same shape otherwise. So it
erases to what a descriptor of the same type is renamed to.
-/

namespace JvmClass

/-! ## Names and descriptors -/

/-- The front of a text is dropped exactly if it stands there. -/
theorem Text.dropFront?_eq_some_iff {front s rest : Text} :
    dropFront? front s = some rest ↔ s = front ++ rest := by
  induction front generalizing s with
  | nil => simp [dropFront?]
  | cons f front inductionHypothesis =>
      cases s with
      | nil => simp [dropFront?]
      | cons c s =>
          rw [dropFront?]
          split
          · rename_i same
            rw [inductionHypothesis, same, List.cons_append, List.cons_inj_right]
          · rename_i different
            simpa using fun same => absurd same.symm different

namespace Descriptor

/-- The descriptor of a class has its name between its letter and a semicolon. -/
theorem ofInternalName_of_plain {name : Text} (plain : name.head? ≠ some 91) :
    ofInternalName name = ⟨76 :: name ++ [59]⟩ := by
  rw [ofInternalName, if_neg plain]
  rfl

/-- The descriptor of a class of arrays is its name. -/
theorem ofInternalName_of_array {name : Text} (array : name.head? = some 91) :
    ofInternalName name = ⟨name⟩ := by
  rw [ofInternalName, if_pos array]

/-- An array has the element of its component, one bracket deeper. -/
theorem element_array (d : Descriptor) : d.array.element = (d.element.1, d.element.2 + 1) := by
  simp [element, array]

/-- A type that is no array is its own element. -/
theorem element_of_other {d : Descriptor} (other : d.text.head? ≠ some 91) :
    d.element = (d, 0) := by
  obtain ⟨text⟩ := d
  cases text with
  | nil => rfl
  | cons c text =>
      have plain : c ≠ 91 := by simpa using other
      simp [element, plain]

/-- The internal name of an array is its descriptor. -/
theorem internalName?_of_array {d : Descriptor} (array : d.text.head? = some 91) :
    d.internalName? = some d.text := by
  rw [internalName?, if_neg]
  simp [isClass, array, Text.byte]

/-- The descriptor for an internal name has this name. -/
theorem internalName?_ofInternalName (name : Text) :
    (ofInternalName name).internalName? = some name := by
  by_cases array : name.head? = some 91
  · rw [ofInternalName_of_array array, internalName?_of_array array]
  · rw [ofInternalName_of_plain array]
    simp [internalName?, isClass, Text.byte]

end Descriptor

/-- A name that a table gives stands in one of its rows. -/
theorem RenameTable.mem_of_target? {table : RenameTable} {name new : Text}
    (found : table.target? name = some new) : ∃ row ∈ table, row.2 = new := by
  rw [target?, Option.map_eq_some_iff] at found
  obtain ⟨row, found, same⟩ := found
  exact ⟨row, List.mem_of_find?_eq_some found, same⟩

namespace Renaming

variable {r : Renaming}

/-- The renaming gives the descriptor of a class for every class that one of the names stands for,
an array for the class of its elements. -/
def Answers (r : Renaming) (names : List Text) : Prop :=
  ∀ name ∈ names, (Descriptor.ofInternalName name).element.1.isClass = true →
    ∃ new : Text, new.head? ≠ some 91 ∧
      r.rename (Descriptor.ofInternalName name).element.1 = some (.ofInternalName new)

/-- A renaming that answers for some names does so for fewer. -/
theorem Answers.mono {names fewer : List Text} (answers : r.Answers names) (among : fewer ⊆ names) :
    r.Answers fewer :=
  fun name member => answers name (among member)

/-- An array is renamed by its component. -/
theorem map?_array (d : Descriptor) : r.map? d.array = (r.map? d).map .array := by
  rw [map?, map?, Descriptor.element_array]
  dsimp only
  split
  · cases r.rename d.element.1 with
    | none => rfl
    | some e => simp [Descriptor.array, List.replicate_succ]
  · rfl

/-- A name for which the renaming has a class descriptor is renamed, and so is its descriptor. -/
theorem exists_map? {names : List Text} (answers : r.Answers names) {name : Text}
    (member : name ∈ names) : ∃ new, r.map? (.ofInternalName name) = some (.ofInternalName new) ∧
      r.mapInternalName? name = some new := by
  suffices mapped : ∃ new, r.map? (.ofInternalName name) = some (.ofInternalName new) by
    obtain ⟨new, mapped⟩ := mapped
    refine ⟨new, mapped, ?_⟩
    rw [mapInternalName?, mapped]
    exact Descriptor.internalName?_ofInternalName new
  have answer := answers name member
  rw [map?]
  dsimp only
  split
  · rename_i isClass
    obtain ⟨new, plain, renamed⟩ := answer isClass
    rw [renamed, Option.map_some]
    generalize (Descriptor.ofInternalName name).element.2 = dims
    cases dims with
    | zero => exact ⟨new, rfl⟩
    | succ dims =>
        have array : (List.replicate (dims + 1) 91 ++
            (Descriptor.ofInternalName new).text).head? = some 91 := by simp [List.replicate_succ]
        exact ⟨_, by rw [Descriptor.ofInternalName_of_array array]⟩
  · exact ⟨name, rfl⟩

/-- An internal name is renamed exactly if the renaming has a new one. -/
theorem internalName_eq_ok_iff {name new : Text} :
    r.internalName name = .ok new ↔ r.mapInternalName? name = some new := by
  rw [internalName]
  cases r.mapInternalName? name <;> simp [answered]

/-- The renaming has a new name for every one of the names. -/
def Names (r : Renaming) (names : List Text) : Prop :=
  ∀ name ∈ names, ∃ new, r.internalName name = .ok new

/-- A renaming with new names for some has them for fewer. -/
theorem Names.mono {names fewer : List Text} (named : r.Names names) (among : fewer ⊆ names) :
    r.Names fewer :=
  fun name member => named name (among member)

/-- A renaming that answers for names has new ones for them. -/
theorem Answers.names {names : List Text} (answers : r.Answers names) : r.Names names := by
  intro name member
  obtain ⟨new, -, mapped⟩ := exists_map? answers member
  exact ⟨new, internalName_eq_ok_iff.mpr mapped⟩

end Renaming

namespace Signature

/-! ## The classes that a signature names -/

mutual

/-- The binary names of the class types in a type, those of outer types among them. -/
def JavaType.classNames : JavaType → List Text
  | .base _ => []
  | .var _ => []
  | .array component => component.classNames
  | .class type => type.classNames

/-- The binary names of a class type, of its outer types and in its arguments. -/
def ClassType.classNames : ClassType → List Text
  | .top name args => name :: argNames args
  | .inner outer name args =>
    (outer.internalName ++ [36] ++ name) :: (outer.classNames ++ argNames args)

/-- The binary names of the class types in an argument. -/
def TypeArg.classNames : TypeArg → List Text
  | .exact type => type.classNames
  | .extends type => type.classNames
  | .super type => type.classNames
  | .any => []

/-- The binary names of the class types in arguments. -/
def argNames : List TypeArg → List Text
  | [] => []
  | arg :: args => arg.classNames ++ argNames args

end

/-- The binary names of the class types in the bounds of a type parameter. -/
def TypeParam.classNames (p : TypeParam) : List Text :=
  p.classBound.toList.flatMap (·.classNames) ++ p.interfaceBounds.flatMap (·.classNames)

/-- The binary names of the class types in a class signature. -/
def ClassSig.classNames (s : ClassSig) : List Text :=
  s.typeParams.flatMap (·.classNames) ++ s.superclass.classNames
    ++ s.interfaces.flatMap (·.classNames)

/-- The binary names of the class types in a method signature. -/
def MethodSig.classNames (s : MethodSig) : List Text :=
  s.typeParams.flatMap (·.classNames) ++ s.params.flatMap (·.classNames) ++ s.result.classNames
    ++ s.throws.flatMap (·.classNames)

/-- The descriptor that a type erases to. A type variable erases to a bound, which is not in its
signature. -/
def JavaType.erasure : JavaType → Option Descriptor
  | .base letter => some ⟨[letter]⟩
  | .var _ => none
  | .array component => component.erasure.map .array
  | .class type => some (.ofInternalName type.internalName)

/-! ## Signatures of the same shape -/

/-- Type parameters have the same name and as many bounds, related one by one. -/
structure TypeParam.Matches (related : JavaType → JavaType → Prop) (p p' : TypeParam) : Prop where
  name : p'.name = p.name
  classBound : Option.Rel related p.classBound p'.classBound
  interfaceBounds : List.Forall₂ related p.interfaceBounds p'.interfaceBounds

/-- Class signatures have as many parts, related one by one. -/
structure ClassSig.Matches (related : JavaType → JavaType → Prop) (s s' : ClassSig) : Prop where
  typeParams : List.Forall₂ (TypeParam.Matches related) s.typeParams s'.typeParams
  superclass : related (.class s.superclass) (.class s'.superclass)
  interfaces : List.Forall₂ (fun c c' => related (.class c) (.class c')) s.interfaces s'.interfaces

/-- Method signatures have as many parts, related one by one. -/
structure MethodSig.Matches (related : JavaType → JavaType → Prop) (s s' : MethodSig) : Prop where
  typeParams : List.Forall₂ (TypeParam.Matches related) s.typeParams s'.typeParams
  params : List.Forall₂ related s.params s'.params
  result : related s.result s'.result
  throws : List.Forall₂ related s.throws s'.throws

end Signature

namespace Renaming

open Signature

variable {r : Renaming}

/-! ## Renamed signatures -/

mutual

/-- A type with every class type renamed and all else as it was. -/
inductive RenamedType (r : Renaming) : JavaType → JavaType → Prop
  | base (letter : UInt8) : RenamedType r (.base letter) (.base letter)
  | var (name : Text) : RenamedType r (.var name) (.var name)
  | array {component component' : JavaType} (renamed : RenamedType r component component') :
      RenamedType r (.array component) (.array component')
  | «class» {type type' : ClassType} (renamed : RenamedClass r type type') :
      RenamedType r (.class type) (.class type')

/-- A class type whose binary name is renamed, with its own arguments renamed. A member type stays
with its renamed outer type where the new name extends that of the outer type. -/
inductive RenamedClass (r : Renaming) : ClassType → ClassType → Prop
  | top {name new : Text} {args args' : List TypeArg} (named : r.internalName name = .ok new)
      (arguments : RenamedArgs r args args') : RenamedClass r (.top name args) (.top new args')
  | nested {outer outer' : ClassType} {name new : Text} {args args' : List TypeArg}
      (enclosing : RenamedClass r outer outer')
      (named : r.internalName (ClassType.inner outer name args).internalName =
        .ok (ClassType.inner outer' new args').internalName)
      (arguments : RenamedArgs r args args') :
      RenamedClass r (.inner outer name args) (.inner outer' new args')
  | flattened {outer outer' : ClassType} {name new : Text} {args args' : List TypeArg}
      (enclosing : RenamedClass r outer outer')
      (named : r.internalName (ClassType.inner outer name args).internalName = .ok new)
      (apart : ¬outer'.internalName ++ [36] <+: new) (arguments : RenamedArgs r args args') :
      RenamedClass r (.inner outer name args) (.top new args')

/-- An argument of the same wildcard with its type renamed. -/
inductive RenamedArg (r : Renaming) : TypeArg → TypeArg → Prop
  | exact {type type' : JavaType} (renamed : RenamedType r type type') :
      RenamedArg r (.exact type) (.exact type')
  | «extends» {type type' : JavaType} (renamed : RenamedType r type type') :
      RenamedArg r (.extends type) (.extends type')
  | super {type type' : JavaType} (renamed : RenamedType r type type') :
      RenamedArg r (.super type) (.super type')
  | any : RenamedArg r .any .any

/-- As many arguments, each renamed. -/
inductive RenamedArgs (r : Renaming) : List TypeArg → List TypeArg → Prop
  | nil : RenamedArgs r [] []
  | cons {arg arg' : TypeArg} {args args' : List TypeArg} (first : RenamedArg r arg arg')
      (others : RenamedArgs r args args') : RenamedArgs r (arg :: args) (arg' :: args')

end

/-- The name of a renamed class type is the renamed name. -/
theorem RenamedClass.internalName {c c' : ClassType} (renamed : RenamedClass r c c') :
    r.internalName c.internalName = .ok c'.internalName := by
  cases renamed with
  | top named _ => exact named
  | nested _ named _ => exact named
  | flattened _ named _ _ => exact named

/-- A type renamed, which erases to what its erasure is renamed to. -/
structure Renamed (r : Renaming) (t t' : JavaType) : Prop where
  type : RenamedType r t t'
  erasure : t'.erasure = t.erasure.bind r.map?


/-! ## What renaming gives -/

/-- A nested type stays with its outer type if its new name starts with that one's, and is written
at the top otherwise. -/
theorem nest_cases (outer : ClassType) (name : Text) (args : List TypeArg) :
    (∃ rest, nest outer name args = .inner outer rest args ∧
        name = outer.internalName ++ [36] ++ rest) ∨
      nest outer name args = .top name args ∧ ¬outer.internalName ++ [36] <+: name := by
  rw [nest]
  split
  · rename_i rest found
    exact .inl ⟨rest, rfl, Text.dropFront?_eq_some_iff.mp found⟩
  · rename_i missing
    refine .inr ⟨rfl, fun ⟨rest, form⟩ => ?_⟩
    rw [Text.dropFront?_eq_some_iff.mpr form.symm] at missing
    cases missing

mutual

/-- Renaming a type renames each class type in it. -/
theorem renamedType_of_type : (t : JavaType) → {t' : JavaType} → r.type t = .ok t' →
    RenamedType r t t'
  | .base letter, _, given => by
      rw [type, pure_eq_ok_iff] at given
      exact given ▸ .base letter
  | .var name, _, given => by
      rw [type, pure_eq_ok_iff] at given
      exact given ▸ .var name
  | .array component, _, given => by
      simp only [type, bind_eq_ok_iff, pure_eq_ok_iff] at given
      obtain ⟨_, renamed, rfl⟩ := given
      exact .array (renamedType_of_type component renamed)
  | .class c, _, given => by
      simp only [type, bind_eq_ok_iff, pure_eq_ok_iff] at given
      obtain ⟨_, renamed, rfl⟩ := given
      exact .class (renamedClass_of_classType c renamed)

/-- What a class type is taken to is a renamed one. The induction goes through its arguments and the
types in them. -/
theorem renamedClass_of_classType : (c : ClassType) → {c' : ClassType} → r.classType c = .ok c' →
    RenamedClass r c c'
  | .top name args, _, given => by
      simp only [classType, bind_eq_ok_iff, pure_eq_ok_iff] at given
      obtain ⟨_, named, _, renamed, rfl⟩ := given
      exact .top named (renamedArgs_of_typeArgs args renamed)
  | .inner outer name args, _, given => by
      simp only [classType, bind_eq_ok_iff, pure_eq_ok_iff] at given
      obtain ⟨new, named, outer', enclosing, args', renamed, rfl⟩ := given
      have enclosing := renamedClass_of_classType outer enclosing
      have arguments := renamedArgs_of_typeArgs args renamed
      rcases nest_cases outer' new args' with ⟨rest, form, rfl⟩ | ⟨form, apart⟩
      · rw [form]
        exact .nested enclosing named arguments
      · rw [form]
        exact .flattened enclosing named apart arguments

/-- What arguments are taken to are renamed ones, one by one. -/
theorem renamedArgs_of_typeArgs : (args : List TypeArg) → {args' : List TypeArg} →
    r.typeArgs args = .ok args' → RenamedArgs r args args'
  | [], _, given => by
      rw [typeArgs, pure_eq_ok_iff] at given
      exact given ▸ .nil
  | arg :: args, _, given => by
      simp only [typeArgs, bind_eq_ok_iff, pure_eq_ok_iff] at given
      obtain ⟨_, first, _, others, rfl⟩ := given
      exact .cons (renamedArg_of_typeArg arg first) (renamedArgs_of_typeArgs args others)

/-- What an argument is taken to is a renamed one of the same wildcard. -/
theorem renamedArg_of_typeArg : (arg : TypeArg) → {arg' : TypeArg} → r.typeArg arg = .ok arg' →
    RenamedArg r arg arg'
  | .exact t, _, given => by
      simp only [typeArg, bind_eq_ok_iff, pure_eq_ok_iff] at given
      obtain ⟨_, renamed, rfl⟩ := given
      exact .exact (renamedType_of_type t renamed)
  | .extends t, _, given => by
      simp only [typeArg, bind_eq_ok_iff, pure_eq_ok_iff] at given
      obtain ⟨_, renamed, rfl⟩ := given
      exact .extends (renamedType_of_type t renamed)
  | .super t, _, given => by
      simp only [typeArg, bind_eq_ok_iff, pure_eq_ok_iff] at given
      obtain ⟨_, renamed, rfl⟩ := given
      exact .super (renamedType_of_type t renamed)
  | .any, _, given => by
      rw [typeArg, pure_eq_ok_iff] at given
      exact given ▸ .any

end

mutual

/-- Renaming gives a type where the renaming has a name for every class that is named. -/
theorem exists_type : (t : JavaType) → r.Names t.classNames → ∃ t', r.type t = .ok t'
  | .base letter, _ => ⟨_, by rw [type]; rfl⟩
  | .var name, _ => ⟨_, by rw [type]; rfl⟩
  | .array component, named => by
      obtain ⟨component', renamed⟩ := exists_type component named
      exact ⟨.array component', by rw [type, renamed]; rfl⟩
  | .class c, named => by
      obtain ⟨c', renamed⟩ := exists_classType c named
      exact ⟨.class c', by rw [type, renamed]; rfl⟩

/-- A class type is taken to something if its names have new ones. -/
theorem exists_classType : (c : ClassType) → r.Names c.classNames → ∃ c', r.classType c = .ok c'
  | .top name args, named => by
      rw [ClassType.classNames] at named
      obtain ⟨new, given⟩ := named _ List.mem_cons_self
      obtain ⟨args', renamed⟩ := exists_typeArgs args (named.mono (List.subset_cons_self _ _))
      exact ⟨.top new args', by rw [classType, given, renamed]; rfl⟩
  | .inner outer name args, named => by
      rw [ClassType.classNames] at named
      obtain ⟨new, given⟩ := named _ List.mem_cons_self
      obtain ⟨outer', enclosing⟩ := exists_classType outer (named.mono fun _ member =>
        List.mem_cons_of_mem _ (List.mem_append_left _ member))
      obtain ⟨args', renamed⟩ := exists_typeArgs args (named.mono fun _ member =>
        List.mem_cons_of_mem _ (List.mem_append_right _ member))
      exact ⟨nest outer' new args', by
        rw [classType, ClassType.internalName, given, enclosing, renamed]; rfl⟩

/-- Arguments are taken to something if their names have new ones. -/
theorem exists_typeArgs : (args : List TypeArg) → r.Names (argNames args) →
    ∃ args', r.typeArgs args = .ok args'
  | [], _ => ⟨_, by rw [typeArgs]; rfl⟩
  | arg :: args, named => by
      rw [argNames] at named
      obtain ⟨arg', first⟩ := exists_typeArg arg (named.mono (List.subset_append_left _ _))
      obtain ⟨args', others⟩ := exists_typeArgs args (named.mono (List.subset_append_right _ _))
      exact ⟨arg' :: args', by rw [typeArgs, first, others]; rfl⟩

/-- An argument is taken to something if its names have new ones. -/
theorem exists_typeArg : (arg : TypeArg) → r.Names arg.classNames → ∃ arg', r.typeArg arg = .ok arg'
  | .exact t, named => by
      obtain ⟨t', renamed⟩ := exists_type t named
      exact ⟨.exact t', by rw [typeArg, renamed]; rfl⟩
  | .extends t, named => by
      obtain ⟨t', renamed⟩ := exists_type t named
      exact ⟨.extends t', by rw [typeArg, renamed]; rfl⟩
  | .super t, named => by
      obtain ⟨t', renamed⟩ := exists_type t named
      exact ⟨.super t', by rw [typeArg, renamed]; rfl⟩
  | .any, _ => ⟨_, by rw [typeArg]; rfl⟩

end

/-- The internal name of a class type is one of its names. -/
theorem ClassType.internalName_mem : (c : ClassType) → c.internalName ∈ c.classNames
  | .top _ _ => List.mem_cons_self
  | .inner _ _ _ => List.mem_cons_self

/-- A renamed type erases to what the descriptor of the type is renamed to. -/
theorem erasure_of_renamedType (t : JavaType) {t' : JavaType} (result : t.isResult = true)
    (answers : r.Answers t.classNames) (renamed : RenamedType r t t') :
    t'.erasure = t.erasure.bind r.map? := by
  cases t with
  | base letter =>
      cases renamed
      have plain : letter ≠ 76 ∧ letter ≠ 91 := by
        simp only [JavaType.isResult, JavaType.isProper, JavaType.isVoid, Bool.or_eq_true,
          decide_eq_true_eq] at result
        constructor
        · rintro rfl
          exact absurd result (by decide)
        · rintro rfl
          exact absurd result (by decide)
      have element := Descriptor.element_of_other (d := ⟨[letter]⟩) (by simpa using plain.2)
      have other : Descriptor.isClass ⟨[letter]⟩ = false := by
        simpa [Descriptor.isClass, Text.byte] using plain.1
      simp [JavaType.erasure, map?, element, other]
  | var name =>
      cases renamed
      rfl
  | array component =>
      cases renamed with
      | array renamed =>
      have proper : component.isResult = true := by
        simp only [JavaType.isResult, JavaType.isVoid, Bool.or_false] at result ⊢
        rw [JavaType.isProper] at result
        rw [result, Bool.true_or]
      rw [JavaType.erasure, JavaType.erasure,
        erasure_of_renamedType component proper answers renamed]
      cases component.erasure with
      | none => rfl
      | some d => exact (map?_array d).symm
  | «class» c =>
      cases renamed with
      | «class» renamed =>
      obtain ⟨new, mapped, named⟩ := exists_map? answers (ClassType.internalName_mem c)
      have named' := internalName_eq_ok_iff.mp renamed.internalName
      rw [named, Option.some.injEq] at named'
      rw [JavaType.erasure, JavaType.erasure, Option.bind_some, mapped, named']

/-- A type that can be read can be a result. -/
theorem isResult_of_isProper {t : JavaType} (proper : t.isProper = true) : t.isResult = true := by
  rw [JavaType.isResult, proper, Bool.true_or]

/-! ## Declarations -/

/-- The renaming takes every type whose classes are among some names to a related one. -/
def Takes (r : Renaming) (related : JavaType → JavaType → Prop) (names : List Text) : Prop :=
  ∀ t : JavaType, t.isResult = true → t.classNames ⊆ names → ∃ t', r.type t = .ok t' ∧ related t t'

/-- A renaming that answers for some names takes their types to ones that erase to the renamed
erasure. -/
theorem takes_renamed {names : List Text} (answers : r.Answers names) :
    r.Takes (Renamed r) names := by
  intro t result among
  obtain ⟨t', given⟩ := exists_type t (answers.mono among).names
  have renamed := renamedType_of_type t given
  exact ⟨t', given, renamed, erasure_of_renamedType t result (answers.mono among) renamed⟩

section

variable {related : JavaType → JavaType → Prop} {names : List Text}

/-- A renaming that takes types with some names takes those with fewer. -/
theorem Takes.mono {fewer : List Text} (takes : r.Takes related names) (among : fewer ⊆ names) :
    r.Takes related fewer :=
  fun t result within => takes t result (List.Subset.trans within among)

/-- A renaming that takes the types in a list takes those in each of its items. -/
theorem Takes.of_mem {α : Type} {namesOf : α → List Text} {as : List α}
    (takes : r.Takes related (as.flatMap namesOf)) {a : α} (member : a ∈ as) :
    r.Takes related (namesOf a) :=
  takes.mono fun _ named => List.mem_flatMap_of_mem member named

/-- A type that can be read is taken to a related one. -/
theorem Takes.proper {t : JavaType} (takes : r.Takes related t.classNames)
    (proper : t.isProper = true) : ∃ t', r.type t = .ok t' ∧ related t t' :=
  takes t (isResult_of_isProper proper) (List.Subset.refl _)

/-- A class type that can be read is taken to a related one. -/
theorem Takes.classType {c : ClassType} (takes : r.Takes related c.classNames)
    (proper : c.isProper = true) :
    ∃ c', r.classType c = .ok c' ∧ related (.class c) (.class c') := by
  obtain ⟨t', given, renamed⟩ := takes (.class c) (isResult_of_isProper proper) (List.Subset.refl _)
  simp only [type, bind_eq_ok_iff, pure_eq_ok_iff] at given
  obtain ⟨c', given, rfl⟩ := given
  exact ⟨c', given, renamed⟩

/-- What is done to each of some items is done to the list of them. -/
theorem exists_mapM {α β : Type} {f : α → Except Error β} {related : α → β → Prop} {as : List α}
    (each : ∀ a ∈ as, ∃ b, f a = .ok b ∧ related a b) :
    ∃ bs, as.mapM f = .ok bs ∧ List.Forall₂ related as bs := by
  simp only [mapM_eq_ok_iff]
  induction as with
  | nil => exact ⟨[], .nil, .nil⟩
  | cons a as inductionHypothesis =>
      obtain ⟨b, given, first⟩ := each a List.mem_cons_self
      obtain ⟨bs, all, others⟩ :=
        inductionHypothesis fun a member => each a (List.mem_cons_of_mem _ member)
      exact ⟨b :: bs, .cons given all, .cons first others⟩

/-- A type parameter that can be read is taken to one with related bounds. -/
theorem Takes.typeParam {p : TypeParam} (takes : r.Takes related p.classNames)
    (proper : p.isProper = true) : ∃ p', r.typeParam p = .ok p' ∧ p.Matches related p' := by
  obtain ⟨name, bound, bounds⟩ := p
  simp only [TypeParam.isProper, Bool.and_eq_true, List.all_eq_true] at proper
  obtain ⟨bounds', given, renamed⟩ := exists_mapM fun b member =>
    ((takes.mono (List.subset_append_right _ _)).of_mem member).proper
      (JavaType.isBound_iff.mp (proper.2 b member)).2
  cases bound with
  | none =>
      refine ⟨⟨name, none, bounds'⟩, ?_, rfl, .none, renamed⟩
      rw [Renaming.typeParam]
      dsimp only
      rw [given]
      rfl
  | some b =>
      have first : r.Takes related b.classNames := takes.mono fun _ named =>
        List.mem_append_left _ (List.mem_flatMap_of_mem (List.mem_singleton.mpr rfl) named)
      obtain ⟨b', given', renamed'⟩ := first.proper (JavaType.isBound_iff.mp proper.1.2).2
      refine ⟨⟨name, some b', bounds'⟩, ?_, rfl, .some renamed', renamed⟩
      rw [Renaming.typeParam]
      dsimp only
      rw [given', given]
      rfl

/-- Each of several type parameters that can be read in a row can be read. -/
theorem isProper_of_mem {ps : List TypeParam} (proper : paramsProper ps = true) :
    ∀ p ∈ ps, p.isProper = true := by
  induction ps with
  | nil => exact nofun
  | cons p ps inductionHypothesis =>
      rw [paramsProper, Bool.and_eq_true, Bool.and_eq_true] at proper
      rintro q member
      rcases List.mem_cons.mp member with rfl | member
      · exact proper.1.1
      · exact inductionHypothesis proper.2 q member

/-- A class signature that can be read is taken to one whose parts are related. -/
theorem Takes.classSig {s : ClassSig} (takes : r.Takes related s.classNames)
    (proper : s.isProper = true) : ∃ s', r.classSig s = .ok s' ∧ s.Matches related s' := by
  simp only [ClassSig.isProper, Bool.and_eq_true, List.all_eq_true] at proper
  obtain ⟨⟨properParams, properSuper⟩, properOthers⟩ := proper
  rw [ClassSig.classNames] at takes
  have front := takes.mono (List.subset_append_left _ _)
  obtain ⟨params, given, renamed⟩ := exists_mapM fun p member =>
    ((front.mono (List.subset_append_left _ _)).of_mem member).typeParam
      (isProper_of_mem properParams p member)
  obtain ⟨superclass, given₁, renamed₁⟩ :=
    (front.mono (List.subset_append_right _ _)).classType properSuper
  obtain ⟨interfaces, given₂, renamed₂⟩ := exists_mapM fun c member =>
    ((takes.mono (List.subset_append_right _ _)).of_mem member).classType (properOthers c member)
  refine ⟨⟨params, superclass, interfaces⟩, ?_, renamed, renamed₁, renamed₂⟩
  rw [Renaming.classSig, given, given₁, given₂]
  rfl

/-- A method signature that can be read is taken to one whose parts are related. -/
theorem Takes.methodSig {s : MethodSig} (takes : r.Takes related s.classNames)
    (proper : s.isProper = true) : ∃ s', r.methodSig s = .ok s' ∧ s.Matches related s' := by
  simp only [MethodSig.isProper, Bool.and_eq_true, List.all_eq_true] at proper
  obtain ⟨⟨⟨properParams, properTypes⟩, properResult⟩, properThrows⟩ := proper
  rw [MethodSig.classNames] at takes
  have front := takes.mono (List.subset_append_left _ _)
  have types := front.mono (List.subset_append_left _ _)
  obtain ⟨typeParams, given, renamed⟩ := exists_mapM fun p member =>
    ((types.mono (List.subset_append_left _ _)).of_mem member).typeParam
      (isProper_of_mem properParams p member)
  obtain ⟨result, given₁, renamed₁⟩ := front s.result properResult (List.subset_append_right _ _)
  obtain ⟨params, given₂, renamed₂⟩ := exists_mapM fun t member =>
    ((types.mono (List.subset_append_right _ _)).of_mem member).proper (properTypes t member)
  obtain ⟨throws, given₃, renamed₃⟩ := exists_mapM fun t member =>
    ((takes.mono (List.subset_append_right _ _)).of_mem member).proper (properThrows t member).2
  refine ⟨⟨typeParams, params, result, throws⟩, ?_, renamed, renamed₂, renamed₁, renamed₃⟩
  rw [Renaming.methodSig, given, given₁, given₂, given₃]
  rfl

end

/-- Renaming a signature that was read gives one that names at every class type the renamed class,
of the same shape, and erasing commutes with it: for a class type, a type, and the signatures of
classes and methods, wherever the renaming has an answer for every class that is named. -/
theorem erasure_commutes (r : Renaming) (s : Text) :
    (∀ c, parseType s = .ok (.class c) → r.Answers c.classNames → ∃ c', r.classType c = .ok c' ∧
      r.internalName c.internalName = .ok c'.internalName) ∧
    (∀ t, parseType s = .ok t → r.Answers t.classNames → ∃ t', r.type t = .ok t' ∧ Renamed r t t') ∧
    (∀ c, parseClass s = .ok c → r.Answers c.classNames →
      ∃ c', r.classSig c = .ok c' ∧ c.Matches (Renamed r) c') ∧
    (∀ m, parseMethod s = .ok m → r.Answers m.classNames →
      ∃ m', r.methodSig m = .ok m' ∧ m.Matches (Renamed r) m') := by
  refine ⟨fun c parsed answers => ?_, fun t parsed answers => ?_, fun c parsed answers => ?_,
    fun m parsed answers => ?_⟩
  · obtain ⟨c', given⟩ := exists_classType c answers.names
    exact ⟨c', given, (renamedClass_of_classType c given).internalName⟩
  · exact (takes_renamed answers).proper (parseType_eq_ok_iff.mp parsed).1
  · exact (takes_renamed answers).classSig (parseClass_eq_ok_iff.mp parsed).1
  · exact (takes_renamed answers).methodSig (parseMethod_eq_ok_iff.mp parsed).1

/-- A table answers for every class by its plain name, and gives class descriptors where its new
names are plain. -/
theorem answers_ofTable {table : RenameTable} {names : List Text}
    (targets : ∀ row ∈ table, row.2.head? ≠ some 91)
    (plain : ∀ name ∈ names, name.head? ≠ some 91) :
    (ofTable table).Answers names := by
  intro name member _
  have other : (Descriptor.ofInternalName name).text.head? ≠ some 91 := by
    rw [Descriptor.ofInternalName_of_plain (plain name member)]
    simp
  rw [Descriptor.element_of_other other]
  simp only [ofTable, Descriptor.internalName?_ofInternalName, Option.map_some]
  split
  · rename_i new found
    obtain ⟨row, member, rfl⟩ := RenameTable.mem_of_target? found
    exact ⟨row.2, targets row member, rfl⟩
  · exact ⟨name, plain name member, rfl⟩

/-- A member type whose new name does not extend that of its outer type loses the outer type's
arguments and names the renamed class all the same. -/
theorem erasure_commutes_flattened : ∃ t t', parseType "LA<[LC;>.B<+TT;>;" = .ok t ∧
    (ofTable [("A", "x/Y"), ("A$B", "Z"), ("C", "c")]).type t = .ok t' ∧
      Renamed (ofTable [("A", "x/Y"), ("A$B", "Z"), ("C", "c")]) t t' ∧ t'.text = "LZ<+TT;>;" := by
  have parsed : parseType "LA<[LC;>.B<+TT;>;" = .ok (.class (.inner
      (.top "A" [.exact (.array (.class (.top "C" [])))]) "B" [.extends (.var "T")])) :=
    parseType_eq_ok_iff.mpr ⟨by decide, by decide⟩
  obtain ⟨t', given, renamed⟩ := (erasure_commutes
    (ofTable [("A", "x/Y"), ("A$B", "Z"), ("C", "c")]) _).2.1 _ parsed
      (answers_ofTable (by decide) (by decide))
  have value : (ofTable [("A", "x/Y"), ("A$B", "Z"), ("C", "c")]).type (.class (.inner
      (.top "A" [.exact (.array (.class (.top "C" [])))]) "B" [.extends (.var "T")])) =
      .ok (.class (.top "Z" [.extends (.var "T")])) := by rfl
  obtain rfl := Except.ok.inj (given.symm.trans value)
  exact ⟨_, _, parsed, given, renamed, by decide⟩

end Renaming

end JvmClass
