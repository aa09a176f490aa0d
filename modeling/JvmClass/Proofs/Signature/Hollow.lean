import JvmClass.Proofs.Signature.Validity
import JvmClass.Renaming.Transform

/-!
# Names that cannot be looked up

An array is named by its descriptor, and its class is looked up by what stands in there between `L`
and `;`. A name is not checked when it is read, so it may be brackets and a lone `L`, between which
and its end nothing can stand. Main statement: such names are all that a table has no answer for, in
whatever a name, a descriptor or a signature is renamed.
-/

namespace JvmClass

namespace Descriptor

variable {s field rest : Text}

/-- What stands before the element type are brackets. -/
theorem brackets (s : Text) : ∀ b ∈ s.takeWhile (· = 91), b = 91 := fun b member =>
  of_decide_eq_true (List.all_eq_true.mp List.all_takeWhile b member)

/-- Behind its brackets, a descriptor that was read is more than a lone `L`. -/
theorem element_of_split? (split : split? s = some (field, rest)) :
    (⟨field⟩ : Descriptor).element.1.text ≠ [76] := by
  have behind {tail : Text} :
      (s.takeWhile (· = 91) ++ tail).dropWhile (· = 91) = tail.dropWhile (· = 91) :=
    List.dropWhile_append_of_pos fun b member => decide_eq_true (brackets s b member)
  rw [element]
  unfold split? at split
  dsimp only at split ⊢
  split at split
  · cases split
  rename_i c tail _
  split at split
  · rename_i base
    obtain ⟨rfl, -⟩ := Prod.mk.inj (Option.some.inj split)
    rw [behind]
    have letters : baseLetters.all (fun c => [c].dropWhile (· = 91) ≠ [76]) = true := by decide
    exact of_decide_eq_true (List.all_eq_true.mp letters c base)
  · split at split
    · rename_i letter
      split at split
      · split at split
        · cases split
        · obtain ⟨rfl, -⟩ := Prod.mk.inj (Option.some.inj split)
          rw [List.append_assoc, behind, letter]
          simp [Text.byte]
      · cases split
    · cases split

/-- A descriptor that was parsed has a class with a name, or none, for its element. -/
theorem element_of_parse {d : Descriptor} (parsed : parse s = .ok d) : d.element.1.text ≠ [76] := by
  rw [parse] at parsed
  split at parsed
  · rename_i split
    obtain rfl := Except.ok.inj parsed
    obtain ⟨whole, -⟩ := append_of_split? split
    rw [List.append_nil] at whole
    exact whole ▸ element_of_split? split
  · cases parsed

end Descriptor

namespace MethodDescriptor

variable {whole s result : Text} {offset : Nat} {done params : List Descriptor}

/-- The parameters of a method descriptor that were read have classes with names for their
elements. -/
theorem element_of_readParams (read : readParams whole offset done s = .ok (params, result))
    (before : ∀ d ∈ done, d.element.1.text ≠ [76]) : ∀ d ∈ params, d.element.1.text ≠ [76] := by
  fun_induction readParams whole offset done s with
  | case1 => cases read
  | case2 done offset rest =>
      obtain ⟨rfl, -⟩ := Prod.mk.inj (Except.ok.inj read)
      exact fun d member => before d (List.mem_reverse.mp member)
  | case3 => cases read
  | case4 done offset c rest more field rest' split inductionHypothesis =>
      exact inductionHypothesis read
        (List.forall_mem_cons.mpr ⟨Descriptor.element_of_split? split, before⟩)

/-- All types of a method descriptor that was parsed have classes with names for their elements. -/
theorem element_of_parse {d : MethodDescriptor} (parsed : parse s = .ok d) :
    ∀ type ∈ d.result :: d.params, type.element.1.text ≠ [76] := by
  rw [parse.eq_def] at parsed
  split at parsed
  · cases parsed
  split at parsed
  · cases parsed
  split at parsed
  · cases parsed
  rename_i params result read
  have types := element_of_readParams read fun type member => absurd member List.not_mem_nil
  split at parsed
  · obtain rfl := Except.ok.inj parsed
    have void : Descriptor.void.element.1.text ≠ [76] := by decide
    exact List.forall_mem_cons.mpr ⟨void, types⟩
  · split at parsed
    · rename_i split
      obtain rfl := Except.ok.inj parsed
      obtain ⟨same, -⟩ := Descriptor.append_of_split? split
      rw [List.append_nil] at same
      exact List.forall_mem_cons.mpr ⟨same ▸ Descriptor.element_of_split? split, types⟩
    · cases parsed

end MethodDescriptor

namespace Renaming

open Signature

variable {r : Renaming}

/-- The name of an array of a class without a name: brackets and a lone `L`. -/
def Hollow (name : Text) : Prop := ∃ n, name = List.replicate (n + 1) 91 ++ [76]

/-- The descriptor for a name has a lone letter for its element exactly if the name is hollow. -/
theorem element_iff_hollow {name : Text} :
    (Descriptor.ofInternalName name).element.1.text = [76] ↔ Hollow name := by
  by_cases array : name.head? = some 91
  · rw [Descriptor.ofInternalName_of_array array, Descriptor.element]
    dsimp only
    constructor
    · intro last
      have brackets := List.eq_replicate_of_mem (Descriptor.brackets name)
      have whole := List.takeWhile_append_dropWhile (p := (· = (91 : UInt8))) (l := name)
      obtain ⟨back, rfl⟩ := List.head?_eq_some_iff.mp array
      refine ⟨(back.takeWhile (· = 91)).length, ?_⟩
      rw [last, brackets] at whole
      simpa [List.takeWhile_cons] using whole.symm
    · rintro ⟨n, rfl⟩
      rw [List.dropWhile_append_of_pos fun b member => by
        simpa using List.eq_of_mem_replicate member]
      decide
  · constructor
    · rw [Descriptor.element_of_other (by simp [Descriptor.ofInternalName_of_plain array]),
        Descriptor.ofInternalName_of_plain array]
      simp
    · rintro ⟨n, rfl⟩
      exact absurd (by simp [List.replicate_succ]) array

/-- A renaming by a table, of whichever kind. -/
def Tabled (r : Renaming) : Prop := ∃ table, r = ofTable table ∨ r = ofPackages table

namespace Tabled

variable (tabled : r.Tabled)
include tabled

/-- The descriptor of a class that is given is the descriptor of a name, or stays. -/
theorem rename_cases {d e : Descriptor} (renamed : r.rename d = some e) :
    e = d ∨ ∃ new, e = .ofInternalName new := by
  obtain ⟨table, rfl | rfl⟩ := tabled <;>
    obtain ⟨name, -, rfl⟩ := Option.map_eq_some_iff.mp renamed
  · split
    · exact .inr ⟨_, rfl⟩
    · exact .inl rfl
  · exact .inr ⟨_, rfl⟩

/-- A table has no answer exactly for the lone letter of a class. -/
theorem rename_eq_none_iff {d : Descriptor} : r.rename d = none ↔ d.text = [76] := by
  have asked : r.rename d = none ↔ d.internalName? = none := by
    obtain ⟨table, rfl | rfl⟩ := tabled <;> exact Option.map_eq_none_iff
  rw [asked]
  refine ⟨fun missing => by_contra fun named => ?_, fun lone => ?_⟩
  · obtain ⟨name, given⟩ := exists_internalName? named
    cases given.symm.trans missing
  · rw [Descriptor.internalName?, Descriptor.isClass, lone]
    rfl

/-- A descriptor is renamed unless it is a lone `L` behind its brackets. -/
theorem map?_eq_none_iff {d : Descriptor} : r.map? d = none ↔ d.element.1.text = [76] := by
  rw [map?]
  dsimp only
  split
  · rw [Option.map_eq_none_iff, tabled.rename_eq_none_iff]
  · rename_i other
    refine ⟨fun stuck => (by cases stuck), fun lone => absurd ?_ other⟩
    rw [Descriptor.isClass, lone]
    rfl

/-- A table has no new name exactly for a hollow one. -/
theorem mapInternalName?_eq_none_iff {name : Text} :
    r.mapInternalName? name = none ↔ Hollow name := by
  rw [← element_iff_hollow, ← tabled.map?_eq_none_iff]
  by_cases array : name.head? = some 91
  · obtain ⟨n, form⟩ := mapInternalName?_of_array (r := r) array
    rw [form, Descriptor.ofInternalName_of_array array, map?]
    dsimp only
    split
    · rw [Option.map_eq_none_iff, Option.map_eq_none_iff]
    · simp
  · have other : (Descriptor.ofInternalName name).text.head? ≠ some 91 := by
      simp [Descriptor.ofInternalName_of_plain array]
    have named : r.map? (.ofInternalName name) ≠ none := by
      rw [ne_eq, tabled.map?_eq_none_iff, Descriptor.element_of_other other,
        Descriptor.ofInternalName_of_plain array]
      simp
    obtain ⟨e, renamed⟩ := Option.ne_none_iff_exists'.mp
      (mt tabled.rename_eq_none_iff.mp (by simp [Descriptor.ofInternalName_of_plain array]) :
        r.rename (.ofInternalName name) ≠ none)
    obtain ⟨new, rfl⟩ : ∃ new, e = .ofInternalName new :=
      (tabled.rename_cases renamed).elim (fun same => ⟨name, same⟩) id
    simp [mapInternalName?_of_plain array renamed, named]

end Tabled

/-! ## Signatures -/

/-- A renaming has new names for a list exactly if it has them for its first and for the others. -/
theorem names_cons {name : Text} {names : List Text} :
    r.Names (name :: names) ↔ (∃ new, r.internalName name = .ok new) ∧ r.Names names :=
  List.forall_mem_cons

/-- A renaming has new names for two lists exactly if it has them for each. -/
theorem names_append {first second : List Text} :
    r.Names (first ++ second) ↔ r.Names first ∧ r.Names second := List.forall_mem_append

/-- A step asks for these names and for nothing else that can be missing: it fails with no other
error, and not at all unless one of them has no answer. -/
def Asks (r : Renaming) {α : Type} (x : Except Error α) (names : List Text) : Prop :=
  Yields (· = .outOfBounds) x fun _ => r.Names names

/-- Renaming an internal name fails only if there is no new one. -/
theorem asks_internalName (name : Text) :
    Yields (· = Error.outOfBounds) (r.internalName name) fun new => r.internalName name = .ok new :=
  ⟨fun _ given => given, fun e missing => by
    rw [internalName] at missing
    cases mapped : r.mapInternalName? name with
    | none =>
        rw [mapped] at missing
        exact (Except.error.inj missing).symm
    | some new =>
        rw [mapped] at missing
        cases missing⟩

mutual

/-- The names that are asked for to rename a type are those in it. -/
theorem asks_type : (t : JavaType) → r.Asks (r.type t) t.classNames
  | .base letter => by
      rw [type]
      exact .pure nofun
  | .var name => by
      rw [type]
      exact .pure nofun
  | .array component => by
      rw [type]
      exact (asks_type component).bind fun _ named => .pure named
  | .class c => by
      rw [type]
      exact (asks_classType c).bind fun _ named => .pure named

/-- Renaming a class type asks for its names, with those in its arguments. -/
theorem asks_classType : (c : ClassType) → r.Asks (r.classType c) c.classNames
  | .top name args => by
      rw [classType]
      exact (asks_internalName name).bind fun new given => (asks_typeArgs args).bind
        fun _ named => .pure (names_cons.mpr ⟨⟨new, given⟩, named⟩)
  | .inner outer name args => by
      rw [classType]
      exact (asks_internalName _).bind fun new given => (asks_classType outer).bind
        fun _ enclosing => (asks_typeArgs args).bind fun _ named =>
          .pure (names_cons.mpr ⟨⟨new, given⟩, names_append.mpr ⟨enclosing, named⟩⟩)

/-- Renaming arguments asks for their names. -/
theorem asks_typeArgs : (args : List TypeArg) → r.Asks (r.typeArgs args) (argNames args)
  | [] => by
      rw [typeArgs]
      exact .pure nofun
  | arg :: args => by
      rw [typeArgs]
      exact (asks_typeArg arg).bind fun _ first => (asks_typeArgs args).bind
        fun _ others => .pure (names_append.mpr ⟨first, others⟩)

/-- Renaming an argument asks for the names of its type. -/
theorem asks_typeArg : (arg : TypeArg) → r.Asks (r.typeArg arg) arg.classNames
  | .exact t => by
      rw [typeArg]
      exact (asks_type t).bind fun _ named => .pure named
  | .extends t => by
      rw [typeArg]
      exact (asks_type t).bind fun _ named => .pure named
  | .super t => by
      rw [typeArg]
      exact (asks_type t).bind fun _ named => .pure named
  | .any => by
      rw [typeArg]
      exact .pure nofun

end

/-- Renaming a list asks for the names of its items. -/
theorem asks_mapM {α β : Type} {f : α → Except Error β} {names : α → List Text}
    (each : ∀ a, r.Asks (f a) (names a)) (as : List α) :
    r.Asks (as.mapM f) (as.flatMap names) := by
  induction as with
  | nil =>
      rw [List.mapM_nil]
      exact .pure nofun
  | cons a as inductionHypothesis =>
      rw [List.mapM_cons]
      exact (each a).bind fun _ first => inductionHypothesis.bind fun _ others =>
        .pure (names_append.mpr ⟨first, others⟩)

/-- Renaming a type parameter asks for the names in its bounds. -/
theorem asks_typeParam (p : TypeParam) : r.Asks (r.typeParam p) p.classNames := by
  obtain ⟨name, bound, bounds⟩ := p
  have others := asks_mapM (r := r) asks_type bounds
  rw [typeParam, TypeParam.classNames]
  dsimp only
  cases bound with
  | none =>
      exact others.bind fun _ named =>
        .pure (names_append.mpr ⟨fun c member => absurd member List.not_mem_nil, named⟩)
  | some b =>
      have bounded : r.Asks (some <$> r.type b) b.classNames := Yields.map (asks_type b)
      refine bounded.bind fun _ first => others.bind fun _ named =>
        .pure (names_append.mpr ⟨?_, named⟩)
      simpa using first

/-- Renaming a class signature asks for its names. -/
theorem asks_classSig (s : ClassSig) : r.Asks (r.classSig s) s.classNames :=
  (asks_mapM asks_typeParam _).bind fun _ params => (asks_classType _).bind fun _ superclass =>
    (asks_mapM asks_classType _).bind fun _ interfaces =>
      .pure (names_append.mpr ⟨names_append.mpr ⟨params, superclass⟩, interfaces⟩)

/-- Renaming a method signature asks for its names. -/
theorem asks_methodSig (s : MethodSig) : r.Asks (r.methodSig s) s.classNames :=
  (asks_mapM asks_typeParam _).bind fun _ typeParams => (asks_type _).bind fun _ result =>
    (asks_mapM asks_type _).bind fun _ params => (asks_mapM asks_type _).bind fun _ throws =>
      .pure (names_append.mpr
        ⟨names_append.mpr ⟨names_append.mpr ⟨typeParams, params⟩, result⟩, throws⟩)

/-! ## What has no answer -/

/-- An answer that is missing is the error of a read that is out of bounds. -/
theorem answered_eq_error_iff {α : Type} {answer : Option α} {e : Error} :
    answered answer = .error e ↔ answer = none ∧ e = .outOfBounds := by
  cases answer <;> simp [answered, eq_comm]

/-- A step that only puts its result in place fails exactly if it does. -/
theorem return_eq_error_iff {α β : Type} {x : Except Error α} {f : α → β} {e : Error} :
    (do return f (← x)) = .error e ↔ x = .error e := by
  cases x <;> simp [bind, Except.bind, pure, Except.pure]

/-- A table has new names for all exactly if none of them is hollow. -/
theorem Tabled.names_iff (tabled : r.Tabled) {names : List Text} :
    r.Names names ↔ ¬∃ name ∈ names, Hollow name := by
  simp only [Names, internalName_eq_ok_iff, ← tabled.mapInternalName?_eq_none_iff, not_exists,
    not_and, ← ne_eq, Option.ne_none_iff_exists']

/-- A step that asks for names, and for nothing else, has no outcome where one is hollow. -/
theorem Tabled.stuck_iff (tabled : r.Tabled) {α : Type} {x : Except Error α} {names : List Text}
    (asks : r.Asks x names) (answers : r.Names names → ∃ a, x = .ok a) :
    x = .error .outOfBounds ↔ ∃ name ∈ names, Hollow name := by
  rw [← not_iff_not, ← tabled.names_iff]
  refine ⟨fun goes => ?_, fun named stuck => ?_⟩
  · cases ran : x with
    | ok a => exact asks.1 a ran
    | error e => exact absurd (asks.2 e ran ▸ ran) goes
  · obtain ⟨a, given⟩ := answers named
    cases given.symm.trans stuck

/-- Renaming the descriptor of a field stays in bounds, whatever the text. -/
theorem fieldDescriptor_in_bounds (tabled : r.Tabled) (s : Text) :
    r.fieldDescriptor s ≠ .error .outOfBounds := by
  intro stuck
  rw [fieldDescriptor] at stuck
  split at stuck
  · cases stuck
  split at stuck
  · cases stuck
  · rename_i d parsed
    rw [return_eq_error_iff, map, answered_eq_error_iff, tabled.map?_eq_none_iff] at stuck
    exact Descriptor.element_of_parse parsed stuck.1

/-- Renaming the descriptor of a method stays in bounds, whatever the text. -/
theorem methodDescriptor_in_bounds (tabled : r.Tabled) (s : Text) :
    r.methodDescriptor s ≠ .error .outOfBounds := by
  intro stuck
  rw [methodDescriptor] at stuck
  split at stuck
  · cases stuck
  · rename_i m parsed
    have types := MethodDescriptor.element_of_parse parsed
    have mapped (d : Descriptor) (member : d ∈ m.result :: m.params) :
        Yields (· ≠ Error.outOfBounds) (r.map d) fun _ => True := by
      refine ⟨fun _ _ => trivial, fun e missing => ?_⟩
      rw [map, answered_eq_error_iff, tabled.map?_eq_none_iff] at missing
      exact absurd missing.1 (types d member)
    have params := Yields.mapM fun d member => mapped d (List.mem_cons_of_mem _ member)
    exact (params.bind fun _ _ => (mapped _ List.mem_cons_self).bind fun _ _ =>
      @Yields.pure _ _ _ (fun _ => True) _ trivial).2 _ stuck rfl

/-- What a table has no answer for: a descriptor that is a lone `L` behind its brackets, which none
is that was read as one, and a name of that form, wherever a signature that was read has it. -/
theorem out_of_bounds_iff (tabled : r.Tabled) :
    (∀ d, r.map d = .error .outOfBounds ↔ d.element.1.text = [76]) ∧
    (∀ name, r.internalName name = .error .outOfBounds ↔ Hollow name) ∧
    (∀ s, r.fieldDescriptor s ≠ .error .outOfBounds) ∧
    (∀ s, r.methodDescriptor s ≠ .error .outOfBounds) ∧
    (∀ s, r.typeSignature s = .error .outOfBounds ↔
      ∃ t, parseType s = .ok t ∧ ∃ name ∈ t.classNames, Hollow name) ∧
    (∀ s, r.classSignature s = .error .outOfBounds ↔
      ∃ c, parseClass s = .ok c ∧ ∃ name ∈ c.classNames, Hollow name) ∧
    (∀ s, r.methodSignature s = .error .outOfBounds ↔
      ∃ m, parseMethod s = .ok m ∧ ∃ name ∈ m.classNames, Hollow name) := by
  refine ⟨fun d => ?_, fun name => ?_, fieldDescriptor_in_bounds tabled,
    methodDescriptor_in_bounds tabled, fun s => ?_, fun s => ?_, fun s => ?_⟩
  · rw [map, answered_eq_error_iff, and_iff_left rfl, tabled.map?_eq_none_iff]
  · rw [internalName, answered_eq_error_iff, and_iff_left rfl, tabled.mapInternalName?_eq_none_iff]
  · rw [typeSignature]
    cases parsed : parseType s with
    | error e => simp [throw, throwThe, MonadExceptOf.throw]
    | ok t =>
        have proper := (parseType_eq_ok_iff.mp parsed).1
        simp only [return_eq_error_iff, Except.ok.injEq, exists_eq_left']
        exact tabled.stuck_iff (asks_type t) fun named =>
          ((takes_renamedType named).proper proper).imp fun _ => And.left
  · rw [classSignature]
    cases parsed : parseClass s with
    | error e => simp [throw, throwThe, MonadExceptOf.throw]
    | ok c =>
        have proper := (parseClass_eq_ok_iff.mp parsed).1
        simp only [return_eq_error_iff, Except.ok.injEq, exists_eq_left']
        exact tabled.stuck_iff (asks_classSig c) fun named =>
          ((takes_renamedType named).classSig proper).imp fun _ => And.left
  · rw [methodSignature]
    cases parsed : parseMethod s with
    | error e => simp [throw, throwThe, MonadExceptOf.throw]
    | ok m =>
        have proper := (parseMethod_eq_ok_iff.mp parsed).1
        simp only [return_eq_error_iff, Except.ok.injEq, exists_eq_left']
        exact tabled.stuck_iff (asks_methodSig m) fun named =>
          ((takes_renamedType named).methodSig proper).imp fun _ => And.left

/-- The array `[L` is what is missing in a name, and in a type that is read although it has it. -/
theorem out_of_bounds_iff_bracket : Tabled (ofPackages [("a/", "b/")]) ∧
    (ofPackages [("a/", "b/")]).internalName "[[L" = .error .outOfBounds ∧
    parseType "La/B<L[L;>;" =
      .ok (.class (.top "a/B" [.exact (.class (.top "[L" []))])) ∧
    (ofPackages [("a/", "b/")]).typeSignature "La/B<L[L;>;" = .error .outOfBounds := by
  have tabled : Tabled (ofPackages [("a/", "b/")]) := ⟨_, .inr rfl⟩
  have parsed : parseType "La/B<L[L;>;" =
      .ok (.class (.top "a/B" [.exact (.class (.top "[L" []))])) :=
    parseType_eq_ok_iff.mpr ⟨by decide, by decide⟩
  obtain ⟨-, names, -, -, types, -⟩ := out_of_bounds_iff tabled
  exact ⟨tabled, (names "[[L").mpr ⟨1, by decide⟩, parsed,
    (types _).mpr ⟨_, parsed, "[L", by decide, 0, by decide⟩⟩

/-- A class file that names its class `[L`. -/
def hollowClass : Array UInt8 :=
  #[0xCA, 0xFE, 0xBA, 0xBE, 0, 0, 0, 52, 0, 3,
    1, 0, 2, 91, 76,
    7, 0, 1,
    0, 33, 0, 2, 0, 0, 0, 0, 0, 0, 0, 0, 0, 0]

/-- The class is read, and no table has an answer for it. -/
theorem hollow_class_out_of_bounds : ∃ c, ClassFile.parse 0 hollowClass .none = .ok c ∧
    ∀ table, (ofTable table).classFile c = .error .outOfBounds ∧
      (ofPackages table).classFile c = .error .outOfBounds := by
  have ran : (ClassFile.parse 0 hollowClass .none).toOption.map (·.this.internalName) =
      some [91, 76] := by
    decide +kernel
  obtain ⟨c, parsed, named⟩ := Option.map_eq_some_iff.mp ran
  have stuck {r : Renaming} (tabled : r.Tabled) : r.classFile c = .error .outOfBounds := by
    have hollow : r.mapInternalName? c.this.internalName = none :=
      tabled.mapInternalName?_eq_none_iff.mpr ⟨0, named⟩
    rw [classFile, internalName, hollow]
    rfl
  exact ⟨c, toOption_eq_some_iff.mp parsed, fun table =>
    ⟨stuck ⟨table, .inl rfl⟩, stuck ⟨table, .inr rfl⟩⟩⟩

end Renaming

end JvmClass
