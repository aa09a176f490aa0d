import JvmClass.Proofs.Attribute.Fits
import JvmClass.Proofs.Build.Lays
import JvmClass.Proofs.Bytes.Parses

/-!
# Reading and writing what attributes are made of

Which bytes the steps read that attributes are decoded with, and what attributes are written as.
-/

namespace JvmClass

namespace Attribute

open Emit (maxCount)
open Scan (Parses)

variable {i : Input} {room : Nat}

/-- After the byte of its kind a value is a constant of the tag that the kind asks for. -/
theorem parses_const {kind : UInt8} {tag : Tag} {text : Bytes} {post : AnnotationValue → Prop}
    (asked : AnnotationValue.constTag? kind = some tag)
    (parses : Parses i.cursor (readConst i kind tag) text post) :
    Parses i.cursor (readValue i (room + 1)) (kind :: text) post := by
  rw [readValue]
  refine .pos fun _ => (Parses.byte kind).bind fun n same => ?_
  subst same
  simp only [AnnotationValue.constTag?] at asked
  split at asked <;> cases asked <;> rename_i letter <;> simp only [letter]
  all_goals simpa using parses

/-- The name and the value of an element, with `room` levels left. -/
def readElement (room : Nat) (i : Input) : Scan AnnotationElement := do
  let name ← readRef i Entry.utf8?
  return .mk (some name) (← readValue i room)

/-- What a step passes over is cut out of the buffer. -/
theorem parses_passed {β : Type} {step : Scan Unit} {next : Bytes → Scan β}
    {front back : Bytes} {post : β → Prop} (step_ : Parses i.cursor step front fun _ => True)
    (rest : Parses i.cursor (next front) back post) :
    Parses i.cursor (do
      let start ← Scan.pos
      step
      let stop ← Scan.pos
      next (← Scan.ofExcept (i.slice start.toNat (stop - start).toNat))) (front ++ back) post where
  reads {stop p} window spells fits := by
    rw [List.length_append] at fits ⊢
    obtain ⟨here, there⟩ := Cursor.spells_append_iff.mp spells
    obtain ⟨u, passed, -⟩ := step_.reads window here (by omega)
    obtain ⟨b, read, holds⟩ := rest.reads window there (by omega)
    have slice : i.slice (p : Int).toNat (((p + front.length : Nat) : Int) - p).toNat =
        .ok front := by
      have width : (((p + front.length : Nat) : Int) - p).toNat = front.length := by omega
      rw [Input.slice, Int.toNat_natCast, width, here.slice]
      rfl
    refine ⟨b, ?_, holds⟩
    rw [← Nat.add_assoc, ← read]
    exact (Scan.bind_of_ok rfl).trans ((Scan.bind_of_ok passed).trans
      ((Scan.bind_of_ok rfl).trans (Scan.bind_of_ok (Scan.ofExcept_eq_ok_iff.mpr ⟨slice, rfl⟩))))

/-- A target is passed over as its layout says. -/
theorem parses_target {β : Type} {layout : TargetLayout} {info back : Bytes}
    {next : Bytes → Scan β} {post : β → Prop} (target : layout.Matches info)
    (rest : Parses i.cursor (next info) back post) :
    Parses i.cursor (do
      let start ← Scan.pos
      match layout with
      | .fixed n => Scan.skip n
      | .rows => Scan.skip (6 * (← Scan.u2))
      let stop ← Scan.pos
      next (← Scan.ofExcept (i.slice start.toNat (stop - start).toNat))) (info ++ back) post := by
  cases layout with
  | fixed n =>
      subst target
      exact parses_passed .skip rest
  | rows =>
      obtain ⟨n, rows, few, rfl, length⟩ := target
      have skips : Parses i.cursor (do Scan.skip (6 * (← Scan.u2))) (u2 n ++ rows) fun _ =>
          True := by
        refine (Parses.u2 (by rw [maxCount] at few; omega)).bind fun n' same => ?_
        have width : 6 * (n' : Int) = (rows.length : Nat) := by omega
        rw [width]
        exact .skip
      have parses := parses_passed skips rest
      simp only [bind_assoc] at parses
      exact parses

/-- Flags are read from the two bytes that they are written as. -/
theorem parses_flags {f : AccessFlags} :
    Parses i.cursor Scan.u2 (u2 f.bits.toNat) fun n => AccessFlags.ofInt n = f :=
  (Parses.u2 f.bits.toNat_lt).mono fun n same => by
    have small := f.bits.toNat_lt
    have wraps : ((n : Int) % 2 ^ 16).toNat = f.bits.toNat := by omega
    rw [AccessFlags.ofInt, UInt16.ofInt, wraps, UInt16.ofNat_toNat]

/-- A number that fits two bytes is read from the two bytes that it is written as. -/
theorem parses_word {n : Int} (fits : Word n) :
    Parses i.cursor Scan.u2 (u2 n) fun m => (m : Int) = n := by
  obtain ⟨m, rfl⟩ := Int.eq_ofNat_of_zero_le fits.1
  exact (Parses.u2 (by have := fits.2; omega)).mono fun _ => congrArg Nat.cast

/-- A body that its reader uses up is decoded. -/
theorem decodeWith_of_fills {env : Envelope} {read : Scan AttributeBody} {text : Bytes}
    {post : AttributeBody → Prop} (addressable : i.cursor.Addressable)
    (fills : Scan.Fills i.cursor read text post) (length : env.length = text.length)
    (spells : i.cursor.Spells env.offset text) :
    ∃ a, decodeWith i env (some read) = .ok a ∧ post a.body := by
  obtain ⟨body, given, holds⟩ := fills.onWindow addressable spells
  refine ⟨.mk (some ⟨i.origin, env.offset, env.length⟩) body, ?_, holds⟩
  have window : Window i.cursor (env.offset + text.length) := ⟨spells.inside, addressable⟩
  have left : (Decoder.on i.cursor (env.offset + text.length)
      (env.offset + text.length)).remaining = 0 := by
    rw [Scan.remaining_on window (Nat.le_refl _), Nat.sub_self]
    rfl
  rw [decodeWith, length, ← Int.natCast_add, given]
  exact if_neg (not_not.mpr left)

end Attribute

/-! ## What is written of an attribute

The body of an attribute that fits is written as bytes that the layout of its name reads back, in
every input that reads the pool.
-/

namespace Emit

open Attribute
open Scan (Parses)

variable {σ : Type} {p : PoolBuilder} {options : Options} {room : Nat}

/-! ## Annotations -/

mutual

/-- An annotation is written as bytes that are read as it again, with at least as many levels as it
nests. -/
theorem means_row : ∀ (a : Annotation) {room : Nat}, a.Fits → a.depth ≤ room →
    (∀ m ∈ a.mentions, m.Accepted p) →
    Means p options (annotationRow a : Emit σ Bytes) (readAnnotationRow · room)
      fun a' => a'.bare = a.bare
  | .mk .., 0, _, shallow, _ => by simp [ Annotation.depth] at shallow
  | .mk type elements, room + 1, fits, shallow, accepted => by
      rw [ Annotation.Fits] at fits
      obtain ⟨present, few, all⟩ := fits
      rw [ Annotation.depth, Nat.add_le_add_iff_right] at shallow
      rw [ Annotation.mentions, List.forall_mem_append] at accepted
      rw [annotationRow]
      refine (Means.refUtf8 present accepted.1).bind fun head => (Lays.count few).bind fun n => ?_
      refine (means_elements elements all shallow accepted.2).bind fun body => .pure ?_
      intro q _ parses written heads i reads
      rw [written, List.append_assoc]
      simp only [readAnnotationRow]
      refine (heads i reads).bind fun t same => ?_
      exact (Parses.counted (by rw [maxCount] at few; omega) (parses i reads)).map
        fun es same' => by
        rw [ Annotation.bare, Annotation.bare, Option.map_some, same,
          AnnotationElement.bareAll_eq_map, AnnotationElement.bareAll_eq_map, same']

/-- Elements of an annotation are written as bytes that are read as them again, one by one. -/
theorem means_elements : ∀ (es : List AnnotationElement) {room : Nat}, AnnotationElement.AllFit es →
    AnnotationElement.depthAll es ≤ room →
    (∀ m ∈ AnnotationElement.mentionsAll es, m.Accepted p) →
    Means p options (annotationElements es : Emit σ Bytes)
      (fun i => Scan.times es.length (readElement room i)) fun es' =>
        es'.map AnnotationElement.bare = es.map AnnotationElement.bare
  | [], _, _, _, _ => .pure_nil fun _ => .pure rfl
  | .mk name value :: rest, room, fits, shallow, accepted => by
      rw [AnnotationElement.AllFit] at fits
      obtain ⟨present, fits, all⟩ := fits
      rw [AnnotationElement.depthAll, Nat.max_le] at shallow
      rw [AnnotationElement.mentionsAll, List.forall_mem_append, List.forall_mem_append] at accepted
      rw [annotationElements]
      refine (Means.refUtf8 present accepted.1.1).bind fun head => ?_
      refine (means_value value fits shallow.1 accepted.1.2).bind fun body => ?_
      refine (means_elements rest all shallow.2 accepted.2).bind fun others => .pure ?_
      intro q _ parses values heads i reads
      have element : Parses i.cursor (readElement room i) (head ++ body)
          fun e => e.bare = AnnotationElement.bare (.mk name value) :=
        (heads i reads).bind fun t same => (values i reads).map fun v same' => by
          rw [AnnotationElement.bare, AnnotationElement.bare, Option.map_some, same, same']
      refine (element.times_succ (parses i reads)).mono ?_
      rintro _ ⟨e, es, rfl, same, same'⟩
      rw [List.map_cons, List.map_cons, same, same']

/-- A value of an annotation is written as bytes that are read as it again, whichever kind it is
of. -/
theorem means_value : ∀ (v : AnnotationValue) {room : Nat}, v.Fits → v.depth ≤ room →
    (∀ m ∈ v.mentions, m.Accepted p) →
    Means p options (annotationValue v : Emit σ Bytes) (readValue · room) fun v' => v'.bare = v.bare
  | .missing, _, fits, _, _ => False.elim (by rwa [AnnotationValue.Fits] at fits)
  | .const .., 0, _, shallow, _ | .enum .., 0, _, shallow, _ | .class _, 0, _, shallow, _
  | .nested _, 0, _, shallow, _ | .array _, 0, _, shallow, _ => by
      simp [AnnotationValue.depth] at shallow
  | .const kind value, room + 1, fits, _, accepted => by
      rw [AnnotationValue.Fits] at fits
      obtain ⟨e, rfl, asked⟩ := fits
      rw [AnnotationValue.mentions] at accepted
      rw [annotationValue]
      have taken : Entry.tagged? e.tag e = some e := if_pos rfl
      refine (Lays.ref (accepted e (List.mem_singleton_self e))).bind fun index => .pure ?_
      rintro q _ ⟨n, rfl, denotes⟩ i reads
      refine parses_const asked
        ((parses_readRef reads (Entry.blind_tagged? _) taken denotes).map ?_)
      intro e' same
      rw [AnnotationValue.bare, AnnotationValue.bare, Option.map_some, Option.map_some, same]
  | .enum type constant, room + 1, fits, _, accepted => by
      rw [AnnotationValue.Fits] at fits
      rw [AnnotationValue.mentions, List.forall_mem_append] at accepted
      rw [annotationValue]
      refine (Means.refUtf8 fits.1 accepted.1).bind fun head => ?_
      refine (Means.refUtf8 fits.2 accepted.2).bind fun body =>
        .pure fun q _ second first i reads => ?_
      simp only [readValue]
      refine .pos fun _ => (Parses.byte _).bind fun n letter => ?_
      subst letter
      exact (first i reads).bind fun t same => (second i reads).map fun c same' => by
        rw [AnnotationValue.bare, AnnotationValue.bare, Option.map_some, Option.map_some, same,
          same']
  | .class d, room + 1, fits, _, accepted => by
      rw [AnnotationValue.Fits] at fits
      rw [AnnotationValue.mentions] at accepted
      rw [annotationValue]
      refine (Means.refUtf8 fits accepted).bind fun body => .pure fun q _ parses i reads => ?_
      simp only [readValue]
      refine .pos fun _ => (Parses.byte _).bind fun n letter => ?_
      subst letter
      exact (parses i reads).map fun t same => by
        rw [AnnotationValue.bare, AnnotationValue.bare, Option.map_some, same]
  | .nested marker, room + 1, fits, shallow, accepted => by
      rw [AnnotationValue.Fits] at fits
      rw [AnnotationValue.depth, Nat.add_le_add_iff_right] at shallow
      rw [AnnotationValue.mentions] at accepted
      rw [annotationValue]
      refine (means_row marker fits shallow accepted).bind fun body =>
        .pure fun q _ parses i reads => ?_
      simp only [readValue]
      refine .pos fun _ => (Parses.byte _).bind fun n letter => ?_
      subst letter
      exact (parses i reads).map fun a same => by
        rw [AnnotationValue.bare, AnnotationValue.bare, same]
  | .array values, room + 1, fits, shallow, accepted => by
      rw [AnnotationValue.Fits] at fits
      rw [AnnotationValue.depth, Nat.add_le_add_iff_right] at shallow
      rw [AnnotationValue.mentions] at accepted
      rw [annotationValue]
      refine (Lays.count fits.1).bind fun n => ?_
      refine (means_values values fits.2 shallow accepted).bind fun body => .pure ?_
      intro q _ parses written i reads
      rw [written]
      simp only [readValue]
      refine .pos fun _ => (Parses.byte _).bind fun n letter => ?_
      subst letter
      have few := fits.1
      rw [maxCount] at few
      exact (Parses.counted (by omega) (parses i reads)).map fun vs same => by
        rw [AnnotationValue.bare, AnnotationValue.bare, AnnotationValue.bareAll_eq_map,
          AnnotationValue.bareAll_eq_map, same]

/-- Values of an array are written as bytes that are read as them again, one by one. -/
theorem means_values : ∀ (vs : List AnnotationValue) {room : Nat}, AnnotationValue.AllFit vs →
    AnnotationValue.depthAll vs ≤ room → (∀ m ∈ AnnotationValue.mentionsAll vs, m.Accepted p) →
    Means p options (annotationValues vs : Emit σ Bytes)
      (fun i => Scan.times vs.length (readValue i room)) fun vs' =>
        vs'.map AnnotationValue.bare = vs.map AnnotationValue.bare
  | [], _, _, _, _ => .pure_nil fun _ => .pure rfl
  | v :: rest, room, fits, shallow, accepted => by
      rw [AnnotationValue.AllFit] at fits
      rw [AnnotationValue.depthAll, Nat.max_le] at shallow
      rw [AnnotationValue.mentionsAll, List.forall_mem_append] at accepted
      rw [annotationValues]
      refine (means_value v fits.1 shallow.1 accepted.1).bind fun body => ?_
      refine (means_values rest fits.2 shallow.2 accepted.2).bind fun others => .pure ?_
      intro q _ parses value i reads
      refine ((value i reads).times_succ (parses i reads)).mono ?_
      rintro _ ⟨v', vs, rfl, same, same'⟩
      rw [List.map_cons, List.map_cons, same, same']

end

/-- A type annotation is written as bytes that are read as it again: its target and path as they
are, then the annotation. -/
theorem means_typed {a : TypeAnnotation} (fits : a.Fits) (shallow : a.marker.depth ≤ room)
    (accepted : ∀ m ∈ a.marker.mentions, m.Accepted p) :
    Means p options (typeAnnotationRow a : Emit σ Bytes) (readTypeAnnotationRow · room)
      fun a' => a'.bare = a.bare := by
  obtain ⟨layout, known, target⟩ := fits.target
  have even := fits.even
  have short := fits.short
  refine .guard (by omega)
    ((means_row a.marker fits.marker shallow accepted).bind fun body => .pure ?_)
  intro q _ parses i reads
  simp only [List.append_assoc, List.singleton_append]
  refine .pos fun _ => (Parses.byte _).bind fun tag same => ?_
  subst same
  simp only [known]
  refine parses_target target
    ((Parses.u1 (n := a.typePath.length / 2) (by omega)).bind fun steps same => ?_)
  have width : 2 * (steps : Int) = (a.typePath.length : Nat) := by omega
  rw [width]
  refine Parses.bytes.bind fun path same' => (parses i reads).map fun marker same'' => ?_
  simp only [ TypeAnnotation.bare, same', same'', Nat.toUInt8_eq, UInt8.ofNat_toNat]

/-! ## Rows -/

/-- A row about a nested class is written as bytes that are read as it again. -/
theorem means_innerClass {c : InnerClass} (present : c.inner.isSome)
    (accepted : ∀ m ∈ c.mentions, m.Accepted p) :
    Means p options (innerClass c : Emit σ Bytes) readInnerClass fun c' => c'.bare = c.bare := by
  rw [InnerClass.mentions, List.forall_mem_append, List.forall_mem_append] at accepted
  refine (Means.refClass present accepted.1.1).bind fun inner => ?_
  refine (Means.optionalClass accepted.1.2).bind fun outer => ?_
  refine (Means.optionalUtf8 accepted.2).bind fun name =>
    .pure fun q _ names outers inners i reads => ?_
  simp only [List.append_assoc]
  refine (inners i reads).bind fun _ inner => (outers i reads).bind fun _ outer => ?_
  refine (names i reads).bind fun _ name => parses_flags.map fun _ flags => ?_
  simp only [InnerClass.bare, Option.map_some, inner, outer, name, flags]

/-- A row about a formal parameter is written as bytes that are read as it again. -/
theorem means_parameter {m : MethodParameter}
    (accepted : ∀ e ∈ Utf8Entry.optional m.name, e.Accepted p) :
    Means p options (methodParameter m : Emit σ Bytes) readParameter fun m' =>
      m'.bare = m.bare := by
  refine (Means.optionalUtf8 accepted).bind fun name => .pure fun q _ names i reads => ?_
  refine (names i reads).bind fun _ name => parses_flags.map fun _ flags => ?_
  simp only [MethodParameter.bare, name, flags]

/-- References to classes, all of which are there. -/
theorem means_classes {cs : List (Option ClassEntry)} (listed : Listed cs)
    (accepted : ∀ m ∈ cs.flatMap ClassEntry.optional, m.Accepted p) :
    Means p options (counted refClass cs : Emit σ Bytes) (readRefs · Entry.class?)
      fun cs' => cs'.map (Option.map ClassEntry.bare) = cs.map (Option.map ClassEntry.bare) :=
  Means.refs listed.1 fun c member => Means.refClass (listed.2 c member)
    fun m there => accepted m (List.mem_flatMap.mpr ⟨c, member, there⟩)

/-- A list of modules is written as bytes that are read as the list again. -/
theorem means_modules {ms : List (Option ModuleEntry)} (listed : Listed ms)
    (accepted : ∀ m ∈ ms.flatMap fun t => Entry.optional (t.map .module), m.Accepted p) :
    Means p options (counted (fun t => ref (t.map .module)) ms : Emit σ Bytes)
      (readRefs · Entry.module?)
      fun ms' => ms'.map (Option.map ModuleEntry.bare) = ms.map (Option.map ModuleEntry.bare) :=
  Means.refs listed.1 fun t member =>
    Means.required Entry.blind_module? (fun _ => rfl) (listed.2 t member)
      fun m there => accepted m (List.mem_flatMap.mpr ⟨t, member, there⟩)

/-- A module that a module needs is written as bytes that are read as it again. -/
theorem means_require {r : ModuleRequire} (fits : r.Fits)
    (accepted : ∀ m ∈ r.mentions, m.Accepted p) :
    Means p options (do
        let module ← ref (r.module.map .module)
        return module ++ u2 r.flags ++ (← optionalUtf8 r.version) : Emit σ Bytes)
      readRequire fun r' => r'.bare = r.bare := by
  rw [ModuleRequire.mentions, List.forall_mem_append] at accepted
  refine (Means.required Entry.blind_module? (fun _ => rfl) fits.module accepted.1).bind
    fun module => ?_
  refine (Means.optionalUtf8 accepted.2).bind fun version =>
    .pure fun q _ versions modules i reads => ?_
  simp only [List.append_assoc]
  refine (modules i reads).bind fun _ module => (parses_word fits.flags).bind fun _ flags => ?_
  refine (versions i reads).map fun _ version => ?_
  simp only [ModuleRequire.bare, Option.map_some, module, flags, version]

/-- A package that a module exports or opens is written as bytes that are read as it again. -/
theorem means_export {e : ModuleExport} (fits : e.Fits)
    (accepted : ∀ m ∈ e.mentions, m.Accepted p) :
    Means p options (moduleExport e : Emit σ Bytes) readExport fun e' => e'.bare = e.bare := by
  rw [ModuleExport.mentions, List.forall_mem_append] at accepted
  refine (Means.required Entry.blind_package? (fun _ => rfl) fits.package accepted.1).bind
    fun package => ?_
  refine (means_modules fits.targets accepted.2).bind fun targets => .pure ?_
  intro q _ targets packages i reads
  simp only [List.append_assoc]
  refine (packages i reads).bind fun _ package => (parses_word fits.flags).bind fun _ flags => ?_
  refine (targets i reads).map fun _ targets => ?_
  simp only [ModuleExport.bare, Option.map_some, package, flags, targets]

/-- A service with its providers is written as bytes that are read as it again. -/
theorem means_provide {s : ModuleProvide} (fits : s.Fits)
    (accepted : ∀ m ∈ s.mentions, m.Accepted p) :
    Means p options (do
        let service ← refClass s.service
        return service ++ (← counted refClass s.providers) : Emit σ Bytes)
      readProvide fun s' => s'.bare = s.bare := by
  rw [ModuleProvide.mentions, List.forall_mem_append] at accepted
  refine (Means.refClass fits.service accepted.1).bind fun service => ?_
  refine (means_classes fits.providers accepted.2).bind fun providers => .pure ?_
  intro q _ providers services i reads
  refine (services i reads).bind fun _ service => (providers i reads).map fun _ providers => ?_
  simp only [ModuleProvide.bare, Option.map_some, service, providers]

/-- Rows that are all written as they mean. -/
theorem means_all {α β : Type} {write : α → Emit σ Bytes} {read : Input → Scan α} {bare : α → β}
    {mentions : α → List Entry} {fits : α → Prop} {rows : List α}
    (all : rows.length ≤ maxCount ∧ ∀ a ∈ rows, fits a)
    (accepted : ∀ m ∈ rows.flatMap mentions, m.Accepted p)
    (means : ∀ a, fits a → (∀ m ∈ mentions a, m.Accepted p) →
      Means p options (write a) read fun a' => bare a' = bare a) :
    Means p options (counted write rows) (fun i => Scan.counted (read i))
      fun rows' => rows'.map bare = rows.map bare :=
  Means.counted all.1 fun a member => means a (all.2 a member)
    fun m there => accepted m (List.mem_flatMap.mpr ⟨a, member, there⟩)

/-- A module declaration is written as bytes that are read as it again. -/
theorem means_module {m : ModuleInfo} (fits : m.Fits) (accepted : ∀ e ∈ m.mentions, e.Accepted p) :
    Means p options (moduleInfo m : Emit σ Bytes) readModule
      fun body => body.bare = AttributeBody.bare (.module m) := by
  simp only [ModuleInfo.mentions, List.forall_mem_append] at accepted
  obtain ⟨⟨⟨⟨⟨⟨module, version⟩, requires⟩, exports⟩, opens⟩, uses⟩, provides⟩ := accepted
  refine (Means.required Entry.blind_module? (fun _ => rfl) fits.module module).bind fun _ => ?_
  refine (Means.optionalUtf8 version).bind fun _ => ?_
  refine (means_all fits.requires requires fun _ => means_require).bind fun _ => ?_
  refine (means_all fits.exports exports fun _ => means_export).bind fun _ => ?_
  refine (means_all fits.opens opens fun _ => means_export).bind fun _ => ?_
  refine (means_classes fits.uses uses).bind fun _ => ?_
  refine (means_all fits.provides provides fun _ => means_provide).bind fun _ => .pure ?_
  intro q _ provides uses opens exports requires version module i reads
  simp only [List.append_assoc]
  refine (module i reads).bind fun _ module => (parses_word fits.flags).bind fun _ flags => ?_
  refine (version i reads).bind fun _ version => (requires i reads).bind fun _ requires => ?_
  refine (exports i reads).bind fun _ exports => (opens i reads).bind fun _ opens => ?_
  refine (uses i reads).bind fun _ uses => (provides i reads).map fun _ provides => ?_
  simp only [AttributeBody.bare, ModuleInfo.bare, Option.map_some, module, flags, version, requires,
    exports, opens, uses, provides]

/-- The initial value of a field is written as bytes that are read as it again, if fields can have
it. -/
theorem means_constantValue {value : Option Loadable}
    (fits : ∃ v, value = some v ∧ v.isFieldValue = true)
    (accepted : ∀ m ∈ Entry.optional (value.map .loadable), m.Accepted p) :
    Means p options (constantValue value : Emit σ Bytes) readConstantValue
      fun body => body.bare = AttributeBody.bare (.constantValue value) := by
  obtain ⟨v, rfl, field⟩ := fits
  refine .guard (by simp [field]) ?_
  refine Lays.mono (Means.required Entry.blind_loadable? (fun _ => rfl) rfl accepted)
    fun q text _ parses i reads => .pos fun _ => ?_
  rw [← List.append_nil text]
  refine (parses i reads).bind fun v' same => ?_
  have same := Option.some.inj same
  have field' : v'.isFieldValue = true := by
    rw [← Loadable.isFieldValue_bare, same, Loadable.isFieldValue_bare, field]
  refine .guard (by simp [field']) (.pure ?_)
  rw [AttributeBody.bare, AttributeBody.bare, Option.map_some, Option.map_some, same]

/-! ## Bodies -/

/-- Wherever an input that reads the pool spells the bytes, decoding them gives the body back,
unless unknown attributes are left out that it holds. -/
def Restored (q : PoolBuilder) (holder : Holder) (room : Nat) (body : AttributeBody)
    (text : Bytes) :
    Prop :=
  ∀ (ctx : Context) (env : Envelope), ctx.input.Reads q → ctx.holder = holder →
    (ctx.input.options.has .dropUnknownAttributes = true → body.Familiar) →
    env.name.text = body.name → env.length = text.length →
    ctx.input.cursor.Spells env.offset text →
    ∃ a, decode ctx room env = .ok a ∧ a.body.bare = body.bare

/-- The action writes the body of an attribute in such a way that it can be decoded. -/
def Restores (p : PoolBuilder) (options : Options) (holder : Holder) (room : Nat)
    (act : Emit σ Bytes) (body : AttributeBody) : Prop :=
  Lays p options act fun q => Restored q holder room body

variable {holder : Holder}

/-- What a layout of the catalogue reads back is restored where the attribute means something. -/
theorem Restores.of_row {act : Emit σ Bytes} {body : AttributeBody} {name : String}
    {read : Input → Scan AttributeBody}
    (means : Means p options act read fun body' => body'.bare = body.bare)
    (defined : Defined holder body.name) (named : (name : Text) = body.name)
    (row : ∀ ctx env, ∃ holders, (name, holders, read ctx.input) ∈ layouts ctx room env) :
    Restores p options holder room act body := by
  refine Lays.mono means fun q text _ parses ctx env reads held _ called length spells => ?_
  subst held
  obtain ⟨holders, member⟩ := row ctx env
  rw [decode_eq, reader?_of_mem member (named.trans called.symm) (called ▸ defined)]
  exact decodeWith_of_fills reads.addressable (parses ctx.input reads).fills length spells

/-- The same of a layout that wraps up what it reads. -/
theorem Restores.of_map {α : Type} {act : Emit σ Bytes} {body : AttributeBody} {name : String}
    {read : Input → Scan α} {post : α → Prop} (wrap : α → AttributeBody)
    (means : Means p options act read post) (same : ∀ a, post a → (wrap a).bare = body.bare)
    (defined : Defined holder body.name) (named : (name : Text) = body.name)
    (row : ∀ ctx env, ∃ holders,
      (name, holders, do return wrap (← read ctx.input)) ∈ layouts ctx room env) :
    Restores p options holder room act body :=
  .of_row (means.map same) defined named row

/-- Annotations with their count. -/
theorem means_table {rows : List Annotation} (few : rows.length ≤ maxCount)
    (fits : ∀ a ∈ rows, a.Fits) (shallow : ∀ a ∈ rows, a.depth ≤ room)
    (accepted : ∀ m ∈ rows.flatMap Annotation.mentions, m.Accepted p) :
    Means p options (annotationTable rows : Emit σ Bytes)
      (fun i => Scan.counted (readAnnotationRow i room))
      fun rows' => rows'.map Annotation.bare = rows.map Annotation.bare :=
  Means.counted few fun a member => means_row a (fits a member) (shallow a member)
    fun m there => accepted m (List.mem_flatMap.mpr ⟨a, member, there⟩)

/-- The body of an attribute that is valid in a holder is restored there. -/
theorem restores_plain {offsets : Option Offsets} {code : InputCode → Emit σ Bytes}
    {mentioned : InputCode → List Entry} {body : AttributeBody} (plain : body.Plain holder room)
    (accepted : ∀ m ∈ body.mentionsWith mentioned, m.Accepted p) :
    Restores p options holder room (attributeBody offsets code body) body := by
  obtain ⟨defined, unlisted, fits, shallow⟩ := plain
  cases body with
  | sourceFile file =>
      exact .of_map (fun a => .sourceFile (some a)) (Means.refUtf8 fits accepted)
        (fun a same => congrArg AttributeBody.sourceFile same) (defined rfl) rfl
        fun _ _ => by simp [layouts, plainLayouts]
  | sourceDebugExtension data =>
      refine .pure fun q _ ctx env reads held _ called length spells => ?_
      subst held
      have member : (("SourceDebugExtension", [.class], do
          return .sourceDebugExtension (← Scan.bytes (← Scan.remaining))) :
            String × List Holder × Scan AttributeBody) ∈ layouts ctx room env := by
        simp [layouts, plainLayouts]
      have fills : Scan.Fills ctx.input.cursor (do
          return AttributeBody.sourceDebugExtension (← Scan.bytes (← Scan.remaining))) data
          fun body => body.bare = .sourceDebugExtension data :=
        Scan.Fills.rest.map fun _ same => congrArg AttributeBody.sourceDebugExtension same
      rw [decode_eq, reader?_of_mem member called.symm (called ▸ defined rfl)]
      exact decodeWith_of_fills reads.addressable fills length spells
  | innerClasses rows =>
      exact .of_map .innerClasses (means_all fits accepted fun _ => means_innerClass)
        (fun _ same => congrArg AttributeBody.innerClasses same) (defined rfl) rfl
        fun _ _ => by simp [layouts, plainLayouts]
  | enclosingMethod owner method =>
      rw [AttributeBody.mentionsWith, List.forall_mem_append] at accepted
      have means : Means p options (attributeBody offsets code (.enclosingMethod owner method) :
          Emit σ Bytes)
          (fun i => do
            let owner ← readRef i Entry.class?
            return AttributeBody.enclosingMethod (some owner)
              (← readOptionalRef i Entry.nameAndType?))
          fun body => body.bare = AttributeBody.bare (.enclosingMethod owner method) := by
        refine (Means.refClass fits accepted.1).bind fun _ => ?_
        refine (Means.optional Entry.blind_nameAndType? (fun _ => rfl) accepted.2).bind fun _ =>
          .pure ?_
        intro q _ method owner i reads
        refine (owner i reads).bind fun _ owner => (method i reads).map fun _ method => ?_
        rw [AttributeBody.bare, AttributeBody.bare, Option.map_some, owner, method]
      exact .of_row means (defined rfl) rfl fun _ _ => by simp [layouts, plainLayouts]
  | nestHost host =>
      exact .of_map (fun a => .nestHost (some a)) (Means.refClass fits accepted)
        (fun a same => congrArg AttributeBody.nestHost same) (defined rfl) rfl
        fun _ _ => by simp [layouts, plainLayouts]
  | nestMembers members =>
      exact .of_map .nestMembers (means_classes fits accepted)
        (fun _ same => congrArg AttributeBody.nestMembers same) (defined rfl) rfl
        fun _ _ => by simp [layouts, plainLayouts]
  | permittedSubclasses subclasses =>
      exact .of_map .permittedSubclasses (means_classes fits accepted)
        (fun _ same => congrArg AttributeBody.permittedSubclasses same) (defined rfl) rfl
        fun _ _ => by simp [layouts, plainLayouts]
  | module info =>
      exact .of_row (means_module fits accepted) (defined rfl) rfl
        fun _ _ => by simp [layouts, plainLayouts]
  | signature text =>
      exact .of_map (fun a => .signature (some a)) (Means.refUtf8 fits accepted)
        (fun a same => congrArg AttributeBody.signature same) (defined rfl) rfl
        fun _ _ => by simp [layouts, plainLayouts]
  | deprecated =>
      exact .of_row (.pure_nil fun _ => .pure rfl) (defined rfl) rfl
        fun _ _ => by simp [layouts, plainLayouts]
  | synthetic =>
      exact .of_row (.pure_nil fun _ => .pure rfl) (defined rfl) rfl
        fun _ _ => by simp [layouts, plainLayouts]
  | unknown name data =>
      refine .pure fun q _ ctx env _ _ _ called length spells => ?_
      have absent : reader? ctx room env = none := reader?_eq_none (called ▸ unlisted rfl)
      rw [decode_eq, absent, decodeWith, Input.slice, length, spells.slice, called]
      exact ⟨_, rfl, rfl⟩
  | constantValue value =>
      exact .of_row (means_constantValue fits accepted) (defined rfl) rfl
        fun _ _ => by simp [layouts, plainLayouts]
  | exceptions classes =>
      exact .of_map .exceptions (means_classes fits accepted)
        (fun _ same => congrArg AttributeBody.exceptions same) (defined rfl) rfl
        fun _ _ => by simp [layouts, plainLayouts]
  | methodParameters rows =>
      have held (m : MethodParameter) (member : m ∈ rows) :
          ∀ e ∈ Utf8Entry.optional m.name, e.Accepted p :=
        fun e there => accepted e (List.mem_flatMap.mpr ⟨m, member, there⟩)
      exact .of_row (.guard (Nat.not_lt.mpr fits) (Means.few AttributeBody.methodParameters fits
          (fun m member => means_parameter (held m member))
          fun _ same => congrArg AttributeBody.methodParameters same)) (defined rfl) rfl
        fun _ _ => by simp [layouts, plainLayouts]
  | annotationDefault value =>
      exact .of_map .annotationDefault (means_value value fits shallow accepted)
        (fun _ same => congrArg AttributeBody.annotationDefault same) (defined rfl) rfl
        fun _ _ => by simp [layouts, plainLayouts]
  | annotations visible rows =>
      exact .of_map (.annotations visible) (means_table fits.1 fits.2 shallow accepted)
        (fun _ same => congrArg (AttributeBody.annotations visible) same) (defined rfl) rfl
        fun _ _ => mem_of_annotating visible ⟨_, List.mem_cons_self⟩
  | parameterAnnotations visible rows =>
      have held (row : List Annotation) (member : row ∈ rows) :
          ∀ m ∈ row.flatMap Annotation.mentions, m.Accepted p :=
        fun m there => accepted m (List.mem_flatMap.mpr ⟨row, member, there⟩)
      exact .of_row (.guard (Nat.not_lt.mpr fits.1) (Means.few
          (AttributeBody.parameterAnnotations visible) fits.1
          (fun row member => means_table (fits.2 row member).1 (fits.2 row member).2
            (shallow row member) (held row member))
          fun _ same => congrArg (AttributeBody.parameterAnnotations visible) same))
            (defined rfl) rfl
        fun _ _ => mem_of_annotating visible ⟨_, List.mem_cons_of_mem _ List.mem_cons_self⟩
  | typeAnnotations visible rows =>
      refine .of_map (.typeAnnotations visible) (Means.counted fits.1 fun a member =>
          means_typed (fits.2 a member) (shallow a member)
            fun m there => accepted m (List.mem_flatMap.mpr ⟨a, member, there⟩))
        (fun _ same => congrArg (AttributeBody.typeAnnotations visible) same) (defined rfl) rfl
        fun _ _ => mem_of_annotating visible
          ⟨_, List.mem_cons_of_mem _ (List.mem_cons_of_mem _ List.mem_cons_self)⟩
  | record => exact fits.elim
  | stackMapTable => exact fits.elim
  | code => exact fits.elim

end Emit

end JvmClass
