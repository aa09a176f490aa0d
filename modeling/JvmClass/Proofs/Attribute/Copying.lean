import JvmClass.Proofs.Attribute.Safety
import JvmClass.Proofs.Attribute.Table
import JvmClass.Proofs.Attribute.Writing

/-!
# What is copied of an attribute

The body of an attribute that was decoded from one input says the same in another one whose
constants denote the same at the same indices. The room that the first reading had does not matter
as long as what it read fits the room of the second. The components of a record have tables of
attributes of their own, which are read as the table of a class is, but one level deeper and as
attributes of a component.
-/

namespace JvmClass

/-- At each index where another input has a constant, the input has one that denotes the same. -/
def Input.Covers (i i₀ : Input) : Prop :=
  ∀ (n : Nat) (e : Entry), i₀.pool.entry n = .ok e →
    ∃ e', i.pool.entry n = .ok e' ∧ e'.bare = e.bare

/-- What a pool is written as covers the input that it started from. -/
theorem Input.Reads.covers {i parent : Input} {q : PoolBuilder} (reads : i.Reads q)
    (known : q.parent = some parent) : i.Covers parent := by
  intro n e found
  have holds := (reads.inv.exact parent known).tells.entry found
  obtain rfl : e.index = n := congrArg Place.index holds.place
  exact reads.entry e (.inherited known holds)

/-- Elements nest no deeper than the deepest of their values. -/
theorem AnnotationElement.depthAll_le_iff {es : List AnnotationElement} {n : Nat} :
    depthAll es ≤ n ↔ ∀ e ∈ es, e.value.depth ≤ n := by
  induction es with
  | nil => simp [depthAll]
  | cons e rest inductionHypothesis =>
      cases e
      rw [depthAll, Nat.max_le, inductionHypothesis, List.forall_mem_cons, value]

/-- Values nest no deeper than the deepest of them. -/
theorem AnnotationValue.depthAll_le_iff {vs : List AnnotationValue} {n : Nat} :
    depthAll vs ≤ n ↔ ∀ v ∈ vs, v.depth ≤ n := by
  induction vs with
  | nil => simp [depthAll]
  | cons v rest inductionHypothesis =>
      rw [depthAll, Nat.max_le, inductionHypothesis, List.forall_mem_cons]

/-- A value counts for a level of its own, even where it nests nothing. -/
theorem AnnotationValue.depth_pos (v : AnnotationValue) : 0 < v.depth := by
  cases v <;> simp [depth]

namespace Attribute

open Scan (Follows Parses Returns)

/-! ## How deep attributes nest -/

section Depth

variable {ctx : Context} {room : Nat} {env : Envelope}

/-- Annotations and the values of their elements nest no deeper than there is room. -/
theorem returns_annotated (i : Input) (room : Nat) :
    Returns (readAnnotationRow i room) ( Annotation.depth · ≤ room) ∧
      Returns (readValue i room) (AnnotationValue.depth · ≤ room) := by
  induction room with
  | zero =>
      constructor
      · rw [readAnnotationRow]
        exact .bind fun _ => .fail
      · rw [readValue]
        exact .bind fun _ => .fail
  | succ room inductionHypothesis =>
      obtain ⟨row, value⟩ := inductionHypothesis
      have element : Returns (readElement room i) (·.value.depth ≤ room) :=
        .bind fun _ => value.after fun _ shallow => .pure shallow
      constructor
      · rw [readAnnotationRow]
        refine .bind fun _ => element.counted.after fun es shallow => .pure ?_
        rw [ Annotation.depth, Nat.add_le_add_iff_right]
        exact AnnotationElement.depthAll_le_iff.mpr shallow.2
      · rw [readValue]
        refine .bind fun _ => .bind fun tag => ?_
        have flat {v : AnnotationValue} (one : v.depth = 1) :
            Returns (pure v : Scan AnnotationValue) (AnnotationValue.depth · ≤ room + 1) :=
          .pure (by omega)
        dsimp only
        split
        case h_10 => exact .bind fun _ => .bind fun _ => flat rfl
        case h_11 => exact .bind fun _ => flat rfl
        case h_12 =>
          refine row.after fun a shallow => .pure ?_
          rwa [AnnotationValue.depth, Nat.add_le_add_iff_right]
        case h_13 =>
          refine value.counted.after fun vs shallow => .pure ?_
          rw [AnnotationValue.depth, Nat.add_le_add_iff_right]
          exact AnnotationValue.depthAll_le_iff.mpr shallow.2
        case h_14 => exact .fail
        all_goals exact .bind fun _ => flat rfl

/-- What is read of a type annotation nests no deeper than there is room. -/
theorem returns_readTypeAnnotationRow (i : Input) (room : Nat) :
    Returns (readTypeAnnotationRow i room) (·.marker.depth ≤ room) := by
  refine .bind fun _ => .bind fun _ => ?_
  have marked {f : Annotation → TypeAnnotation} (same : ∀ a, (f a).marker = a) :
      Returns (do return f (← readAnnotationRow i room)) (·.marker.depth ≤ room) :=
    (returns_annotated i room).1.after fun a shallow => .pure (by rwa [same a])
  split
  · exact .fail
  · rename_i layout _
    refine .bind fun _ => ?_
    cases layout with
    | fixed n =>
        exact .bind fun _ => .bind fun _ => .bind fun _ => .bind fun _ => .bind fun _ =>
          marked fun _ => rfl
    | rows =>
        exact .bind fun _ => .bind fun _ => .bind fun _ => .bind fun _ => .bind fun _ =>
          .bind fun _ => marked fun _ => rfl

/-- Every layout gives attributes that nest no deeper than there is room. -/
theorem shallow_layouts :
    ∀ row ∈ layouts ctx room env, Returns row.2.2 (AttributeBody.Shallow room) := by
  have one {α : Type} {x : Scan α} {f : α → AttributeBody}
      (shallow : ∀ a, (f a).Shallow room) :
      Returns (x >>= fun a => pure (f a)) (AttributeBody.Shallow room) :=
    .bind fun a => .pure (shallow a)
  have row := (returns_annotated ctx.input room).1
  have annotations (visible : Bool) :
      Returns (do return .annotations visible (← Scan.counted (readAnnotationRow ctx.input room)))
        (AttributeBody.Shallow room) := row.counted.after fun _ all => .pure all.2
  have parameters (visible : Bool) :
      Returns (do
        let n ← Scan.u1
        return .parameterAnnotations visible
          (← Scan.times n (Scan.counted (readAnnotationRow ctx.input room))))
        (AttributeBody.Shallow room) :=
    .bind fun n => row.counted.times.after fun _ all => .pure fun rows member =>
      (all.2 rows member).2
  have types (visible : Bool) :
      Returns (do
        return .typeAnnotations visible (← Scan.counted (readTypeAnnotationRow ctx.input room)))
        (AttributeBody.Shallow room) :=
    (returns_readTypeAnnotationRow ctx.input room).counted.after fun _ all => .pure all.2
  simp only [layouts, plainLayouts, annotationLayouts, List.cons_append, List.nil_append,
    List.forall_mem_cons, List.not_mem_nil, false_implies, implies_true, and_true]
  refine ⟨one fun _ => trivial, .bind fun _ => one fun _ => trivial, one fun _ => trivial,
    .bind fun _ => one fun _ => trivial, one fun _ => trivial, one fun _ => trivial,
    one fun _ => trivial, ?_, one fun _ => trivial, .pure trivial, .pure trivial,
    ?_, one fun _ => trivial,
    .bind fun _ => one fun _ => trivial,
    (returns_annotated ctx.input room).2.after fun _ shallow => .pure shallow, ?_, ?_,
    annotations true, parameters true, types true, annotations false, parameters false,
    types false⟩
  · exact .bind fun _ => .bind fun _ => .bind fun _ => .bind fun _ => .bind fun _ => .bind fun _ =>
      .bind fun _ => one fun _ => trivial
  · exact .bind fun _ => .bind fun _ => .guard (.pure trivial)
  · split
    · exact .bind fun _ => .bind fun _ => .bind fun _ => .bind fun _ => .guard <| .bind fun _ =>
        .bind fun _ => .bind fun _ => .bind fun _ => .bind fun _ => .bind fun _ => .bind fun _ =>
        .pure trivial
    · exact .fail
  · split
    · exact .bind fun _ => .bind fun _ => one fun _ => trivial
    · exact .fail

/-- Whatever is decoded with some room nests no deeper than that. -/
theorem shallow_of_decode {a : Attribute} (decoded : decode ctx room env = .ok a) :
    a.body.Shallow room := by
  rw [decode_eq] at decoded
  refine (@of_decodeWith _ _ _ _ (AttributeBody.Shallow room) (fun read found => ?_)
    (fun _ => trivial) decoded).2
  rw [reader?] at found
  split at found
  · split at found
    · obtain rfl := Option.some.inj found
      exact .bind fun _ => .pure trivial
    · cases found
  · obtain ⟨row, member, -, -, rfl⟩ := mem_of_layout? found
    exact shallow_layouts row member

end Depth

/-- Equal in what they denote. -/
abbrev Same {α β : Type} (bare : α → β) (a b : α) : Prop := bare b = bare a

/-- Lists whose members denote the same one by one denote the same. -/
theorem map_eq_of_same {α β : Type} {bare : α → β} {as bs : List α}
    (all : List.Forall₂ (Same bare) as bs) : bs.map bare = as.map bare := by
  induction all with
  | nil => rfl
  | cons first _ inductionHypothesis =>
      rw [List.map_cons, List.map_cons, first, inductionHypothesis]

section Readers

variable {i i₀ : Input} (covers : i.Covers i₀)
include covers

/-- A reference that can be followed in one input can be followed in an input that covers it,
wherever it is met, and what it leads to denotes the same. -/
theorem refer_covered {α β : Type} {want : Entry → Option α} {bare : α → β}
    (blind : Entry.Blind want bare) {p : Int} {n : Nat} {a : α}
    (given : i₀.pool.refer want p n = .ok a) :
    ∃ a', (∀ p', i.pool.refer want p' n = .ok a') ∧ Same bare a a' := by
  obtain ⟨e, found, taken⟩ := Pool.refer_eq_ok_iff.mp given
  obtain ⟨e', found', same⟩ := covers n e found
  obtain ⟨a', taken', equal⟩ := blind same taken
  exact ⟨a', fun _ => Pool.refer_eq_ok_iff.mpr ⟨e', found', taken'⟩, equal⟩

/-- A reference is read in both inputs alike. -/
theorem follows_readRef {α β : Type} {want : Entry → Option α} {bare : α → β}
    {keep : α → Prop} (blind : Entry.Blind want bare) :
    Follows i₀.cursor i.cursor keep (readRef i₀ want) (readRef i want) (Same bare) :=
  .pos fun _ _ => Follows.u2.bind fun _ _ same => .ofExcept fun _ given =>
    have ⟨a', taken, equal⟩ := refer_covered covers blind given
    ⟨a', same ▸ taken _, equal⟩

/-- A reference that may be zero is read in both inputs alike. -/
theorem follows_readOptionalRef {α β : Type} {want : Entry → Option α} {bare : α → β}
    {keep : Option α → Prop} (blind : Entry.Blind want bare) :
    Follows i₀.cursor i.cursor keep (readOptionalRef i₀ want) (readOptionalRef i want)
      (Same (Option.map bare)) := by
  refine .pos fun p p' => Follows.u2.bind fun n _ same => ?_
  subst same
  split
  · exact .pure rfl
  · have given : Follows i₀.cursor i.cursor (fun _ => True) (Scan.ofExcept (i₀.pool.refer want p n))
        (Scan.ofExcept (i.pool.refer want p' n)) (Same bare) :=
      .ofExcept fun _ given =>
        have ⟨a', taken, equal⟩ := refer_covered covers blind given
        ⟨a', taken _, equal⟩
    exact given.map (fun _ _ => trivial) fun _ _ same => congrArg some same

/-- A counted list of references is read in both inputs alike. -/
theorem follows_readRefs {α β : Type} {want : Entry → Option α} {bare : α → β}
    {keep : List (Option α) → Prop} (blind : Entry.Blind want bare) :
    Follows i₀.cursor i.cursor keep (readRefs i₀ want) (readRefs i want)
      (Same (List.map (Option.map bare))) := by
  have ref : Follows i₀.cursor i.cursor (fun _ => True) (readRef i₀ want) (readRef i want)
      (Same bare) := follows_readRef covers blind
  have item : Follows i₀.cursor i.cursor (fun _ => True) (some <$> readRef i₀ want)
      (some <$> readRef i want) (Same (Option.map bare)) :=
    ref.map (fun _ _ => trivial) fun _ _ same => congrArg some same
  exact (Follows.counted item).mono (fun _ _ _ _ => trivial) fun _ _ => map_eq_of_same

/-! ## Annotations -/

/-- A constant of an annotation is read in both inputs alike. -/
theorem follows_readConst {keep : AnnotationValue → Prop} (kind : UInt8) (tag : Tag) :
    Follows i₀.cursor i.cursor keep (readConst i₀ kind tag) (readConst i kind tag)
      (Same AnnotationValue.bare) := by
  have ref : Follows i₀.cursor i.cursor (fun _ => True) (readRef i₀ (Entry.tagged? tag))
      (readRef i (Entry.tagged? tag)) (Same Entry.bare) :=
    follows_readRef covers (Entry.blind_tagged? tag)
  exact ref.map (fun _ _ => trivial) fun a b same =>
    congrArg (fun e => AnnotationValue.const kind (some e)) same

/-- Annotations and the values of their elements, at every depth. -/
theorem follows_annotated (room₀ room : Nat) :
    Follows i₀.cursor i.cursor ( Annotation.depth · ≤ room) (readAnnotationRow i₀ room₀)
        (readAnnotationRow i room) (Same Annotation.bare) ∧
      Follows i₀.cursor i.cursor (AnnotationValue.depth · ≤ room) (readValue i₀ room₀)
        (readValue i room) (Same AnnotationValue.bare) := by
  induction room₀ generalizing room with
  | zero =>
      constructor
      · rw [readAnnotationRow]
        exact ⟨fun _ _ read => nomatch read⟩
      · rw [readValue]
        exact ⟨fun _ _ read => nomatch read⟩
  | succ room₀ inductionHypothesis =>
      cases room with
      | zero =>
          refine ⟨.none fun a => ?_, .none fun v => ?_⟩
          · cases a
            rw [ Annotation.depth]
            omega
          · have := v.depth_pos
            omega
      | succ room =>
          obtain ⟨row, value⟩ := inductionHypothesis room
          have text : Follows i₀.cursor i.cursor (fun _ => True) (readRef i₀ Entry.utf8?)
              (readRef i Entry.utf8?) (Same Utf8Entry.bare) :=
            follows_readRef covers Entry.blind_utf8?
          have element : Follows i₀.cursor i.cursor (fun e => e.value.depth ≤ room)
              (readElement room₀ i₀) (readElement room i) (Same AnnotationElement.bare) :=
            text.bind fun _ _ name => value.map (fun _ kept => kept) fun _ _ same => by
              rw [Same, AnnotationElement.bare, AnnotationElement.bare, Option.map_some,
                Option.map_some, name, same]
          constructor
          · simp only [readAnnotationRow]
            refine text.bind fun _ _ type => element.counted.map (fun es kept => ?_) fun _ _ all =>
              ?_
            · rw [ Annotation.depth, Nat.add_le_add_iff_right] at kept
              exact AnnotationElement.depthAll_le_iff.mp kept
            · rw [Same, Annotation.bare, Annotation.bare, Option.map_some, Option.map_some, type,
                AnnotationElement.bareAll_eq_map, AnnotationElement.bareAll_eq_map,
                map_eq_of_same all]
          · simp only [readValue]
            refine .pos fun p p' => Follows.u1.bind fun tag _ same => ?_
            subst same
            split
            case h_10 =>
              exact text.bind fun _ _ type => text.map (fun _ _ => trivial) fun _ _ constant => by
                rw [Same, AnnotationValue.bare, AnnotationValue.bare, Option.map_some,
                  Option.map_some, Option.map_some, Option.map_some, type, constant]
            case h_11 =>
              exact text.map (fun _ _ => trivial) fun _ _ same =>
                congrArg (fun d => AnnotationValue.class (some d)) same
            case h_12 =>
              refine row.map (fun a kept => ?_) fun _ _ same => congrArg AnnotationValue.nested same
              rwa [AnnotationValue.depth, Nat.add_le_add_iff_right] at kept
            case h_13 =>
              refine value.counted.map (fun vs kept => ?_) fun _ _ all => ?_
              · rw [AnnotationValue.depth, Nat.add_le_add_iff_right] at kept
                exact AnnotationValue.depthAll_le_iff.mp kept
              · rw [Same, AnnotationValue.bare, AnnotationValue.bare,
                  AnnotationValue.bareAll_eq_map, AnnotationValue.bareAll_eq_map,
                  map_eq_of_same all]
            case h_14 => exact .fail
            all_goals exact follows_readConst covers _ _

omit covers in
/-- What a step passes over is the same wherever it stands. -/
theorem follows_passed {α β : Type} {step step' : Scan Unit} {next : Bytes → Scan α}
    {next' : Bytes → Scan β} {keep : α → Prop} {related : α → β → Prop}
    (passes : Follows i₀.cursor i.cursor (fun _ => True) step step' fun _ _ => True)
    (rest : ∀ info, Follows i₀.cursor i.cursor keep (next info) (next' info) related) :
    Follows i₀.cursor i.cursor keep
      (do
        let start ← Scan.pos
        step
        let stop ← Scan.pos
        next (← Scan.ofExcept (i₀.slice start.toNat (stop - start).toNat)))
      (do
        let start ← Scan.pos
        step'
        let stop ← Scan.pos
        next' (← Scan.ofExcept (i.slice start.toNat (stop - start).toNat))) related where
  advances {stop p a d} window before read kept := by
    simp only [Scan.bind_eq_ok_iff, Scan.pos_eq_ok_iff, Scan.ofExcept_eq_ok_iff] at read
    obtain ⟨_, _, ⟨rfl, rfl⟩, u, _, passed, _, _, ⟨rfl, rfl⟩, info, _, ⟨cut, rfl⟩, read⟩ := read
    obtain ⟨q, forward, inside, rfl, -, parses⟩ := passes.advances window before passed trivial
    have width : ((q : Int) - p).toNat = q - p := by omega
    have within := Nat.le_trans inside window.inside
    obtain rfl : info = i₀.cursor.segment p q := by
      have sliced : i₀.slice p (q - p) = .ok info := by
        rw [← cut, ← width]
        rfl
      rw [Input.slice, Cursor.slice?_eq_segment forward within] at sliced
      exact (Except.ok.inj sliced).symm
    obtain ⟨r, forward', inside', rfl, given, parses'⟩ := (rest _).advances window inside read kept
    refine ⟨r, Nat.le_trans forward forward', inside', rfl, given, ?_⟩
    rw [← Cursor.segment_append forward forward']
    exact parses_passed (parses.mono fun _ _ => trivial) parses'

/-- A type annotation is read in both inputs alike, if there is room for what it nests. The bytes of
its target and of its path do not depend on the input. -/
theorem follows_readTypeAnnotationRow (room₀ room : Nat) :
    Follows i₀.cursor i.cursor (fun a => a.marker.depth ≤ room) (readTypeAnnotationRow i₀ room₀)
      (readTypeAnnotationRow i room) (Same TypeAnnotation.bare) := by
  refine .pos fun _ _ => Follows.u1.bind fun tag _ same => ?_
  subst same
  have rest (info : Bytes) : Follows i₀.cursor i.cursor (fun a => a.marker.depth ≤ room)
      (do
        let steps ← Scan.u1
        let typePath ← Scan.bytes (2 * steps)
        let marker ← readAnnotationRow i₀ room₀
        return { targetType := tag.toUInt8, targetInfo := info, typePath, marker : TypeAnnotation })
      (do
        let steps ← Scan.u1
        let typePath ← Scan.bytes (2 * steps)
        let marker ← readAnnotationRow i room
        return { targetType := tag.toUInt8, targetInfo := info, typePath, marker : TypeAnnotation })
      (Same TypeAnnotation.bare) := by
    refine Follows.u1_lt.bind fun steps _ same => ?_
    obtain ⟨rfl, small⟩ := same
    have width : 2 * (steps : Int) = (2 * steps : Nat) := by omega
    rw [width]
    refine (Follows.bytes (by omega)).bind fun path _ same => ?_
    subst same
    refine (follows_annotated covers room₀ room).1.map (fun _ kept => kept) fun _ _ same => ?_
    rw [Same, TypeAnnotation.bare, TypeAnnotation.bare, same]
  split
  · exact .fail
  · rename_i layout known
    cases layout with
    | fixed n =>
        have small := TargetLayout.fixed_le known
        exact follows_passed (.skip (by omega)) rest
    | rows =>
        have skips : Follows i₀.cursor i.cursor (fun _ => True) (do Scan.skip (6 * (← Scan.u2)))
            (do Scan.skip (6 * (← Scan.u2))) fun _ _ => True := by
          refine Follows.u2_lt.bind fun n _ same => ?_
          obtain ⟨rfl, small⟩ := same
          have width : 6 * (n : Int) = (6 * n : Nat) := by omega
          rw [width]
          exact .skip (by omega)
        have follows := follows_passed skips rest
        simp only [bind_assoc] at follows
        exact follows

/-! ## Rows -/

/-- A row about a nested class is read in both inputs alike. -/
theorem follows_readInnerClass {keep : InnerClass → Prop} :
    Follows i₀.cursor i.cursor keep (readInnerClass i₀) (readInnerClass i)
      (Same InnerClass.bare) := by
  refine (follows_readRef covers Entry.blind_class?).bind fun _ _ inner => ?_
  refine (follows_readOptionalRef covers Entry.blind_class?).bind fun _ _ outer => ?_
  refine (follows_readOptionalRef covers Entry.blind_utf8?).bind fun _ _ name => ?_
  refine Follows.u2.bind fun _ _ flags => .pure ?_
  rw [Same, InnerClass.bare, InnerClass.bare, Option.map_some, Option.map_some, inner, outer, name,
    flags]

/-- A row about a formal parameter is read in both inputs alike. -/
theorem follows_readParameter {keep : MethodParameter → Prop} :
    Follows i₀.cursor i.cursor keep (readParameter i₀) (readParameter i)
      (Same MethodParameter.bare) := by
  refine (follows_readOptionalRef covers Entry.blind_utf8?).bind fun _ _ name => ?_
  refine Follows.u2.bind fun _ _ flags => .pure ?_
  rw [Same, MethodParameter.bare, MethodParameter.bare, name, flags]

/-- A module that a module needs is read in both inputs alike. -/
theorem follows_readRequire {keep : ModuleRequire → Prop} :
    Follows i₀.cursor i.cursor keep (readRequire i₀) (readRequire i) (Same ModuleRequire.bare) := by
  refine (follows_readRef covers Entry.blind_module?).bind fun _ _ module => ?_
  refine Follows.u2.bind fun _ _ flags => ?_
  refine (follows_readOptionalRef covers Entry.blind_utf8?).bind fun _ _ version => .pure ?_
  rw [Same, ModuleRequire.bare, ModuleRequire.bare, Option.map_some, Option.map_some, module, flags,
    version]

/-- A package that a module exports or opens is read in both inputs alike. -/
theorem follows_readExport {keep : ModuleExport → Prop} :
    Follows i₀.cursor i.cursor keep (readExport i₀) (readExport i) (Same ModuleExport.bare) := by
  refine (follows_readRef covers Entry.blind_package?).bind fun _ _ package => ?_
  refine Follows.u2.bind fun _ _ flags => ?_
  refine (follows_readRefs covers Entry.blind_module?).bind fun _ _ targets => .pure ?_
  rw [Same, ModuleExport.bare, ModuleExport.bare, Option.map_some, Option.map_some, package, flags,
    targets]

/-- A service with its providers is read in both inputs alike. -/
theorem follows_readProvide {keep : ModuleProvide → Prop} :
    Follows i₀.cursor i.cursor keep (readProvide i₀) (readProvide i) (Same ModuleProvide.bare) := by
  refine (follows_readRef covers Entry.blind_class?).bind fun _ _ service => ?_
  refine (follows_readRefs covers Entry.blind_class?).bind fun _ _ providers => .pure ?_
  rw [Same, ModuleProvide.bare, ModuleProvide.bare, Option.map_some, Option.map_some, service,
    providers]

omit covers in
/-- Rows of which nothing has to be kept. -/
theorem follows_rows {α β : Type} {bare : α → β} {item item' : Scan α} {keep : List α → Prop}
    (follows : Follows i₀.cursor i.cursor (fun _ => True) item item' (Same bare)) :
    Follows i₀.cursor i.cursor keep (Scan.counted item) (Scan.counted item')
      (Same (List.map bare)) :=
  (Follows.counted follows).mono (fun _ _ _ _ => trivial) fun _ _ => map_eq_of_same

/-- A module declaration is read in both inputs alike. -/
theorem follows_readModule {keep : AttributeBody → Prop} :
    Follows i₀.cursor i.cursor keep (readModule i₀) (readModule i) (Same AttributeBody.bare) := by
  refine (follows_readRef covers Entry.blind_module?).bind fun _ _ module => ?_
  refine Follows.u2.bind fun _ _ flags => ?_
  refine (follows_readOptionalRef covers Entry.blind_utf8?).bind fun _ _ version => ?_
  refine (follows_rows (follows_readRequire covers)).bind fun _ _ requires => ?_
  refine (follows_rows (follows_readExport covers)).bind fun _ _ exports => ?_
  refine (follows_rows (follows_readExport covers)).bind fun _ _ opens => ?_
  refine (follows_readRefs covers Entry.blind_class?).bind fun _ _ uses => ?_
  refine (follows_rows (follows_readProvide covers)).bind fun _ _ provides => .pure ?_
  simp only [Same, AttributeBody.bare, ModuleInfo.bare, Option.map_some, module, flags, version,
    requires, exports, opens, uses, provides]

/-- The initial value of a field is read in both inputs alike, and can be one in both or in
neither. -/
theorem follows_readConstantValue {keep : AttributeBody → Prop} :
    Follows i₀.cursor i.cursor keep (readConstantValue i₀) (readConstantValue i)
      (Same AttributeBody.bare) := by
  refine .pos fun _ _ => (follows_readRef covers Entry.blind_loadable?).bind fun v v' same => ?_
  refine .guard fun field => ?_
  have field' : ¬(!v'.isFieldValue) = true := by
    rwa [← Loadable.isFieldValue_bare, same, Loadable.isFieldValue_bare]
  rw [if_neg field']
  exact .pure (congrArg (fun v => AttributeBody.constantValue (some v)) same)

end Readers

/-! ## Layouts -/

/-- An attribute that means the same in another file: not code, nor what points into it. -/
structure Movable (room : Nat) (body : AttributeBody) : Prop where
  shallow : body.Shallow room
  code : ∀ c, body ≠ .code c
  stackMap : ∀ frames, body ≠ .stackMapTable frames

/-- Whatever is decoded means the same in another file, unless it is a body or points into one. -/
theorem movable_of_decode {ctx : Context} {room : Nat} {env : Envelope} {a : Attribute}
    (decoded : decode ctx room env = .ok a) (code : ∀ c, a.body ≠ .code c)
    (stackMap : ∀ frames, a.body ≠ .stackMapTable frames) :
    Movable room a.body := ⟨shallow_of_decode decoded, code, stackMap⟩

/-- What is read up to the end of a window is read from the same bytes where they fill one. -/
structure Carries (c₀ c : Cursor) (room : Nat) (read₀ read : Scan AttributeBody) : Prop where
  fills : ∀ {stop p : Nat} {body : AttributeBody} {d : Decoder}, Window c₀ stop → p ≤ stop →
    read₀ (.on c₀ stop p) = .ok (body, d) → d.remaining = 0 → Movable room body →
    Scan.Fills c read (c₀.segment p stop) (Same AttributeBody.bare body)

/-- A reader that follows another one carries what that reads, where all of a window is read. -/
theorem Carries.of_follows {c₀ c : Cursor} {room : Nat} {read₀ read : Scan AttributeBody}
    (follows : Follows c₀ c (AttributeBody.Shallow room) read₀ read (Same AttributeBody.bare)) :
    Carries c₀ c room read₀ read where
  fills {stop p body d} window before given done movable := by
    obtain ⟨q, -, inside, rfl, -, parses⟩ := follows.advances window before given movable.shallow
    rw [Scan.remaining_on window inside] at done
    obtain rfl : q = stop := by omega
    exact parses.fills

/-- What gives only code or stack maps has nothing to carry. -/
theorem Carries.of_returns {c₀ c : Cursor} {room : Nat} {read₀ read : Scan AttributeBody}
    (returns : Scan.Returns read₀ fun body =>
      (∃ c, body = .code c) ∨ ∃ frames, body = .stackMapTable frames) :
    Carries c₀ c room read₀ read where
  fills _ _ given _ movable := by
    rcases returns _ _ _ given with ⟨c, same⟩ | ⟨frames, same⟩
    · exact (movable.code c same).elim
    · exact (movable.stackMap frames same).elim

/-- What is left of a window is its bytes. -/
theorem carries_rest {c₀ c : Cursor} {room : Nat} :
    Carries c₀ c room (do return .sourceDebugExtension (← Scan.bytes (← Scan.remaining)))
      (do return .sourceDebugExtension (← Scan.bytes (← Scan.remaining))) where
  fills {stop p body d} window before given _ _ := by
    simp only [Scan.bind_eq_ok_iff, Scan.pure_eq_ok_iff, Scan.remaining_eq_ok_iff] at given
    obtain ⟨left, _, ⟨rfl, rfl⟩, data, _, read, rfl, -⟩ := given
    rw [Scan.remaining_on window before] at read
    have small := window.lt
    obtain ⟨-, rfl, -⟩ := (Scan.bytes_eq_ok_iff window before (by omega)).mp read
    rw [Nat.add_sub_cancel' before]
    exact Scan.Fills.rest.map fun _ same =>
      congrArg (fun data => AttributeBody.bare (.sourceDebugExtension data)) same

/-- Rows of the catalogue for two inputs, of which one says what the other does. -/
structure Alike (c₀ c : Cursor) (room : Nat)
    (row₀ row : String × List Holder × Scan AttributeBody) :
    Prop where
  name : row₀.1 = row.1
  holders : row₀.2.1 = row.2.1
  carries : Carries c₀ c room row₀.2.2 row.2.2

/-- Rows of the catalogue are alike if their readers follow each other. -/
theorem alike_of_follows {c₀ c : Cursor} {room : Nat} {name : String} {holders : List Holder}
    {read₀ read : Scan AttributeBody}
    (follows : Follows c₀ c (AttributeBody.Shallow room) read₀ read (Same AttributeBody.bare)) :
    Alike c₀ c room (name, holders, read₀) (name, holders, read) := ⟨rfl, rfl, .of_follows follows⟩

section Layouts

variable {ctx₀ ctx : Context} {room₀ room : Nat} {env₀ env : Envelope}

variable (covers : ctx.input.Covers ctx₀.input)
include covers

/-- Every plain layout carries what it reads over to an input that covers the first one. -/
theorem alike_plainLayouts : List.Forall₂ (Alike ctx₀.input.cursor ctx.input.cursor room)
    (plainLayouts ctx₀ room₀ env₀) (plainLayouts ctx room env) := by
  have text {keep : Utf8Entry → Prop} := @follows_readRef _ _ covers _ _ _ _ keep Entry.blind_utf8?
  have cls {keep : ClassEntry → Prop} := @follows_readRef _ _ covers _ _ _ _ keep Entry.blind_class?
  have classes {keep : List (Option ClassEntry) → Prop} :=
    @follows_readRefs _ _ covers _ _ _ _ keep Entry.blind_class?
  refine .cons (alike_of_follows ?_) <| .cons ⟨rfl, rfl, carries_rest⟩ <|
    .cons (alike_of_follows ?_) <|
    .cons (alike_of_follows ?_) <| .cons (alike_of_follows ?_) <| .cons (alike_of_follows ?_) <|
    .cons (alike_of_follows ?_) <| .cons (alike_of_follows (follows_readModule covers)) <|
    .cons (alike_of_follows ?_) <| .cons (alike_of_follows (.pure rfl)) <|
    .cons (alike_of_follows (.pure rfl)) <|
    .cons (alike_of_follows (follows_readConstantValue covers)) <| .cons (alike_of_follows ?_) <|
    .cons (alike_of_follows ?_) <| .cons (alike_of_follows ?_) <| .cons ⟨rfl, rfl, ?_⟩ <|
    .cons ⟨rfl, rfl, ?_⟩ .nil
  · exact text.bind fun _ _ same =>
      .pure (congrArg (fun a => AttributeBody.sourceFile (some a)) same)
  · exact (follows_rows (follows_readInnerClass covers)).bind fun _ _ same =>
      .pure (congrArg AttributeBody.innerClasses same)
  · refine cls.bind fun _ _ owner =>
      (follows_readOptionalRef covers Entry.blind_nameAndType?).bind fun _ _ method => .pure ?_
    rw [Same, AttributeBody.bare, AttributeBody.bare, Option.map_some, Option.map_some, owner,
      method]
  · exact cls.bind fun _ _ same => .pure (congrArg (fun a => AttributeBody.nestHost (some a)) same)
  · exact classes.bind fun _ _ same => .pure (congrArg AttributeBody.nestMembers same)
  · exact classes.bind fun _ _ same => .pure (congrArg AttributeBody.permittedSubclasses same)
  · exact text.bind fun _ _ same =>
      .pure (congrArg (fun a => AttributeBody.signature (some a)) same)
  · exact classes.bind fun _ _ same => .pure (congrArg AttributeBody.exceptions same)
  · refine Follows.u1.bind fun n _ same => ?_
    subst same
    refine ((follows_readParameter covers).times n).map (fun _ _ _ _ => trivial) fun _ _ all => ?_
    exact congrArg AttributeBody.methodParameters (map_eq_of_same all)
  · exact (follows_annotated covers room₀ room).2.map (fun _ kept => kept) fun _ _ same =>
      congrArg AttributeBody.annotationDefault same
  · refine .of_returns ?_
    split
    · exact .bind fun _ => .bind fun _ => .bind fun _ => .bind fun _ => .guard <| .bind fun _ =>
        .bind fun _ => .bind fun _ => .bind fun _ => .bind fun _ => .bind fun _ => .bind fun _ =>
        .pure (.inl ⟨_, rfl⟩)
    · exact .fail
  · refine .of_returns ?_
    split
    · exact .bind fun _ => .bind fun _ => .bind fun _ => .pure (.inr ⟨_, rfl⟩)
    · exact .fail

/-- Every annotation layout of a kind carries what it reads over to an input that covers the first
one. -/
theorem alike_annotating (visible : Bool) :
    List.Forall₂ (Alike ctx₀.input.cursor ctx.input.cursor room)
      (annotationLayouts ctx₀ room₀ visible) (annotationLayouts ctx room visible) := by
  have row := (follows_annotated covers room₀ room).1
  refine .cons (alike_of_follows ?_)
    (.cons (alike_of_follows ?_) (.cons (alike_of_follows ?_) .nil))
  · exact row.counted.map (fun _ kept => kept) fun _ _ all =>
      congrArg (AttributeBody.annotations visible) (map_eq_of_same all)
  · refine Follows.u1.bind fun n _ same => ?_
    subst same
    have table := row.counted.mono (fun _ kept => kept) fun _ _ => map_eq_of_same
    exact (table.times n).map (fun _ kept => kept) fun _ _ all =>
      congrArg (AttributeBody.parameterAnnotations visible) (map_eq_of_same all)
  · exact (follows_readTypeAnnotationRow covers room₀ room).counted.map (fun _ kept => kept)
      fun _ _ all => congrArg (AttributeBody.typeAnnotations visible) (map_eq_of_same all)

/-- The two catalogues are alike row by row. -/
theorem alike_layouts : List.Forall₂ (Alike ctx₀.input.cursor ctx.input.cursor room)
    (layouts ctx₀ room₀ env₀) (layouts ctx room env) :=
  List.rel_append (List.rel_append (alike_plainLayouts covers) (alike_annotating covers true))
    (alike_annotating covers false)

/-- Where an attribute means something in both inputs, it is read alike. -/
theorem carries_layout {read₀ : Scan AttributeBody} (found : layout? ctx₀ room₀ env₀ = some read₀)
    (named : env.name.text = env₀.name.text) (defined : Defined ctx.holder env.name.text) :
    ∃ read, layout? ctx room env = some read ∧
      Carries ctx₀.input.cursor ctx.input.cursor room read₀ read := by
  obtain ⟨row₀, member₀, named₀, -, rfl⟩ := mem_of_layout? found
  obtain ⟨k, inside, rfl⟩ := List.getElem_of_mem member₀
  have all : List.Forall₂ (Alike ctx₀.input.cursor ctx.input.cursor room) (layouts ctx₀ room₀ env₀)
      (layouts ctx room env) := alike_layouts covers
  have inside' : k < (layouts ctx room env).length := all.length_eq ▸ inside
  have alike := all.get inside inside'
  refine ⟨_, layout?_of_mem (List.getElem_mem inside') ?_ defined, alike.carries⟩
  exact (congrArg Text.ofString alike.name).symm.trans (named₀.trans named.symm)

omit covers in
/-- What a body gives that a layout has used up. -/
theorem onWindow_of_decodeWith {i : Input} {read : Scan AttributeBody} {a : Attribute}
    (decoded : decodeWith i env (some read) = .ok a) :
    ∃ d, Scan.onWindow i.cursor env.offset (env.offset + env.length) read = .ok (a.body, d) ∧
      d.remaining = 0 := by
  rw [decodeWith] at decoded
  split at decoded
  · cases decoded
  · rename_i body d given
    obtain ⟨used, same⟩ := guard_eq_ok_iff.mp decoded
    obtain rfl := pure_eq_ok_iff.mp same
    exact ⟨d, given, not_not.mp used⟩

omit covers in
/-- What decoding gives is what the reader of the layout gives for the whole window. -/
theorem of_decodeWith_some {i : Input} {read : Scan AttributeBody} {a : Attribute}
    (window : Window i.cursor (env.offset + env.length))
    (decoded : decodeWith i env (some read) = .ok a) :
    ∃ d, read (.on i.cursor (env.offset + env.length) env.offset) = .ok (a.body, d) ∧
      d.remaining = 0 := by
  obtain ⟨d, given, done⟩ := onWindow_of_decodeWith decoded
  rw [← Int.natCast_add, Scan.onWindow_eq window (Nat.le_add_right _ _)] at given
  exact ⟨d, given, done⟩

/-- The bytes of a decoded body say the same in another input, where they mean something in the same
holders. -/
theorem decodeWith_copied {a : Attribute}
    (window : Window ctx₀.input.cursor (env₀.offset + env₀.length))
    (addressable : ctx.input.cursor.Addressable) (named : env.name.text = env₀.name.text)
    (defined : Defined ctx₀.holder env₀.name.text ↔ Defined ctx.holder env.name.text)
    (decoded : decodeWith ctx₀.input env₀ (layout? ctx₀ room₀ env₀) = .ok a)
    (movable : Movable room a.body) (length : env.length = env₀.length)
    (spells : ctx.input.cursor.Spells env.offset
      (ctx₀.input.cursor.segment env₀.offset (env₀.offset + env₀.length))) :
    ∃ a', decodeWith ctx.input env (layout? ctx room env) = .ok a' ∧
      Same AttributeBody.bare a.body a'.body := by
  have width : env.length =
      (ctx₀.input.cursor.segment env₀.offset (env₀.offset + env₀.length)).length := by
    rw [Cursor.length_segment window.inside, Nat.add_sub_cancel_left, length]
  cases found : layout? ctx₀ room₀ env₀ with
  | none =>
      rw [found, decodeWith, Input.slice] at decoded
      have slice := Cursor.slice?_eq_segment
        (Nat.le_add_right env₀.offset env₀.length) window.inside
      rw [Nat.add_sub_cancel_left] at slice
      rw [slice] at decoded
      obtain rfl := Except.ok.inj decoded
      rw [layout?_eq_none_of_undefined found named defined.mpr, decodeWith, Input.slice, width,
        spells.slice, named]
      exact ⟨_, rfl, rfl⟩
  | some read₀ =>
      rw [found] at decoded
      obtain ⟨d, given, done⟩ := of_decodeWith_some window decoded
      obtain ⟨read, found', carries⟩ := carries_layout covers found named
        (defined.mp (defined_of_layout? found))
      have fills := carries.fills window (Nat.le_add_right _ _) given done movable
      rw [found']
      exact decodeWith_of_fills addressable fills width spells

end Layouts

/-! ## Tables -/

open Emit (maxCount maxLength)

/-- Whatever is read of a table was decoded. -/
theorem returns_readTable {ctx : Context} {decode : Envelope → Except Error Attribute}
    {post : Attribute → Prop} (known : ∀ env a, decode env = .ok a → post a) :
    Returns (readTable ctx decode) fun as => ∀ a ∈ as, post a := by
  have row : Returns (readTableRow ctx decode) fun out => ∀ a, out = some a → post a := by
    refine .bind fun offset => .bind fun index => .bind fun name => .bind fun length =>
      .bind fun left => .guard ?_
    refine .bind fun start => .bind fun _ => .ite (fun _ => .pure nofun) fun _ => ?_
    refine (Returns.ofExcept (known _)).after fun a holds => ?_
    exact .ite (fun _ => .pure nofun) fun _ => .pure fun b same => Option.some.inj same ▸ holds
  refine row.counted.after fun outs all => .pure fun a member => ?_
  obtain ⟨out, held, same⟩ := List.mem_filterMap.mp member
  exact all.2 out held a same

/-- A row of a table is read from its header and its body, wherever it stands. -/
theorem parses_readTableRow {ctx : Context} {decode : Envelope → Except Error Attribute} {n : Nat}
    {name : Utf8Entry} {body : Bytes} {post : Attribute → Prop} (index : n < 65536)
    (named : ∀ offset, ctx.input.pool.refer Entry.utf8? offset n = .ok name)
    (short : body.length ≤ maxLength) (plain : isBootstrapTable ctx.holder name.text = false)
    (decodes : ∀ p, ctx.input.cursor.Spells p body →
      ∃ a, decode ⟨name, p, body.length⟩ = .ok a ∧ post a)
    (keeps : ∀ a, post a →
      (a.body.isUnknown && ctx.input.options.has .dropUnknownAttributes) = false) :
    Parses ctx.input.cursor (readTableRow ctx decode) (u2 n ++ u4 body.length ++ body)
      fun out => ∃ a, out = some a ∧ post a where
  reads {stop p} window spells fits := by
    rw [maxLength] at short
    simp only [List.length_append, length_u2, length_u4] at fits ⊢
    obtain ⟨header, there⟩ := Cursor.spells_append_iff.mp spells
    obtain ⟨nameAt, lengthAt⟩ := Cursor.spells_append_iff.mp header
    simp only [List.length_append, length_u2, length_u4] at there lengthAt
    obtain ⟨a, decoded, holds⟩ := decodes (p + (2 + 4)) there
    refine ⟨some a, ?_, a, rfl, holds⟩
    have small := window.lt
    have left : ¬((stop - (p + 2 + 4) : Nat) : Int) < (body.length : Nat) := by omega
    simp only [readTableRow, Scan.bind_eq_ok_iff, Scan.guard_eq_ok_iff, Scan.remaining_eq_ok_iff,
      Scan.pos_eq_ok_iff, Scan.ofExcept_eq_ok_iff]
    refine ⟨_, _, ⟨rfl, rfl⟩, n, .on ctx.input.cursor stop (p + 2),
      (Scan.u2_eq_ok_iff window (by omega)).mpr ⟨nameAt.u2_of_lt index, by omega, rfl⟩, name, _,
      ⟨named _, rfl⟩, body.length, .on ctx.input.cursor stop (p + 2 + 4),
      (Scan.u4_eq_ok_iff window (by omega)).mpr ⟨lengthAt.u4_of_lt (by omega), by omega, rfl⟩, _, _,
      ⟨(Scan.remaining_on window (by omega)).symm, rfl⟩, left, _, _, ⟨rfl, rfl⟩, (), _,
      (Scan.skip_eq_ok_iff window (by omega) (by omega)).mpr ⟨by omega, rfl⟩, ?_⟩
    rw [plain, if_neg (by decide)]
    refine (Scan.bind_of_ok (Scan.ofExcept_eq_ok_iff.mpr ⟨decoded, rfl⟩)).trans ?_
    rw [keeps a holds, if_neg (by decide), Nat.add_assoc, Nat.add_assoc, ← Nat.add_assoc 2]
    rfl

/-- Whatever the first context decodes of what is kept, the second one decodes where the bytes were
copied to, as something that is related to it. -/
structure Relocates (ctx₀ ctx : Context) (decode₀ decode' : Envelope → Except Error Attribute)
    (keep : Attribute → Prop) (related : Attribute → Attribute → Prop) : Prop where
  covers : ctx.input.Covers ctx₀.input
  addressable : ctx.input.cursor.Addressable
  inner₀ : ctx₀.holder ≠ .class
  inner : ctx.holder ≠ .class
  whole : ctx₀.input.options.has .dropUnknownAttributes = false
  refl : ∀ a, related a a
  keeps : ∀ {a a' : Attribute}, keep a → related a a' →
    (a'.body.isUnknown && ctx.input.options.has .dropUnknownAttributes) = false
  decodes : ∀ {env₀ env : Envelope} {a : Attribute},
    Window ctx₀.input.cursor (env₀.offset + env₀.length) → decode₀ env₀ = .ok a → keep a →
    env.name.text = env₀.name.text → env.length = env₀.length →
    ctx.input.cursor.Spells env.offset
      (ctx₀.input.cursor.segment env₀.offset (env₀.offset + env₀.length)) →
    ∃ a', decode' env = .ok a' ∧ related a a'

/-- Where there are no records, each attribute is read by the layout of its name. -/
theorem decodeWith_inner {ctx : Context} (inner : ctx.holder ≠ .class) (room : Nat)
    (env : Envelope) :
    decodeWith ctx.input env (layout? ctx room env) = decode ctx room env := by
  rw [decode_eq, reader?_of_inner inner]

/-- Only a class can have a table of bootstrap methods. -/
theorem isBootstrapTable_of_ne {holder : Holder} (inner : holder ≠ .class) (name : Text) :
    isBootstrapTable holder name = false := by
  rw [isBootstrapTable, decide_eq_false inner, Bool.false_and]

namespace Relocates

variable {ctx₀ ctx : Context} {decode₀ decode' : Envelope → Except Error Attribute}
  {keep : Attribute → Prop} {related : Attribute → Attribute → Prop}
  (relocates : Relocates ctx₀ ctx decode₀ decode' keep related)
include relocates

/-- A row of a table is read in both inputs alike, if its attribute is kept. -/
theorem follows_readTableRow :
    Follows ctx₀.input.cursor ctx.input.cursor (fun out => ∀ a, out = some a → keep a)
      (readTableRow ctx₀ decode₀) (readTableRow ctx decode') (Option.Rel related) where
  advances {stop p out d} window before read kept := by
    obtain ⟨⟨n, q, length⟩, index, lengthAt, rfl, inside, rfl, gives⟩ :=
      of_readTableRow window before read
    dsimp only at index lengthAt inside
    cases gives with
    | bootstrap _ table =>
        exact absurd (table.symm.trans (isBootstrapTable_of_ne relocates.inner₀ _)) (by decide)
    | dropped _ _ _ _ drops => exact absurd (drops.symm.trans relocates.whole) (by decide)
    | @kept offset name a named _ decoded _ =>
        have here := kept a rfl
        obtain ⟨name', named', same⟩ := refer_covered relocates.covers Entry.blind_utf8? named
        have within := Nat.le_trans inside window.inside
        have width : (ctx₀.input.cursor.segment (p + 6) (p + 6 + length)).length = length := by
          rw [Cursor.length_segment within, Nat.add_sub_cancel_left]
        have short := Cursor.u4_lt lengthAt
        have row : ctx₀.input.cursor.segment p (p + 6 + length) =
            u2 n ++ u4 length ++ ctx₀.input.cursor.segment (p + 6) (p + 6 + length) := by
          rw [Cursor.u2_number index, Cursor.u4_number lengthAt,
            Cursor.segment_append (by omega) (by omega),
            Cursor.segment_append (by omega) (by omega)]
        have decodes (p' : Nat) (spells : ctx.input.cursor.Spells p'
            (ctx₀.input.cursor.segment (p + 6) (p + 6 + length))) :
            ∃ a', decode' ⟨name', p',
                (ctx₀.input.cursor.segment (p + 6) (p + 6 + length)).length⟩ = .ok a' ∧
              related a a' :=
          relocates.decodes ⟨within, window.addressable⟩ decoded here
            (Utf8Entry.bare_eq_iff.mp same) width spells
        refine ⟨p + 6 + length, by omega, inside, rfl, ⟨some a, .some (relocates.refl a)⟩, ?_⟩
        rw [row]
        have parses := @parses_readTableRow ctx _ _ _ _ _ (Cursor.u2_lt index) named'
          (by rw [width, maxLength]; omega) (isBootstrapTable_of_ne relocates.inner _) decodes
          fun _ holds => relocates.keeps here holds
        rw [width] at parses
        refine parses.mono ?_
        rintro _ ⟨a', rfl, holds⟩
        exact .some holds

/-- A table is read in both inputs alike, if each of its attributes is kept. -/
theorem follows_readTable :
    Follows ctx₀.input.cursor ctx.input.cursor (fun as => ∀ a ∈ as, keep a)
      (readTable ctx₀ decode₀) (readTable ctx decode') (List.Forall₂ related) := by
  refine relocates.follows_readTableRow.counted.map
    (fun outs kept out member a same => ?_) fun outs outs' all => ?_
  · exact kept a (List.mem_filterMap.mpr ⟨out, member, same⟩)
  · exact List.rel_filterMap (fun _ _ same => same) all

end Relocates

/-- A table that stands in two inputs is decoded in both alike. -/
theorem Relocates.table {ctx₀ ctx : Context} {keep : Attribute → Prop}
    {related : Attribute → Attribute → Prop} {start₀ stop₀ start : Nat} {as : List Attribute}
    (relocates : Relocates ctx₀ ctx (decode ctx₀ maxNesting) (decode ctx maxNesting) keep related)
    (window₀ : Window ctx₀.input.cursor stop₀) (ordered₀ : start₀ ≤ stop₀)
    (spells : ctx.input.cursor.Spells start (ctx₀.input.cursor.segment start₀ stop₀))
    (decoded : Attribute.table ctx₀ start₀ stop₀ = .ok as) (kept : ∀ a ∈ as, keep a) :
    ∃ as', Attribute.table ctx start (start + (stop₀ - start₀)) = .ok as' ∧
      List.Forall₂ related as as' := by
  rw [Attribute.table, Scan.onWindow_eq window₀ ordered₀] at decoded
  split at decoded
  · cases decoded
  · rename_i given
    obtain rfl := Except.ok.inj decoded
    obtain ⟨q, forward, before, -, -, parses⟩ :=
      relocates.follows_readTable.advances window₀ ordered₀ given kept
    have inside := spells.inside
    rw [Cursor.length_segment window₀.inside] at inside
    have window : Window ctx.input.cursor (start + (stop₀ - start₀)) :=
      ⟨inside, relocates.addressable⟩
    have width := Cursor.length_segment (p := start₀) (Nat.le_trans before window₀.inside)
    obtain ⟨as', read, all⟩ := parses.reads window (spells.before forward before)
      (by rw [width]; omega)
    refine ⟨as', ?_, all⟩
    rw [Attribute.table, Scan.onWindow_eq window (Nat.le_add_right _ _), read]

/-! ## Records -/

/-- What attributes of a component are taken to be. -/
def componentContext (i : Input) : Context :=
  { input := i, holder := .component, method := none, code := none }

/-- A component's attributes are decoded as in any other table. -/
theorem readComponent_succ (i : Input) (room : Nat) :
    readComponent i (room + 1) = (do
      let name ← readRef i Entry.utf8?
      let descriptor ← readRef i Entry.utf8?
      let rows ← readTable (componentContext i) (decode (componentContext i) room)
      return .mk (some name) (some descriptor) (rows.map some)) := by
  have inner : (componentContext i).holder ≠ .class := nofun
  rw [← funext (decodeWith_inner inner room)]
  rfl

/-! ## Copied records -/

variable {i i₀ : Input}

/-- What is read of the attributes of a component, which are kept by the second input too. -/
def Retained (i : Input) (room : Nat) (a : Attribute) : Prop :=
  Movable room a.body ∧ (a.body.isUnknown && i.options.has .dropUnknownAttributes) = false

/-- Forgetting places goes through a table of which nothing is missing. -/
theorem map_some_bare (as : List Attribute) :
    (as.map some).map (Option.map bare) = (as.map bare).map some := by
  rw [List.map_map, List.map_map]
  rfl

section Copied

variable (covers : i.Covers i₀) (addressable : i.cursor.Addressable)
  (whole : i₀.options.has .dropUnknownAttributes = false) (room₀ room : Nat)
include covers addressable whole

/-- The attributes of a component are decoded in both inputs alike. -/
theorem relocates_component :
    Relocates (componentContext i₀) (componentContext i) (decode (componentContext i₀) room₀)
      (decode (componentContext i) room) (Retained i room)
      fun a a' => Same AttributeBody.bare a.body a'.body where
  covers := covers
  addressable := addressable
  inner₀ := nofun
  inner := nofun
  whole := whole
  refl _ := rfl
  keeps {a a'} kept same := by
    rw [← AttributeBody.isUnknown_bare, same, AttributeBody.isUnknown_bare]
    exact kept.2
  decodes {env₀ env a} window decoded kept named length spells := by
    have covers : (componentContext i).input.Covers (componentContext i₀).input := covers
    have inner (i : Input) : (componentContext i).holder ≠ .class := nofun
    rw [← decodeWith_inner (inner _)] at decoded ⊢
    exact decodeWith_copied covers window addressable named (named ▸ Iff.rfl) decoded kept.1 length
      spells

/-- The table of a component is read in both inputs alike, if each of its attributes can be moved
and is kept. -/
theorem follows_componentTable :
    Follows i₀.cursor i.cursor (fun as => ∀ a ∈ as, Retained i room a)
      (readTable (componentContext i₀) (decode (componentContext i₀) room₀))
      (readTable (componentContext i) (decode (componentContext i) room))
      (Same (List.map Attribute.bare)) :=
  (relocates_component covers addressable whole room₀ room).follows_readTable.mono (fun _ => id)
    fun _ _ all => map_eq_of_same (all.imp fun _ _ same => by rw [Same, bare_eq, bare_eq, same])

/-- What is read of a component, which the second input gives too. -/
def RetainedComponent (i : Input) (room : Nat) (c : RecordComponent) : Prop :=
  ∃ deeper, room = deeper + 1 ∧ ∀ a, some a ∈ c.attributes → Retained i deeper a

/-- A component is read in both inputs alike, if there is room for its attributes and each of them
can be moved and is kept. -/
theorem follows_readComponent :
    Follows i₀.cursor i.cursor (RetainedComponent i room) (readComponent i₀ room₀)
      (readComponent i room) (Same RecordComponent.bare) := by
  have text : Follows i₀.cursor i.cursor (fun _ => True) (readRef i₀ Entry.utf8?)
      (readRef i Entry.utf8?) (Same Utf8Entry.bare) := follows_readRef covers Entry.blind_utf8?
  cases room with
  | zero => exact .none fun c kept => by cases kept.choose_spec.1
  | succ room =>
      cases room₀ with
      | zero =>
          refine .of_fails fun c d d' given => ?_
          simp only [readComponent, Scan.bind_eq_ok_iff] at given
          obtain ⟨_, _, _, _, _, _, deep⟩ := given
          cases deep
      | succ room₀ =>
          rw [readComponent_succ, readComponent_succ]
          refine text.bind fun _ _ name => text.bind fun _ _ descriptor => ?_
          refine (follows_componentTable covers addressable whole room₀ room).map
            (fun as kept a member => ?_) fun _ _ same => ?_
          · obtain ⟨deeper, level, all⟩ := kept
            obtain rfl := Nat.succ.inj level
            exact all a (List.mem_map.mpr ⟨a, member, rfl⟩)
          · rw [Same, RecordComponent.bare, RecordComponent.bare, Option.map_some, Option.map_some,
              Option.map_some, Option.map_some, name, descriptor, map_some_bare, map_some_bare,
              same]

end Copied

/-- Each component that is read can be read again from an input that leaves out nothing. -/
theorem returns_readComponent (i : Input) {j : Input}
    (whole : j.options.has .dropUnknownAttributes = false) (room : Nat) :
    Returns (readComponent i room) (RetainedComponent j room) := by
  cases room with
  | zero => exact .bind fun _ => .bind fun _ => .bind fun _ => .fail
  | succ room =>
      have retained (env : Envelope) (a : Attribute)
          (decoded : decode (componentContext i) room env = .ok a) : Retained j room a := by
        have source := decodedFrom_of_decode decoded
        refine ⟨movable_of_decode decoded (fun c same => ?_) (fun frames same => ?_), ?_⟩
        · cases source.code c same
        · cases source.frames frames same
        · rw [whole, Bool.and_false]
      rw [readComponent_succ]
      refine .bind fun _ => .bind fun _ => (returns_readTable retained).after fun as all =>
        .pure ⟨room, rfl, fun a member => ?_⟩
      obtain ⟨b, held, same⟩ := List.mem_map.mp member
      exact Option.some.inj same ▸ all b held

end Attribute

end JvmClass
