import JvmClass.Proofs.Build.Calls
import JvmClass.Proofs.Build.Mentions
import JvmClass.Proofs.Outcome

/-!
# What writing does to a session

Whatever is written, and whether it succeeds, it refers to constants that the structure mentions and
enters texts and classes by name. What was noted once is not forgotten.
-/

namespace JvmClass

variable {σ α β : Type} {l : Build.Law σ}

namespace Emit

open Build.Law (gives_append gives_flatMap)

/-- Noting an error obeys every law, and the note is not forgotten. -/
theorem tries_note (e : Error) : Tries l (note e : Emit σ Unit) :=
  have steady : Steady l (modify fun noted : Option Error => noted <|> some e) :=
    ⟨fun _ => l.pure _, fun noted _ some => by
      cases noted with
      | none => exact absurd rfl some
      | some first => exact some⟩
  Steady.bind steady fun _ => .pure _

/-- Breaking off where something was noted obeys every law. -/
theorem tries_settle : Tries l (settle : Emit σ Unit) :=
  have looked : Steady l (get : StateT (Option Error) (Build σ) (Option Error)) :=
    ⟨fun _ => l.pure _, fun _ _ => id⟩
  Steady.bind looked fun noted => by
    cases noted with
    | none => exact Tries.pure ()
    | some e => exact Tries.throw e

/-- A reference obeys a law that its constant may be referred to in. -/
theorem tries_ref {e : Option Entry} (given : l.Gives (Entry.optional e)) :
    Tries l (ref e : Emit σ Bytes) := by
  cases e with
  | none => exact .bind (tries_note _) fun _ => .pure _
  | some e =>
      exact .bind (.interning (l.pool.indexOf e (given e (List.mem_singleton_self e)))) fun _ =>
        .pure _

/-- A reference that may be zero obeys a law that its constant may be referred to in. -/
theorem tries_optionalRef {e : Option Entry} (given : l.Gives (Entry.optional e)) :
    Tries l (optionalRef e : Emit σ Bytes) := by
  cases e with
  | none => exact .pure _
  | some e =>
      exact .bind (.interning (l.pool.indexOf e (given e (List.mem_singleton_self e)))) fun _ =>
        .pure _

/-- A reference to a text obeys a law that the text may be referred to in. -/
theorem tries_refUtf8 {e : Option Utf8Entry} (given : l.Gives (Utf8Entry.optional e)) :
    Tries l (refUtf8 e : Emit σ Bytes) := tries_ref given

/-- A reference to a class obeys a law that the class may be referred to in. -/
theorem tries_refClass {e : Option ClassEntry} (given : l.Gives (ClassEntry.optional e)) :
    Tries l (refClass e : Emit σ Bytes) := tries_ref given

/-- A reference to a text, or to none, obeys a law that the text may be referred to in. -/
theorem tries_optionalUtf8 {e : Option Utf8Entry} (given : l.Gives (Utf8Entry.optional e)) :
    Tries l (optionalUtf8 e : Emit σ Bytes) := tries_optionalRef given

/-- A reference to a class, or to none, obeys a law that the class may be referred to in. -/
theorem tries_optionalClass {e : Option ClassEntry} (given : l.Gives (ClassEntry.optional e)) :
    Tries l (optionalClass e : Emit σ Bytes) := tries_optionalRef given

/-- Entering a text obeys every law, since texts are entered by name. -/
theorem tries_refText (text : Text) : Tries l (refText text : Emit σ Bytes) :=
  .bind (.interning (l.pool.utf8 text)) fun _ => .pure _

/-- A count obeys every law, also where it is too large. -/
theorem tries_count (n : Nat) : Tries l (count n : Emit σ Bytes) := by
  rw [count]
  split
  · exact .bind (tries_note _) fun _ => .pure _
  · exact .pure _

/-- Writing items after others obeys a law if writing each does. -/
theorem tries_eachOnto {write : β → Emit σ Bytes} {items : List β}
    (writes : ∀ b ∈ items, Tries l (write b)) (done : List Bytes) :
    Tries l (eachOnto write done items) := by
  induction items generalizing done with
  | nil => exact .pure _
  | cons b rest inductionHypothesis =>
      exact .bind (writes b (List.mem_cons_self ..)) fun _ =>
        inductionHypothesis (fun b member => writes b (List.mem_cons_of_mem _ member)) _

/-- Writing items one after another obeys a law if writing each does. -/
theorem tries_each {write : β → Emit σ Bytes} {items : List β}
    (writes : ∀ b ∈ items, Tries l (write b)) : Tries l (each write items) :=
  tries_eachOnto writes _

/-- Writing a counted list obeys a law if writing its items does. -/
theorem tries_counted {write : β → Emit σ Bytes} {items : List β}
    (writes : ∀ b ∈ items, Tries l (write b)) : Tries l (counted write items) :=
  .bind (tries_count _) fun _ => .bind (tries_each writes) fun _ => .pure _

/-- A part behind its length obeys every law, also where it is too long. -/
theorem tries_sized (excess : Nat → Error) (body : Bytes) :
    Tries l (sized excess body : Emit σ Bytes) := by
  rw [sized]
  split
  · exact .bind (.throw _) fun _ => .pure _
  · exact .pure _

/-- An attribute obeys a law if its body does. -/
theorem tries_named (name : Text) {body : Emit σ Bytes} (tries : Tries l body) :
    Tries l (named name body) :=
  .bind (tries_refText name) fun _ => .bind tries fun _ => .bind (tries_sized _ _) fun _ =>
    .bind tries_settle fun _ => .pure _

/-- Items that are written as attributes of their names. -/
def Named (l : Build.Law σ) (is : List (Option (Item σ))) : Prop :=
  ∀ item : Item σ, some item ∈ is → ∃ body, item.write = named item.name body ∧ Tries l body

/-- What is true of the items of a table is true of those behind the first. -/
theorem Named.tail {i : Option (Item σ)} {rest : List (Option (Item σ))}
    (are : Named l (i :: rest)) : Named l rest :=
  fun item member => are item (List.mem_cons_of_mem _ member)

/-- Writing items after some names have been seen obeys a law if writing each does, also where one
is repeated that must not be. -/
theorem tries_itemsAfter (seen : List Text) (done : List Bytes) (is : List (Option (Item σ)))
    (are : Named l is) : Tries l (itemsAfter seen done is) := by
  induction is generalizing seen done with
  | nil => exact .bind tries_settle fun _ => .pure _
  | cons i rest inductionHypothesis =>
      cases i with
      | none => exact .throw _
      | some item =>
          have others (seen : List Text) (done : List Bytes) :
              Tries l (itemsAfter seen done rest) := inductionHypothesis seen done are.tail
          obtain ⟨body, same, tries⟩ := are item (List.mem_cons_self ..)
          have first : Tries l item.write := same ▸ tries_named _ tries
          rw [itemsAfter]
          split
          · exact .bind (.throw _) fun _ => .bind first fun _ => others _ _
          · exact .bind first fun _ => others _ _

/-- Writing the items of a table obeys a law if writing each does. -/
theorem tries_items {is : List (Option (Item σ))} (are : Named l is) : Tries l (items is) :=
  tries_itemsAfter _ _ _ are

/-- Writing a table obeys a law if writing its items does. -/
theorem tries_itemTable {is : List (Option (Item σ))} (are : Named l is) :
    Tries l (itemTable is) :=
  .bind (tries_count _) fun _ => .bind (tries_items are) fun _ => .pure _

/-- What writes by a law is finished by it. -/
theorem does_finish {act : Emit σ α} (tries : Tries l act) : l.Does (finish act) :=
  l.bind (tries.does none) fun ran => by
    rcases ran with ⟨_ | _, _ | _⟩ <;> exact l.pure _

/-- Copying an attribute only looks at the session. -/
theorem tries_copied? (a : Attribute) : Tries l (copied? a : Emit σ (Option Bytes)) := by
  refine .bind .look fun s => ?_
  split
  · split
    · exact .bind (.liftM _) fun _ => .pure _
    · exact .pure _
  · exact .pure _

/-- What is written of an attribute after its header: the bytes it was decoded from, if they still
hold, or its body. -/
def contents (offsets : Option Offsets) (code : InputCode → Emit σ Bytes) (a : Attribute) :
    Emit σ Bytes := do
  match ← copied? a with
  | some bytes => return bytes
  | none => attributeBody offsets code a.body

/-- What is copied needs nothing, and what is written anew obeys what its body obeys. -/
theorem tries_filled {body : Emit σ Bytes} (out : Option Bytes) (tries : Tries l body) :
    Tries l (match out with
      | some bytes => pure bytes
      | none => body : Emit σ Bytes) := by
  cases out with
  | some bytes => exact .pure _
  | none => exact tries

/-- What is written of an attribute obeys what its body obeys. -/
theorem tries_contents {offsets : Option Offsets} {code : InputCode → Emit σ Bytes} {a : Attribute}
    (tries : Tries l (attributeBody offsets code a.body)) : Tries l (contents offsets code a) :=
  .bind (tries_copied? a) fun out => tries_filled out tries

mutual

/-- An annotation refers to its type and to what its elements mention. -/
theorem tries_annotationRow :
    ∀ a : Annotation, l.Gives a.mentions → Tries l (annotationRow a : Emit σ Bytes)
  | .mk type elements, given => by
    unfold Annotation.mentions at given
    rw [gives_append] at given
    rw [annotationRow]
    exact .bind (tries_refUtf8 given.1) fun _ => .bind (tries_count _) fun _ =>
      .bind (tries_annotationElements elements given.2) fun _ => .pure _

/-- Elements of an annotation refer to their names and to what their values mention. -/
theorem tries_annotationElements : ∀ es : List AnnotationElement,
    l.Gives (AnnotationElement.mentionsAll es) → Tries l (annotationElements es : Emit σ Bytes)
  | [], _ => by
    rw [annotationElements]
    exact .pure _
  | .mk name value :: rest, given => by
    rw [AnnotationElement.mentionsAll, gives_append, gives_append] at given
    rw [annotationElements]
    exact .bind (tries_refUtf8 given.1.1) fun _ =>
      .bind (tries_annotationValue value given.1.2) fun _ =>
      .bind (tries_annotationElements rest given.2) fun _ => .pure _

/-- A value of an annotation refers to what it mentions, whichever kind it is of. -/
theorem tries_annotationValue :
    ∀ v : AnnotationValue, l.Gives v.mentions → Tries l (annotationValue v : Emit σ Bytes)
  | .missing, _ => by
    rw [annotationValue]
    exact .throw _
  | .const kind value, given => by
    rw [AnnotationValue.mentions] at given
    rw [annotationValue]
    exact .bind (tries_ref given) fun _ => .pure _
  | .enum type constant, given => by
    rw [AnnotationValue.mentions, gives_append] at given
    rw [annotationValue]
    exact .bind (tries_refUtf8 given.1) fun _ => .bind (tries_refUtf8 given.2) fun _ => .pure _
  | .class d, given => by
    rw [AnnotationValue.mentions] at given
    rw [annotationValue]
    exact .bind (tries_refUtf8 given) fun _ => .pure _
  | .nested marker, given => by
    rw [AnnotationValue.mentions] at given
    rw [annotationValue]
    exact .bind (tries_annotationRow marker given) fun _ => .pure _
  | .array values, given => by
    rw [AnnotationValue.mentions] at given
    rw [annotationValue]
    exact .bind (tries_count _) fun _ => .bind (tries_annotationValues values given) fun _ =>
      .pure _

/-- Values of an array refer to what they mention. -/
theorem tries_annotationValues : ∀ vs : List AnnotationValue,
    l.Gives (AnnotationValue.mentionsAll vs) → Tries l (annotationValues vs : Emit σ Bytes)
  | [], _ => by
    rw [annotationValues]
    exact .pure _
  | v :: rest, given => by
    rw [AnnotationValue.mentionsAll, gives_append] at given
    rw [annotationValues]
    exact .bind (tries_annotationValue v given.1) fun _ =>
      .bind (tries_annotationValues rest given.2) fun _ => .pure _

end

/-- A table of annotations refers to what they mention. -/
theorem tries_annotationTable {rows : List Annotation}
    (given : l.Gives (rows.flatMap Annotation.mentions)) :
    Tries l (annotationTable rows : Emit σ Bytes) :=
  tries_counted fun a member => tries_annotationRow a (gives_flatMap.mp given a member)

/-- A type annotation refers to what its annotation mentions. -/
theorem tries_typeAnnotationRow {a : TypeAnnotation} (given : l.Gives a.marker.mentions) :
    Tries l (typeAnnotationRow a : Emit σ Bytes) := by
  have row : Tries l (do
      return [a.targetType] ++ a.targetInfo ++ u1 (a.typePath.length / 2 : Nat) ++ a.typePath ++
        (← annotationRow a.marker) : Emit σ Bytes) :=
    .bind (tries_annotationRow _ given) fun _ => .pure _
  rw [typeAnnotationRow]
  split
  · exact .bind (.throw _) fun _ => row
  · exact row

/-- A type of a frame refers to a class by its name, if at all. -/
theorem tries_verificationType (offsets : Offsets) (v : VerificationType) :
    Tries l (verificationType offsets v : Emit σ Bytes) := by
  cases v with
  | plain => exact .pure _
  | object name => exact .bind (.interning (l.pool.class_ name)) fun _ => .pure _
  | uninitialized new => exact .bind (.liftM _) fun _ => .pure _

/-- Frames refer to classes by their names, if at all, whatever stands before them. -/
theorem tries_framesAfter (offsets : Offsets) (previous : Int) (done : List Bytes)
    (frames : List (Nat × StackMapFrame)) :
    Tries l (framesAfter offsets previous done frames : Emit σ Bytes) := by
  induction frames generalizing previous done with
  | nil => exact .pure _
  | cons frame rest inductionHypothesis =>
      have row : Tries l (do
          let locals ← counted (verificationType offsets) frame.2.locals
          let stack ← counted (verificationType offsets) frame.2.stack
          let bytes := u1 255 ++ u2 (frame.1 - previous - 1) ++ locals ++ stack
          framesAfter offsets frame.1 (bytes :: done) rest : Emit σ Bytes) :=
        .bind (tries_counted fun _ _ => tries_verificationType offsets _) fun _ =>
          .bind (tries_counted fun _ _ => tries_verificationType offsets _) fun _ =>
            inductionHypothesis _ _
      rw [framesAfter]
      split
      · exact .bind (.throw _) fun _ => row
      · exact row

/-- What is done to each of some items, where it obeys a law. -/
theorem tries_mapM {f : α → Emit σ β} (each : ∀ a, Tries l (f a)) (as : List α) :
    Tries l (as.mapM f) := by
  induction as with
  | nil => exact .pure _
  | cons a rest inductionHypothesis =>
      rw [List.mapM_cons]
      exact .bind (each a) fun _ => .bind inductionHypothesis fun _ => .pure _

/-- A stack map refers to classes by their names, if at all. -/
theorem tries_stackMap (offsets : Option Offsets) (frames : List StackMapFrame) :
    Tries l (stackMap offsets frames : Emit σ Bytes) := by
  cases offsets with
  | none => exact .throw _
  | some offsets =>
      exact .bind (tries_mapM (fun _ => .bind (.liftM _) fun _ => .pure _) _) fun _ =>
        .bind (tries_count _) fun _ => .bind (tries_framesAfter _ _ _ _) fun _ => .pure _

/-- A package that a module exports or opens refers to what it mentions. -/
theorem tries_moduleExport {e : ModuleExport} (given : l.Gives e.mentions) :
    Tries l (moduleExport e : Emit σ Bytes) := by
  rw [ModuleExport.mentions, gives_append, gives_flatMap] at given
  exact .bind (tries_ref given.1) fun _ =>
    .bind (tries_counted fun t member => tries_ref (given.2 t member)) fun _ => .pure _

/-- A module declaration refers to what it mentions. -/
theorem tries_moduleInfo {m : ModuleInfo} (given : l.Gives m.mentions) :
    Tries l (moduleInfo m : Emit σ Bytes) := by
  simp only [ModuleInfo.mentions, gives_append, gives_flatMap] at given
  obtain ⟨⟨⟨⟨⟨⟨module, version⟩, requires⟩, «exports»⟩, opens⟩, uses⟩, provides⟩ := given
  refine .bind (tries_ref module) fun _ => .bind (tries_optionalUtf8 version) fun _ =>
    .bind (tries_counted fun r member => ?_) fun _ =>
    .bind (tries_counted fun e member => tries_moduleExport («exports» e member)) fun _ =>
    .bind (tries_counted fun e member => tries_moduleExport (opens e member)) fun _ =>
    .bind (tries_counted fun c member => tries_refClass (uses c member)) fun _ =>
    .bind (tries_counted fun p member => ?_) fun _ => .pure _
  · have required := gives_append.mp (requires r member)
    exact .bind (tries_ref required.1) fun _ => .bind (tries_optionalUtf8 required.2) fun _ =>
      .pure _
  · have provided := gives_append.mp (provides p member)
    exact .bind (tries_refClass provided.1) fun _ =>
      .bind (tries_counted fun c member => tries_refClass (gives_flatMap.mp provided.2 c member))
        fun _ => .pure _

/-- A row about a nested class refers to what it mentions. -/
theorem tries_innerClass {c : InnerClass} (given : l.Gives c.mentions) :
    Tries l (innerClass c : Emit σ Bytes) := by
  rw [InnerClass.mentions, gives_append, gives_append] at given
  exact .bind (tries_refClass given.1.1) fun _ => .bind (tries_optionalClass given.1.2) fun _ =>
    .bind (tries_optionalUtf8 given.2) fun _ => .pure _

/-- A row about a formal parameter refers to its name. -/
theorem tries_methodParameter {p : MethodParameter} (given : l.Gives (Utf8Entry.optional p.name)) :
    Tries l (methodParameter p : Emit σ Bytes) := .bind (tries_optionalUtf8 given) fun _ => .pure _

/-- The initial value of a field refers to its constant. -/
theorem tries_constantValue {value : Option Loadable}
    (given : l.Gives (Entry.optional (value.map .loadable))) :
    Tries l (constantValue value : Emit σ Bytes) := by
  rw [constantValue]
  split
  · exact .bind (.throw _) fun _ => tries_ref given
  · exact tries_ref given

/-- A list of classes refers to its classes. -/
theorem tries_refClasses {cs : List (Option ClassEntry)}
    (given : l.Gives (cs.flatMap ClassEntry.optional)) :
    Tries l (counted refClass cs : Emit σ Bytes) :=
  tries_counted fun c member => tries_refClass (gives_flatMap.mp given c member)

section Attributes

variable {code : InputCode → Emit σ Bytes} {inside : InputCode → List Entry}
  (codes : ∀ c, l.Gives (inside c) → Tries l (code c)) (offsets : Option Offsets)
include codes

-- The linter misses what the last of the three uses through the others.
set_option linter.unusedSectionVars false in
mutual

/-- The body of an attribute refers to what it mentions, where bodies of code refer to what they
have inside. -/
theorem tries_attributeBody : ∀ body : AttributeBody, l.Gives (body.mentionsWith inside) →
    Tries l (attributeBody offsets code body)
  | .sourceFile file, given => by
    rw [AttributeBody.mentionsWith] at given
    rw [attributeBody]
    exact tries_refUtf8 given
  | .sourceDebugExtension data, _ => by
    rw [attributeBody]
    exact .pure _
  | .innerClasses rows, given => by
    rw [AttributeBody.mentionsWith, gives_flatMap] at given
    rw [attributeBody]
    exact tries_counted fun c member => tries_innerClass (given c member)
  | .enclosingMethod owner method, given => by
    rw [AttributeBody.mentionsWith, gives_append] at given
    rw [attributeBody]
    exact .bind (tries_refClass given.1) fun _ => .bind (tries_optionalRef given.2) fun _ => .pure _
  | .nestHost host, given => by
    rw [AttributeBody.mentionsWith] at given
    rw [attributeBody]
    exact tries_refClass given
  | .nestMembers members, given => by
    rw [AttributeBody.mentionsWith] at given
    rw [attributeBody]
    exact tries_refClasses given
  | .permittedSubclasses subclasses, given => by
    rw [AttributeBody.mentionsWith] at given
    rw [attributeBody]
    exact tries_refClasses given
  | .record components, given => by
    rw [AttributeBody.mentionsWith] at given
    rw [attributeBody]
    exact .bind (tries_count _) fun _ => .bind (tries_recordComponents components given) fun _ =>
      .pure _
  | .module info, given => by
    rw [AttributeBody.mentionsWith] at given
    rw [attributeBody]
    exact tries_moduleInfo given
  | .signature text, given => by
    rw [AttributeBody.mentionsWith] at given
    rw [attributeBody]
    exact tries_refUtf8 given
  | .deprecated, _ | .synthetic, _ => by
    rw [attributeBody]
    exact .pure _
  | .unknown _ data, _ => by
    rw [attributeBody]
    exact .pure _
  | .constantValue value, given => by
    rw [AttributeBody.mentionsWith] at given
    rw [attributeBody]
    exact tries_constantValue given
  | .exceptions classes, given => by
    rw [AttributeBody.mentionsWith] at given
    rw [attributeBody]
    exact tries_refClasses given
  | .methodParameters rows, given => by
    rw [AttributeBody.mentionsWith, gives_flatMap] at given
    have row : Tries l (do return u1 rows.length ++ (← each methodParameter rows) : Emit σ Bytes) :=
      .bind (tries_each fun p member => tries_methodParameter (given p member)) fun _ => .pure _
    rw [attributeBody]
    split
    · exact .bind (.throw _) fun _ => row
    · exact row
  | .annotationDefault value, given => by
    rw [AttributeBody.mentionsWith] at given
    rw [attributeBody]
    exact tries_annotationValue value given
  | .annotations _ rows, given => by
    rw [AttributeBody.mentionsWith] at given
    rw [attributeBody]
    exact tries_annotationTable given
  | .parameterAnnotations _ rows, given => by
    rw [AttributeBody.mentionsWith, gives_flatMap] at given
    have row : Tries l (do return u1 rows.length ++ (← each annotationTable rows) : Emit σ Bytes) :=
      .bind (tries_each fun row member => tries_annotationTable (given row member)) fun _ => .pure _
    rw [attributeBody]
    split
    · exact .bind (.throw _) fun _ => row
    · exact row
  | .typeAnnotations _ rows, given => by
    rw [AttributeBody.mentionsWith, gives_flatMap] at given
    rw [attributeBody]
    exact tries_counted fun a member => tries_typeAnnotationRow (given a member)
  | .stackMapTable frames, _ => by
    rw [attributeBody]
    exact tries_stackMap offsets frames
  | .code body, given => by
    rw [AttributeBody.mentionsWith] at given
    rw [attributeBody]
    exact codes body given

/-- Components of a record refer to what they mention, in their attributes, too. -/
theorem tries_recordComponents : ∀ components : List RecordComponent,
    l.Gives (RecordComponent.mentionsWith inside components) →
    Tries l (recordComponents offsets code components)
  | [], _ => by
    rw [recordComponents]
    exact .pure _
  | .mk name descriptor «attributes» :: rest, given => by
    rw [RecordComponent.mentionsWith, gives_append, gives_append, gives_append] at given
    obtain ⟨⟨⟨named, described⟩, contained⟩, others⟩ := given
    rw [recordComponents]
    exact .bind (tries_refUtf8 named) fun _ => .bind (tries_refUtf8 described) fun _ =>
      .bind (tries_itemTable (named_attributeItems «attributes» contained)) fun _ =>
      .bind (tries_recordComponents rest others) fun _ => .pure _

/-- The attributes of a table are written under their names, each by what its body mentions. -/
theorem named_attributeItems : ∀ as : List (Option Attribute),
    l.Gives (Attribute.mentionsAll inside as) → Named l (attributeItems offsets code as)
  | [], _ => by
    rw [attributeItems]
    exact fun _ member => nomatch member
  | none :: rest, given => by
    rw [Attribute.mentionsAll] at given
    rw [attributeItems]
    intro item member
    rcases List.mem_cons.mp member with same | member
    · cases same
    · exact named_attributeItems rest given item member
  | some (.mk span body) :: rest, given => by
    rw [Attribute.mentionsAll, gives_append, Attribute.mentionsWith] at given
    rw [attributeItems]
    intro item member
    rcases List.mem_cons.mp member with same | member
    · obtain rfl := Option.some.inj same
      refine ⟨_, rfl, .bind (tries_copied? _) fun copied => ?_⟩
      cases copied with
      | some bytes => exact .pure _
      | none => exact tries_attributeBody body given.1
    · exact named_attributeItems rest given.2 item member

end

/-- Attributes of which none is left out. -/
theorem named_attributeItems_some (as : List Attribute)
    (given : l.Gives (as.flatMap (Attribute.mentionsWith inside))) :
    Named l (attributeItems offsets code (as.map some)) := by
  refine named_attributeItems codes offsets _ ?_
  induction as with
  | nil => exact given
  | cons a rest inductionHypothesis =>
      rw [List.flatMap_cons, gives_append] at given
      rw [List.map_cons, Attribute.mentionsAll, gives_append]
      exact ⟨given.1, inductionHypothesis given.2⟩

end Attributes

/-! ## Writing without a note

An action that writes gives its bytes only if it notes nothing. `Emit.Writes` says so of one
run of an action, and the lemmas put such runs together.
-/

/-- From session `s` an action gives `a` and leaves session `s'`, and it notes nothing. -/
def Writes (s : Session σ) (act : Emit σ α) (a : α) (s' : Session σ) : Prop :=
  act.run.run none s = ((.ok a, none), s')

variable {s s' s'' : Session σ}

theorem Writes.pure (a : α) : Writes s (pure a) a s := rfl

/-- Two actions in a row write what they give, the second from where the first left. -/
theorem Writes.bind {x : Emit σ α} {f : α → Emit σ β} {a : α} {b : β} (first : Writes s x a s')
    (next : Writes s' (f a) b s'') : Writes s (x >>= f) b s'' := by
  have opened : x none s = ((.ok a, none), s') := first
  change (ExceptT.bind x f) none s = _
  simp only [ExceptT.bind, ExceptT.mk, Bind.bind, StateT.bind, opened]
  exact next

/-- A value may be changed after it was written. -/
theorem Writes.map {x : Emit σ α} {f : α → β} {a : α} (first : Writes s x a s') :
    Writes s (do return f (← x)) (f a) s' := first.bind (.pure _)

/-- Looking at the session writes nothing. -/
theorem Writes.session : Writes s (getThe (Session σ)) s s := rfl

/-- An outcome that is no error may be passed on. -/
theorem Writes.liftM {x : Except Error α} {a : α} (given : x = .ok a) :
    Writes s (liftM x) a s := by
  subst given
  rfl

/-- Going on where nothing was noted writes nothing. -/
theorem Writes.settle : Writes s Emit.settle () s := rfl

/-- An action on the pool changes nothing else. -/
theorem Writes.interning {act : Interning α} {a : α} {p : PoolBuilder}
    (given : act s.pool = (a, p)) : Writes s (interning act) a { s with pool := p } := by
  have acted : Build.interning act s = (a, { s with pool := p }) := by
    simp only [Build.interning, given]
  change (((Except.ok (Build.interning act s).1, none), (Build.interning act s).2) :
    (Except Error α × Option Error) × Session σ) = _
  rw [acted]

/-- A table that is not too long is counted. -/
theorem Writes.count {n : Nat} (short : n ≤ maxCount) : Writes s (count n) (u2 n) s := by
  rw [Emit.count, if_neg (Nat.not_lt.mpr short)]
  exact .pure _

/-- A body that is not too long comes after its length. -/
theorem Writes.sized {excess : Nat → Error} {body : Bytes} (short : body.length ≤ maxLength) :
    Writes s (sized excess body) (u4 body.length ++ body) s := by
  rw [Emit.sized, if_neg (Nat.not_lt.mpr short)]
  exact .pure _

/-- What is written without a note is what finishing gives. -/
theorem Writes.finish {act : Emit σ α} {a : α} (writes : Writes s act a s') :
    Emit.finish act s = (.ok a, s') := by
  have ran : (act.run none) s = ((.ok a, none), s') := writes
  rw [Emit.finish, bind_apply, ran]
  rfl

end Emit

end JvmClass
