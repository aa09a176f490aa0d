import JvmClass.Build.Body
import JvmClass.Proofs.Code.Closed
import JvmClass.Proofs.Constant.Blame

/-!
# Writing that does not complain about labels

Where every label that something refers to is bound, writing it may fail for many reasons, but not
because of a label.
-/

namespace JvmClass

variable {σ α β : Type}

/-- A step that fails with no error about labels. -/
abbrev Innocent (x : Except Error α) : Prop := Yields (fun e => e.ofLabels = false) x fun _ => True

/-- The labels that a cell refers to. -/
def Cell.targets : Cell → List (Option Label)
  | .byte _ => []
  | .near _ target | .far _ target => [target]

namespace Emit

/-- Whatever an action fails with or notes, it is not about labels. -/
def Spares (act : Emit σ α) : Prop :=
  ∀ (noted : Option Error) (s : Session σ), (∀ e ∈ noted, e.ofLabels = false) →
    (∀ e, (act.run noted s).1.1 = .error e → e.ofLabels = false) ∧
      ∀ e ∈ (act.run noted s).1.2, e.ofLabels = false

namespace Spares

theorem pure (a : α) : Spares (pure a : Emit σ α) := fun _ _ before => ⟨nofun, before⟩

theorem throw {e : Error} (other : e.ofLabels = false) : Spares (throw e : Emit σ α) :=
  fun _ _ before => ⟨fun _ same => Except.error.inj same ▸ other, before⟩

/-- Two steps leave labels out of what they fail with if either does. -/
theorem bind {x : Emit σ α} {f : α → Emit σ β} (first : Spares x) (next : ∀ a, Spares (f a)) :
    Spares (x >>= f) := by
  intro noted s before
  obtain ⟨stops, after⟩ := first noted s before
  change (∀ e, (ExceptT.bindCont f (x.run noted s).1.1 (x.run noted s).1.2 (x.run noted s).2).1.1 =
    .error e → _) ∧ ∀ e ∈ (ExceptT.bindCont f (x.run noted s).1.1 (x.run noted s).1.2
      (x.run noted s).2).1.2, _
  generalize x.run noted s = reached at stops after ⊢
  obtain ⟨⟨outcome, noted'⟩, s'⟩ := reached
  cases outcome with
  | error e => exact ⟨fun _ same => Except.error.inj same ▸ stops e rfl, after⟩
  | ok a => exact next a noted' s' after

/-- An outcome that is not about labels may be passed on. -/
theorem liftM {x : Except Error α} (innocent : Innocent x) : Spares (liftM x : Emit σ α) := by
  cases x with
  | error e => exact .throw (innocent.2 e rfl)
  | ok a => exact .pure a

/-- What comes after an outcome that was known already. -/
theorem given {x : Except Error α} {f : α → Emit σ β} {post : α → Prop}
    (innocent : Yields (fun e => e.ofLabels = false) x post) (next : ∀ a, post a → Spares (f a)) :
    Spares (MonadLiftT.monadLift x >>= f) := by
  cases x with
  | error e => exact .throw (innocent.2 e rfl)
  | ok a => exact next a (innocent.1 a rfl)

/-- An action of the session. -/
theorem session (act : Build σ α) : Spares (ExceptT.lift (StateT.lift act) : Emit σ α) :=
  fun _ _ before => ⟨nofun, before⟩

/-- References to constants may note what they like while they are made, since a session keeps it
apart. -/
theorem interning (act : Interning α) : Spares (Emit.interning act : Emit σ α) := .session _

/-- A check that fails as it may. -/
theorem guard {p : Prop} [Decidable p] {m : Misuse} {stops : α → Emit σ β} {rest : Emit σ β}
    (other : (Error.misuse m).ofLabels = false) (spares : Spares rest) :
    Spares (if p then throwThe Error (.misuse m) >>= stops else rest) := by
  split
  · exact fun _ _ before => ⟨fun _ same => Except.error.inj same ▸ other, before⟩
  · exact spares

theorem look : Spares (getThe (Session σ) : Emit σ (Session σ)) :=
  .session (get : Build σ (Session σ))

end Spares

/-- What is noted may be any error that is not about labels. -/
theorem spares_note {e : Error} (other : e.ofLabels = false) : Spares (note e : Emit σ Unit) := by
  refine fun noted _ before => ⟨nofun, fun e' kept => ?_⟩
  change e' ∈ (noted <|> some e) at kept
  cases noted with
  | none => exact Option.some.inj kept ▸ other
  | some first => exact before e' kept

/-- Looking for errors between two parts says nothing about labels. -/
theorem spares_settle : Spares (settle : Emit σ Unit) := by
  intro noted s before
  cases noted with
  | none => exact ⟨nofun, before⟩
  | some e => exact ⟨fun _ same => Except.error.inj same ▸ before e rfl, before⟩

/-- Referring to a constant says nothing about labels. -/
theorem spares_ref (e : Option Entry) : Spares (ref e : Emit σ Bytes) := by
  cases e with
  | none => exact .bind (spares_note rfl) fun _ => .pure _
  | some e => exact .bind (.interning _) fun _ => .pure _

/-- Referring to a constant, or to none, says nothing about labels. -/
theorem spares_optionalRef (e : Option Entry) : Spares (optionalRef e : Emit σ Bytes) := by
  cases e with
  | none => exact .pure _
  | some e => exact .bind (.interning _) fun _ => .pure _

/-- Referring to a text says nothing about labels. -/
theorem spares_refText (text : Text) : Spares (refText text : Emit σ Bytes) :=
  .bind (.interning _) fun _ => .pure _

/-- Counting says nothing about labels. -/
theorem spares_count (n : Nat) : Spares (count n : Emit σ Bytes) := by
  rw [count]
  split
  · exact .bind (spares_note rfl) fun _ => .pure _
  · exact .pure _

/-- Writing one thing after another says nothing about labels if writing each does not. -/
theorem spares_eachOnto {write : β → Emit σ Bytes} {items : List β}
    (writes : ∀ b ∈ items, Spares (write b)) (done : List Bytes) :
    Spares (eachOnto write done items) := by
  induction items generalizing done with
  | nil => exact .pure _
  | cons b rest inductionHypothesis =>
      exact .bind (writes b List.mem_cons_self) fun _ =>
        inductionHypothesis (fun b member => writes b (List.mem_cons_of_mem _ member)) _

/-- Writing a counted list says nothing about labels if writing its items does not. -/
theorem spares_counted {write : β → Emit σ Bytes} {items : List β}
    (writes : ∀ b ∈ items, Spares (write b)) : Spares (counted write items) :=
  .bind (spares_count _) fun _ => .bind (spares_eachOnto writes _) fun _ => .pure _

/-- A part that is too long is refused for its length. -/
theorem spares_sized {excess : Nat → Error} (other : ∀ n, (excess n).ofLabels = false)
    (body : Bytes) : Spares (sized excess body : Emit σ Bytes) := by
  rw [sized]
  split
  · exact .bind (.throw (other _)) fun _ => .pure _
  · exact .pure _

/-- An attribute says nothing about labels if its body does not. -/
theorem spares_named (name : Text) {body : Emit σ Bytes} (spares : Spares body) :
    Spares (named name body) :=
  .bind (spares_refText name) fun _ => .bind spares fun _ => .bind (spares_sized (fun _ => rfl) _)
    fun _ => .bind spares_settle fun _ => .pure _

/-- A table says nothing about labels if the bodies in it do not. That an attribute is repeated is
another matter. -/
theorem spares_itemsAfter (seen : List Text) (done : List Bytes) {is : List (Option (Item σ))}
    (writes : ∀ i, some i ∈ is → Spares i.write) : Spares (itemsAfter seen done is) := by
  induction is generalizing seen done with
  | nil => exact .bind spares_settle fun _ => .pure _
  | cons i rest inductionHypothesis =>
      cases i with
      | none => exact .throw rfl
      | some item =>
          rw [itemsAfter]
          exact .guard rfl (.bind (writes item List.mem_cons_self) fun _ =>
            inductionHypothesis _ _ fun i member => writes i (List.mem_cons_of_mem _ member))

/-- What fails or was noted is the outcome. -/
theorem innocent_finish {act : Emit σ α} (spares : Spares act) (s : Session σ) :
    Innocent (finish act s).1 := by
  refine ⟨fun _ _ => trivial, fun e stopped => ?_⟩
  obtain ⟨stops, notes⟩ := spares none s nofun
  rw [finish, bind_apply] at stopped
  generalize act.run none s = reached at stops notes stopped
  obtain ⟨⟨_ | _, _ | _⟩, _⟩ := reached
  · exact stops e stopped
  · exact stops e stopped
  · cases stopped
  · exact Except.error.inj stopped ▸ notes _ rfl

/-! ## Attributes of bodies -/

/-- Copying an attribute says nothing about labels. -/
theorem spares_copied? (a : Attribute) : Spares (copied? a : Emit σ (Option Bytes)) := by
  refine .bind .look fun s => ?_
  split
  · split
    · have slice (parent : Input) (p n : Nat) : Innocent (parent.slice p n) := by
        refine ⟨fun _ _ => trivial, fun e stopped => ?_⟩
        rw [Input.slice, Layout.covered.eq_def] at stopped
        split at stopped <;> cases stopped
        rfl
      exact .bind (.liftM (slice _ _ _)) fun _ => .pure _
    · exact .pure _
  · exact .pure _

mutual

/-- Writing an annotation says nothing about labels. -/
theorem spares_annotationRow : ∀ a : Annotation, Spares (annotationRow a : Emit σ Bytes)
  | .mk type elements => by
    rw [annotationRow]
    exact .bind (spares_ref _) fun _ => .bind (spares_count _) fun _ =>
      .bind (spares_annotationElements elements) fun _ => .pure _

/-- Writing elements of an annotation says nothing about labels. -/
theorem spares_annotationElements :
    ∀ es : List AnnotationElement, Spares (annotationElements es : Emit σ Bytes)
  | [] => by
    rw [annotationElements]
    exact .pure _
  | .mk name value :: rest => by
    rw [annotationElements]
    exact .bind (spares_ref _) fun _ => .bind (spares_annotationValue value) fun _ =>
      .bind (spares_annotationElements rest) fun _ => .pure _

/-- Writing a value of an annotation says nothing about labels, nor does leaving it out. -/
theorem spares_annotationValue : ∀ v : AnnotationValue, Spares (annotationValue v : Emit σ Bytes)
  | .missing => by
    rw [annotationValue]
    exact .throw rfl
  | .const kind value => by
    rw [annotationValue]
    exact .bind (spares_ref _) fun _ => .pure _
  | .enum type constant => by
    rw [annotationValue]
    exact .bind (spares_ref _) fun _ => .bind (spares_ref _) fun _ => .pure _
  | .class d => by
    rw [annotationValue]
    exact .bind (spares_ref _) fun _ => .pure _
  | .nested marker => by
    rw [annotationValue]
    exact .bind (spares_annotationRow marker) fun _ => .pure _
  | .array values => by
    rw [annotationValue]
    exact .bind (spares_count _) fun _ => .bind (spares_annotationValues values) fun _ => .pure _

/-- Writing values of an array says nothing about labels. -/
theorem spares_annotationValues :
    ∀ vs : List AnnotationValue, Spares (annotationValues vs : Emit σ Bytes)
  | [] => by
    rw [annotationValues]
    exact .pure _
  | v :: rest => by
    rw [annotationValues]
    exact .bind (spares_annotationValue v) fun _ => .bind (spares_annotationValues rest) fun _ =>
      .pure _

end

/-- Writing a type annotation says nothing about labels, since its target is copied. -/
theorem spares_typeAnnotationRow (a : TypeAnnotation) :
    Spares (typeAnnotationRow a : Emit σ Bytes) :=
  .guard rfl (.bind (spares_annotationRow _) fun _ => .pure _)

variable {offsets : Offsets}

/-- Writing a type of a frame says nothing about labels if its label can be placed. -/
theorem spares_verificationType {v : VerificationType}
    (placed : ∀ l ∈ v.label?, Innocent (offsets l)) :
    Spares (verificationType offsets v : Emit σ Bytes) := by
  cases v with
  | plain => exact .pure _
  | object name => exact .bind (.interning _) fun _ => .pure _
  | uninitialized new => exact .bind (.liftM (placed new rfl)) fun _ => .pure _

/-- Every label of a frame can be placed. -/
def Placed (offsets : Offsets) (f : StackMapFrame) : Prop := ∀ l ∈ f.labels, Innocent (offsets l)

/-- The labels of the types in a frame can be placed if those of the frame can. -/
theorem Placed.types {f : StackMapFrame} (placed : Placed offsets f) {v : VerificationType}
    (member : v ∈ f.locals ++ f.stack) : ∀ l ∈ v.label?, Innocent (offsets l) := fun l label =>
  placed l (List.mem_cons_of_mem _ (List.mem_filterMap.mpr ⟨v, member, label⟩))

/-- Frames say nothing about labels if their labels can be placed, whatever stands before them. -/
theorem spares_framesAfter (previous : Int) (done : List Bytes)
    {frames : List (Nat × StackMapFrame)} (placed : ∀ f ∈ frames, Placed offsets f.2) :
    Spares (framesAfter offsets previous done frames : Emit σ Bytes) := by
  induction frames generalizing previous done with
  | nil => exact .pure _
  | cons frame rest inductionHypothesis =>
      obtain ⟨here, others⟩ := List.forall_mem_cons.mp placed
      refine .guard rfl (.bind (spares_counted fun v member => ?_) fun _ =>
        .bind (spares_counted fun v member => ?_) fun _ => inductionHypothesis _ _ others)
      · exact spares_verificationType (here.types (List.mem_append_left _ member))
      · exact spares_verificationType (here.types (List.mem_append_right _ member))

/-- Where each label stands is known before anything is written. -/
theorem mapM_place (frames : List StackMapFrame) :
    (frames.mapM fun f => do return (← MonadLiftT.monadLift (offsets f.target), f) :
        Emit σ (List (Nat × StackMapFrame))) =
      MonadLiftT.monadLift (frames.mapM fun f => do return (← offsets f.target, f)) := by
  induction frames with
  | nil => rfl
  | cons f rest inductionHypothesis =>
      rw [List.mapM_cons, List.mapM_cons, inductionHypothesis]
      cases offsets f.target with
      | error e => rfl
      | ok n =>
          cases rest.mapM fun f =>
            (do return (← offsets f.target, f) : Except Error (Nat × StackMapFrame)) <;>
            rfl

/-- A stack map says nothing about labels if those of its frames can be placed. -/
theorem spares_stackMap {frames : List StackMapFrame} (placed : ∀ f ∈ frames, Placed offsets f) :
    Spares (stackMap (some offsets) frames : Emit σ Bytes) := by
  have targets : Yields (fun e => e.ofLabels = false)
      (frames.mapM fun f =>
        (do return (← offsets f.target, f) : Except Error (Nat × StackMapFrame)))
      fun rows => ∀ row ∈ rows, Placed offsets row.2 :=
    .mapM fun f member => (placed f member _ List.mem_cons_self).bind fun _ _ =>
      .pure (placed f member)
  rw [stackMap, mapM_place]
  refine .given targets fun rows all => .bind (spares_count _) fun _ =>
    .bind (spares_framesAfter _ _ fun row member => all row ?_) fun _ => .pure _
  exact List.mem_mergeSort.mp member

/-- The attributes of a decoded body are written without a word about labels. -/
theorem spares_kept {c : InputCode} {body : AttributeBody} (kept : c.Kept body)
    (placed : ∀ l ∈ body.labels, Innocent (offsets l)) (code : InputCode → Emit σ Bytes) :
    Spares (attributeBody (some offsets) code body) := by
  cases kept with
  | stackMap =>
      rw [attributeBody]
      exact spares_stackMap fun f member l label =>
        placed l (List.mem_flatMap.mpr ⟨f, member, label⟩)
  | types visible rows =>
      rw [attributeBody]
      exact spares_counted fun a _ => spares_typeAnnotationRow a
  | unknown =>
      rw [attributeBody]
      exact .pure _

/-- Attributes of a body say nothing about labels if they are such as are decoded and their labels
can be placed. -/
theorem spares_attributeItems {c : InputCode} {as : List Attribute}
    {code : InputCode → Emit σ Bytes}
    (kept : ∀ a ∈ as, c.Kept a.body ∧ ∀ l ∈ a.body.labels, Innocent (offsets l)) :
    ∀ i, some i ∈ attributeItems (some offsets) code (as.map some) → Spares i.write := by
  induction as with
  | nil =>
      rw [List.map_nil, attributeItems]
      exact fun i member => absurd member List.not_mem_nil
  | cons a rest inductionHypothesis =>
      obtain ⟨⟨here, placed⟩, others⟩ := List.forall_mem_cons.mp kept
      obtain ⟨span, body⟩ := a
      rw [List.map_cons, attributeItems]
      intro i member
      rcases List.mem_cons.mp member with same | member
      · obtain rfl := Option.some.inj same
        refine spares_named _ (.bind (spares_copied? _) fun copied => ?_)
        split
        · exact .pure _
        · exact spares_kept here placed code
      · exact inductionHypothesis others i member

end Emit

/-! ## Tables of bodies -/

namespace BodyWriter

open Emit (Spares)

variable {w : BodyWriter}

/-- Where a label stands that is bound is known. -/
theorem innocent_offset {l : Label} (bound : w.bound.contains l = true) :
    Innocent (w.offset (some l)) := by
  have stands : (w.bound[l]?).isSome = true := by
    rwa [← Std.HashMap.contains_eq_isSome_getElem?]
  obtain ⟨n, there⟩ := Option.isSome_iff_exists.mp stands
  rw [offset, there]
  exact .pure trivial

/-- Every label that some text refers to can be placed. -/
def Places (w : BodyWriter) (labels : List (Option Label)) : Prop :=
  ∀ l ∈ labels, Innocent (w.offset l)

/-- A cell comes out as bytes, or is refused for a distance, if its labels can be placed. -/
theorem innocent_resolve {cell : Cell} (placed : w.Places cell.targets) :
    Innocent (cell.resolve w.offset) := by
  cases cell with
  | byte b => exact .pure trivial
  | near offset target =>
      refine (placed target (List.mem_singleton_self _)).bind fun n _ => ?_
      exact .guard (fun _ => rfl) fun _ => .pure trivial
  | far offset target =>
      exact (placed target (List.mem_singleton_self _)).bind fun n _ => .pure trivial

/-- The code comes out as bytes, or is refused for a distance, if its labels can be placed. -/
theorem innocent_code (placed : ∀ cell ∈ w.cells, w.Places cell.targets) : Innocent w.code := by
  refine @Yields.bind _ _ _ _ (fun _ => True) _ _ _ ?_ fun _ _ => .pure trivial
  exact (Yields.mapM fun cell member => innocent_resolve (placed cell (by simpa using member))).mono
    fun _ (_ : ∀ _ ∈ _, True) => trivial

/-- The greatest depth of the stack has nothing to do with labels. -/
theorem innocent_maxStack (options : Options) (declared : Option Nat) :
    Innocent (w.maxStack options declared) := by
  rw [maxStack]
  split
  · exact .pure trivial
  · exact .throw rfl

/-- Handlers can be written, or are refused for their ranges, if their labels can be placed. -/
theorem innocent_handlers (placed : ∀ row ∈ w.catches, w.Places row.labels) :
    Innocent w.handlers := by
  refine @Yields.bind _ _ _ _ (fun _ => True) _ _ _ ?_ fun _ _ => .pure trivial
  refine (Yields.mapM fun row member => ?_).mono fun _ (_ : ∀ _ ∈ _, True) => trivial
  have labels := placed row (by simpa using member)
  refine (labels row.start (by simp [Catch.labels])).bind fun start _ => ?_
  refine (labels row.stop (by simp [Catch.labels])).bind fun stop _ => ?_
  refine (labels row.handler (by simp [Catch.labels])).bind fun handler _ => ?_
  exact .guard (fun _ => rfl) fun _ => .pure trivial

/-- The exception table says nothing about labels if those of its rows can be placed. -/
theorem spares_exceptionTable (placed : ∀ row ∈ w.catches, w.Places row.labels) :
    Spares (w.exceptionTable : Emit σ Bytes) :=
  .bind (.liftM (innocent_handlers placed)) fun _ => Emit.spares_counted fun _ _ =>
    .bind (Emit.spares_optionalRef _) fun _ => .pure _

/-- The table of line numbers says nothing about labels. -/
theorem spares_lineTable (w : BodyWriter) : Spares (w.lineTable : Emit σ Bytes) :=
  .bind (Emit.spares_refText _) fun _ => .bind (Emit.spares_counted fun (_, _) _ => .pure _)
    fun _ => .bind (Emit.spares_sized (fun _ => rfl) _) fun _ => .pure _

/-- The scope of a variable says nothing about labels if its ends can be placed. -/
theorem spares_scopeRow {s : LocalScope} (placed : w.Places s.labels) :
    Spares (w.scopeRow s : Emit σ Bytes) := by
  refine .bind (.liftM (placed s.start (by simp [LocalScope.labels]))) fun start => ?_
  refine .bind (.liftM (placed s.stop (by simp [LocalScope.labels]))) fun stop => ?_
  exact .guard rfl (.bind (Emit.spares_ref _) fun _ => .bind (Emit.spares_ref _) fun _ => .pure _)

/-- A table of scopes says nothing about labels if the ends of each can be placed. -/
theorem spares_scopeTable {name : Text} {scopes : Array LocalScope}
    (placed : ∀ s ∈ scopes, w.Places s.labels) : Spares (w.scopeTable name scopes : Emit σ Bytes) :=
  .bind (Emit.spares_refText _) fun _ =>
    .bind (Emit.spares_counted fun s member => spares_scopeRow (placed s (by simpa using member)))
      fun _ => .bind (Emit.spares_sized (fun _ => rfl) _) fun _ => .pure _

/-- A table that is left out when it is empty says no more than if it were not. -/
theorem spares_unlessEmpty (rows : Array α) {table : Emit σ Bytes} (spares : Spares table) :
    Spares (unlessEmpty rows table) := by
  rw [unlessEmpty]
  split
  · exact .pure _
  · exact spares

/-- Whatever a body refers to has been bound, and its attributes are such as are decoded. -/
structure Bound (c : InputCode) (w : BodyWriter) : Prop where
  cells : ∀ cell ∈ w.cells, w.Places cell.targets
  catches : ∀ row ∈ w.catches, w.Places row.labels
  scopes : ∀ s ∈ w.scopes, w.Places s.labels
  typeScopes : ∀ s ∈ w.typeScopes, w.Places s.labels
  «attributes» : ∀ a ∈ w.attributes, c.Kept a.body ∧ w.Places a.body.labels

namespace Bound

variable {c : InputCode} (bound : Bound c w)
include bound

/-- The attributes of a body say nothing about labels once everything is bound that they refer
to. -/
theorem spares_attributeTable : Spares (w.attributeTable : Emit σ Bytes) :=
  .bind (Emit.spares_count _) fun _ =>
    .bind (spares_unlessEmpty _ (spares_lineTable w)) fun _ =>
    .bind (spares_unlessEmpty _ (spares_scopeTable bound.scopes)) fun _ =>
    .bind (spares_unlessEmpty _ (spares_scopeTable bound.typeScopes)) fun _ =>
    .bind (Emit.spares_itemsAfter _ _ (Emit.spares_attributeItems fun a member =>
      bound.attributes a (by simpa using member))) fun _ => .pure _

/-- A body that refers to bound labels only is finished, or it fails for another reason. -/
theorem innocent_finish (declared : Option Nat) {s : Session σ} (quiet : s.Quiet) :
    Innocent (w.finish declared none s).1 := by
  rw [finish, bind_apply, quiet.error?]
  dsimp only
  rw [ite_apply_state]
  split
  · exact .throw rfl
  rw [ite_apply_state]
  split
  · exact .throw rfl
  rw [bind_apply]
  refine Emit.innocent_finish (.bind (.liftM (innocent_code bound.cells)) fun _ =>
    .bind (.liftM ?_) fun _ => .bind (spares_exceptionTable bound.catches)
      fun _ => .bind bound.spares_attributeTable fun _ => .pure _) _
  exact (innocent_maxStack _ _).bind fun _ _ => .pure trivial

end Bound

end BodyWriter

end JvmClass
