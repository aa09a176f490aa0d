import JvmClass.Proofs.Attribute.Copying
import JvmClass.Proofs.Code.Safety
import JvmClass.Proofs.Stack.Effect

/-!
# Labels of a decoded body

The rows and frames of a body name offsets up to the end of its code. They are decoded before it is
known where instructions start, so nothing more can be said of their labels.
-/

namespace JvmClass

open Layout (covered)
open Scan (Returns)

/-! ## Labels that elements refer to -/

/-- The labels that an instruction needs. A return from a subroutine needs none. -/
def Instruction.targets : Instruction → List (Option Label)
  | .discontinued op target _ => if op = Opcode.ret then [] else [target]
  | i => i.labels

/-- The labels that an attribute refers to. -/
def AttributeBody.labels : AttributeBody → List (Option Label)
  | .stackMapTable frames => frames.flatMap StackMapFrame.labels
  | _ => []

/-- The labels that an element refers to. A label is bound by its element, which does not refer to
it. -/
def CodeElement.labels : CodeElement → List (Option Label)
  | .instruction i => i.targets
  | .handler c => c.labels
  | .localVariable s | .localVariableType s => s.labels
  | .attribute a => a.body.labels
  | .label _ | .line _ => []

/-- The labels that an instruction needs are among those that it refers to. -/
theorem Instruction.targets_subset (i : Instruction) : i.targets ⊆ i.labels := by
  cases i with
  | discontinued op target slot =>
      rw [targets]
      split
      · exact List.nil_subset _
      · exact List.Subset.refl _
  | _ => exact List.Subset.refl _

/-- An instruction without operands refers to no labels. -/
theorem Instruction.labels_of_ofOpcode? {op : Opcode} {i : Instruction}
    (given : ofOpcode? op = some i) : i.labels = [] := by
  simp only [ofOpcode?, Option.bind_eq_bind, Option.bind_eq_some_iff] at given
  obtain ⟨info, -, given⟩ := given
  split at given
  · cases given
  · split at given <;> cases given <;> rfl

namespace InputCode

variable {c : InputCode}

/-- A label that names an offset before a bound. -/
def Names (c : InputCode) (bound : Nat) (l : Option Label) : Prop :=
  ∃ n < bound, l = some (c.label n)

/-- A label that names an offset before a bound names one before a further bound. -/
theorem Names.mono {bound bound' : Nat} {l : Option Label} (names : c.Names bound l)
    (further : bound ≤ bound') : c.Names bound' l := by
  obtain ⟨n, before, same⟩ := names
  exact ⟨n, Nat.lt_of_lt_of_le before further, same⟩

/-- Labels of a body are the same only for the same offset. -/
theorem label_injective {m n : Nat} (same : c.label m = c.label n) : m = n := by
  simpa [label] using same

/-! ## Rows -/

/-- What a step gives, whatever it may fail with. -/
abbrev Gives {α : Type} (x : Except Error α) (post : α → Prop) : Prop :=
  Yields (fun _ => True) x post

/-- Nothing is promised of what a step gives. -/
theorem gives_any {α : Type} {x : Except Error α} : Gives x fun _ => True :=
  ⟨fun _ _ => trivial, fun _ _ => trivial⟩

/-- The labels of a handler that is read name offsets up to the end of the code. -/
theorem gives_readCatch (n : Nat) :
    Gives (c.readCatch n) fun row => ∀ l ∈ row.labels, c.Names (c.codeLength + 1) l := by
  refine gives_any.bind fun start _ => gives_any.bind fun stop _ => gives_any.bind fun handler _ =>
    ?_
  refine .guard (fun _ => trivial) fun inside => gives_any.bind fun type _ => ?_
  simp only [Bool.or_eq_true, decide_eq_true_eq, not_or, Nat.not_le, Nat.not_lt] at inside
  have named : ∀ l ∈ [some (c.label start), some (c.label stop), some (c.label handler)],
      c.Names (c.codeLength + 1) l := by
    simp only [List.forall_mem_cons, List.not_mem_nil, false_implies, implies_true, and_true]
    exact ⟨⟨start, by omega, rfl⟩, ⟨stop, by omega, rfl⟩, ⟨handler, by omega, rfl⟩⟩
  exact .ite (fun _ => .pure named) fun _ => gives_any.bind fun _ _ => .pure named

/-- The labels of scopes that are read name offsets up to the end of the code. -/
theorem gives_readScopes (env : Envelope) :
    Gives (c.readScopes env) fun rows =>
      ∀ s ∈ rows, ∀ l ∈ s.labels, c.Names (c.codeLength + 1) l := by
  refine gives_any.bind fun n _ => .guard (fun _ => trivial) fun _ => .mapM fun k _ => ?_
  refine gives_any.bind fun start _ => gives_any.bind fun length _ => ?_
  refine .guard (fun _ => trivial) fun inside => ?_
  refine gives_any.bind fun _ _ => gives_any.bind fun _ _ => gives_any.bind fun _ _ =>
    gives_any.bind fun _ _ => gives_any.bind fun _ _ => .pure ?_
  simp only [LocalScope.labels, List.forall_mem_cons, List.not_mem_nil, false_implies, implies_true,
    and_true]
  exact ⟨⟨start, by omega, rfl⟩, ⟨start + length, by omega, rfl⟩⟩

/-- The target of a jump that is read lies inside the code. -/
theorem gives_readTarget (offset : Nat) (delta : Int) :
    Gives (c.readTarget offset delta) fun l => c.Names c.codeLength (some l) := by
  refine .ite (fun _ => .throw trivial) fun inside => .pure ?_
  simp only [Bool.or_eq_true, decide_eq_true_eq, not_or] at inside
  exact ⟨_, by omega, rfl⟩

/-! ## Frames -/

/-- What types refer to lies before the end of the code. -/
def NamesTypes (c : InputCode) (types : List VerificationType) : Prop :=
  ∀ t ∈ types, ∀ l ∈ t.label?, c.Names c.codeLength l

/-- What a type of a frame refers to lies before the end of the code. -/
theorem returns_readVerificationType :
    Returns (Attribute.readVerificationType c) fun t => ∀ l ∈ t.label?, c.Names c.codeLength l := by
  refine .bind fun offset => .bind fun tag => .ite (fun _ => .pure nofun) fun _ => ?_
  refine .ite (fun _ => .bind fun e => .pure nofun) fun _ => .ite (fun _ => ?_) fun _ => .fail
  refine .bind fun new => .check fun inside => .pure ?_
  rintro l ⟨⟩
  exact ⟨new, Nat.not_le.mp inside, rfl⟩

/-- The types at the start of a method are all initialised. -/
theorem namesTypes_of_initialLocals {types : List VerificationType}
    (given : Attribute.initialLocals c.method = .ok types) : c.NamesTypes types := by
  rw [Attribute.initialLocals] at given
  split at given
  · cases given
  · rename_i d parsed
    obtain rfl := Except.ok.inj given
    refine List.forall_mem_append.mpr ⟨?_, fun t member l label => ?_⟩
    · split
      · exact fun t member => nomatch member
      · split <;> exact List.forall_mem_singleton.mpr nofun
    · obtain ⟨p, -, rfl⟩ := List.mem_map.mp member
      rw [VerificationType.ofDescriptor] at label
      split at label <;> cases label

section Frames

variable {each : VerificationType → Prop} (type : Returns (Attribute.readVerificationType c) each)
include type

/-- What is true of the types before a frame and of all that are read is true of the types in it. -/
theorem returns_readFrame {locals : List VerificationType} (before : ∀ t ∈ locals, each t) :
    Returns (Attribute.readFrame c locals) fun frame =>
      (∀ t ∈ frame.2.1 ++ frame.2.2, each t) ∧ frame.2.2.length < 65536 := by
  have none : (∀ t ∈ locals ++ [], each t) ∧ ([] : List VerificationType).length < 65536 := by
    rw [List.append_nil]
    exact ⟨before, by decide⟩
  have one (t : VerificationType) (here : each t) :
      (∀ t' ∈ locals ++ [t], each t') ∧ [t].length < 65536 :=
    ⟨List.forall_mem_append.mpr ⟨before, List.forall_mem_singleton.mpr here⟩, by simp⟩
  refine .bind fun offset => .bind fun kind => .ite (fun _ => .pure none) fun _ => ?_
  refine .ite (fun _ => type.after fun t here => .pure (one t here)) fun _ => ?_
  refine .guard (.bind fun delta => ?_)
  refine .ite (fun _ => type.after fun t here => .pure (one t here)) fun _ => ?_
  refine .ite (fun _ => .guard (.pure ⟨fun t member => before t ?_, none.2⟩)) fun _ => ?_
  · rw [List.append_nil] at member
    exact List.mem_of_mem_take member
  refine .ite (fun _ => .pure none) fun _ => ?_
  refine .ite (fun _ => type.times.after fun ts here => .pure ⟨?_, none.2⟩) fun _ => ?_
  · rw [List.append_nil]
    exact List.forall_mem_append.mpr ⟨before, here.2⟩
  exact type.counted.after fun ts here => type.counted.after fun ts' there =>
    .pure ⟨List.forall_mem_append.mpr ⟨here.2, there.2⟩, there.1⟩

end Frames

/-- The first frame is for an earlier offset than the second. -/
def Ahead (c : InputCode) (f g : StackMapFrame) : Prop :=
  ∃ m n, f.target = some (c.label m) ∧ g.target = some (c.label n) ∧ m < n

/-- Frames that were read stand in the order of their offsets, before the end of the code. -/
structure Framed (c : InputCode) (each : VerificationType → Prop) (frames : List StackMapFrame) :
    Prop where
  ascending : frames.Pairwise c.Ahead
  targets : ∀ f ∈ frames, c.Names c.codeLength f.target
  types : ∀ f ∈ frames, ∀ t ∈ f.locals ++ f.stack, each t
  heights : ∀ f ∈ frames, f.stack.length < 65536

/-- A frame is read, and then the frames after it. -/
theorem of_readFrames_succ {done frames : List StackMapFrame} {previous : Option Nat}
    {locals : List VerificationType} {n : Nat} {d d' : Decoder}
    (given : Attribute.readFrames c done previous locals (n + 1) d = .ok (frames, d')) :
    ∃ delta locals' stack e, Attribute.readFrame c locals d = .ok ((delta, locals', stack), e) ∧
      Attribute.frameOffset previous delta < c.codeLength ∧
      Attribute.readFrames c
        (⟨some (c.label (Attribute.frameOffset previous delta)), locals', stack⟩ :: done)
        (some (Attribute.frameOffset previous delta)) locals' n e = .ok (frames, d') := by
  cases previous <;>
  · rw [Attribute.readFrames] at given
    dsimp only at given
    split at given
    · cases given
    · rename_i delta locals' stack e read
      split at given
      · cases given
      · rename_i inside
        exact ⟨delta, locals', stack, e, read, Nat.not_le.mp inside, given⟩

/-- Frames are read behind those that were read already, which end at the previous offset. -/
theorem returns_readFrames {each : VerificationType → Prop}
    (type : Returns (Attribute.readVerificationType c) each) {done : List StackMapFrame}
    {previous : Option Nat} {locals : List VerificationType} {n : Nat}
    (framed : c.Framed each done.reverse)
    (earlier : ∀ f ∈ done, ∃ m p, previous = some p ∧ f.target = some (c.label m) ∧ m ≤ p)
    (before : ∀ t ∈ locals, each t) :
    Returns (Attribute.readFrames c done previous locals n) fun frames =>
      c.Framed each frames ∧ frames.length = done.length + n := by
  induction n generalizing done previous locals with
  | zero => exact .pure ⟨framed, List.length_reverse⟩
  | succ n inductionHypothesis =>
      intro d frames d' given
      obtain ⟨delta, locals', stack, e, read, inside, given⟩ := of_readFrames_succ given
      obtain ⟨types, few⟩ := returns_readFrame type before _ _ _ read
      have further : ∀ p, previous = some p → p < Attribute.frameOffset previous delta := by
        rintro p rfl
        rw [Attribute.frameOffset]
        omega
      have next : c.Framed each
          (⟨some (c.label (Attribute.frameOffset previous delta)), locals', stack⟩ ::
            done).reverse := by
        rw [List.reverse_cons]
        refine ⟨List.pairwise_append.mpr ⟨framed.ascending, List.pairwise_singleton _ _, ?_⟩,
          List.forall_mem_append.mpr
          ⟨framed.targets, List.forall_mem_singleton.mpr ⟨_, inside, rfl⟩⟩,
          List.forall_mem_append.mpr ⟨framed.types, List.forall_mem_singleton.mpr types⟩,
          List.forall_mem_append.mpr ⟨framed.heights, List.forall_mem_singleton.mpr few⟩⟩
        intro f member g last
        obtain rfl := List.mem_singleton.mp last
        obtain ⟨m, p, same, target, inside⟩ := earlier f (List.mem_reverse.mp member)
        exact ⟨m, _, target, rfl, Nat.lt_of_le_of_lt inside (further p same)⟩
      obtain ⟨all, length⟩ := inductionHypothesis next (List.forall_mem_cons.mpr
        ⟨⟨_, _, rfl, rfl, Nat.le_refl _⟩, fun f member => by
          obtain ⟨m, p, same, target, inside⟩ := earlier f member
          exact ⟨m, _, rfl, target, Nat.le_of_lt (Nat.lt_of_le_of_lt inside (further p same))⟩⟩)
        (fun t member => types t (List.mem_append_left _ member)) _ _ _ given
      exact ⟨all, by rw [length, List.length_cons]; omega⟩

/-- Whatever is true of the types at the start of a method and of all types that are read is true of
the types in its frames. -/
theorem returns_readStackMap {each : VerificationType → Prop}
    (type : Returns (Attribute.readVerificationType c) each)
    (initial : ∀ types, Attribute.initialLocals c.method = .ok types → ∀ t ∈ types, each t) :
    Returns (Attribute.readStackMap c) fun body => ∃ frames, body = .stackMapTable frames ∧
      c.Framed each frames ∧ frames.length < 65536 := by
  refine (Returns.ofExcept initial).after fun types known => Scan.returns_u2.after fun n small => ?_
  have start : c.Framed each ([] : List StackMapFrame).reverse := ⟨.nil, nofun, nofun, nofun⟩
  refine (returns_readFrames type start nofun known).after fun frames read => .pure ?_
  exact ⟨frames, rfl, read.1, by rw [read.2, List.length_nil]; omega⟩

/-- What a frame refers to lies before the end of the code. -/
def NamesFrame (c : InputCode) (f : StackMapFrame) : Prop :=
  ∀ l ∈ f.labels, c.Names c.codeLength l

/-- What the frames of a body refer to lies before the end of the code. -/
theorem Framed.named {frames : List StackMapFrame}
    (framed : c.Framed (fun t => ∀ l ∈ t.label?, c.Names c.codeLength l) frames) :
    ∀ f ∈ frames, c.NamesFrame f := by
  refine fun f member => List.forall_mem_cons.mpr ⟨framed.targets f member, fun l there => ?_⟩
  obtain ⟨t, member', label⟩ := List.mem_filterMap.mp there
  exact framed.types f member t member' l label

/-! ## Nested attributes -/

/-- What decodes an attribute of the body. -/
def context (c : InputCode) : Attribute.Context :=
  { input := c.input, holder := .code, method := some c.method, code := some c }

/-- The attributes that mean something in a body: stack maps, annotations of types, and those that
are only kept. -/
inductive Kept (c : InputCode) : AttributeBody → Prop
  | stackMap {frames : List StackMapFrame} (named : ∀ f ∈ frames, c.NamesFrame f) :
    Kept c (.stackMapTable frames)
  | types (visible : Bool) (rows : List TypeAnnotation) : Kept c (.typeAnnotations visible rows)
  | unknown (name : Text) (data : Bytes) : Kept c (.unknown name data)

/-- The labels of an attribute of a body name offsets before the end of the code. -/
theorem Kept.labels {body : AttributeBody} (kept : c.Kept body) :
    ∀ l ∈ body.labels, c.Names c.codeLength l := by
  cases kept with
  | stackMap named =>
      intro l member
      obtain ⟨f, member, label⟩ := List.mem_flatMap.mp member
      exact named f member l label
  | types => exact List.forall_mem_nil _
  | unknown => exact List.forall_mem_nil _

/-- What is read by the layout of an attribute of bodies means something there. -/
theorem returns_kept (room : Nat) (env : Envelope) :
    ∀ row ∈ Attribute.layouts c.context room env, Holder.code ∈ row.2.1 →
      Returns row.2.2 c.Kept := by
  have types (visible : Bool) : Returns (do
      return AttributeBody.typeAnnotations visible
        (← Scan.counted (Attribute.readTypeAnnotationRow c.input room))) c.Kept :=
    .bind fun rows => .pure (.types visible rows)
  have stackMap : Returns (Attribute.readStackMap c) c.Kept := by
    intro d body d' given
    obtain ⟨frames, rfl, framed, -⟩ := returns_readStackMap returns_readVerificationType
      (fun types => namesTypes_of_initialLocals) d body d' given
    exact .stackMap framed.named
  simp only [Attribute.layouts, Attribute.plainLayouts, Attribute.annotationLayouts, context,
    Attribute.declarations, List.cons_append, List.nil_append, List.forall_mem_cons]
  simp only [List.mem_cons, List.not_mem_nil, reduceCtorEq, or_false, or_true, or_self,
    forall_const, false_implies, true_and, and_true]
  exact ⟨stackMap, types true, types false⟩

/-- An attribute that was decoded in a body means something there. -/
theorem kept_of_decode {room : Nat} {env : Envelope} {a : Attribute}
    (decoded : Attribute.decode c.context room env = .ok a) : c.Kept a.body := by
  refine (Attribute.of_decodeWith (fun read given => ?_) (fun data => .unknown _ data) decoded).2
  split at given
  · cases given
  · obtain ⟨row, member, -, held, rfl⟩ := Attribute.mem_of_layout? given
    exact returns_kept room env row member held

/-- What the nested attributes of a body hold refers to offsets up to the end of the code. -/
structure NamesNested (c : InputCode) (n : Nested) : Prop where
  scopes : ∀ e ∈ n.scopes, ∃ s : LocalScope, (e = .localVariable s ∨ e = .localVariableType s) ∧
    ∀ l ∈ s.labels, c.Names (c.codeLength + 1) l
  frames : ∀ a ∈ n.frames, ∃ frames, a.body = .stackMapTable frames ∧ ∀ f ∈ frames, c.NamesFrame f
  others : ∀ a ∈ n.others, c.Kept a.body ∧ a.body.labels = []

/-- A body without nested attributes refers to no offsets. -/
theorem NamesNested.empty : c.NamesNested {} := by
  constructor <;> exact List.forall_mem_nil _

/-- Scopes are added behind those that are there. -/
theorem NamesNested.withScopes {n : Nested} {rows : List LocalScope}
    {kind : LocalScope → CodeElement} (named : c.NamesNested n)
    (kinds : ∀ s, kind s = .localVariable s ∨ kind s = .localVariableType s)
    (rowsNamed : ∀ s ∈ rows, ∀ l ∈ s.labels, c.Names (c.codeLength + 1) l) :
    c.NamesNested { n with scopes := n.scopes ++ rows.map kind } where
  scopes := List.forall_mem_append.mpr ⟨named.scopes, List.forall_mem_map.mpr fun s member =>
    ⟨s, kinds s, rowsNamed s member⟩⟩
  frames := named.frames
  others := named.others

/-- An attribute without labels may be added to those of a body. -/
theorem NamesNested.withOther {n : Nested} {a : Attribute} (named : c.NamesNested n)
    (kept : c.Kept a.body) (bare : a.body.labels = []) :
    c.NamesNested { n with others := n.others ++ [a] } where
  scopes := named.scopes
  frames := named.frames
  others := List.forall_mem_append.mpr ⟨named.others, List.forall_mem_singleton.mpr ⟨kept, bare⟩⟩

/-- What one nested attribute adds to those of a body refers to offsets up to the end of the
code. -/
theorem gives_readNested {n : Nested} (named : c.NamesNested n) (env : Envelope) :
    Gives (c.readNested env n) c.NamesNested := by
  have tabled (kind : LocalScope → CodeElement)
      (kinds : ∀ s, kind s = .localVariable s ∨ kind s = .localVariableType s) :
      Gives (do return { n with scopes := n.scopes ++ (← c.readScopes env).map kind })
        c.NamesNested :=
    (gives_readScopes env).bind fun rows rowsNamed => .pure (named.withScopes kinds rowsNamed)
  unfold readNested
  dsimp only
  refine .ite (fun _ => .ite (fun _ => .pure named) fun _ => ?_) fun _ => ?_
  · exact gives_any.bind fun lines _ => .pure ⟨named.scopes, named.frames, named.others⟩
  refine .ite (fun _ => .ite (fun _ => .pure named) fun _ => ?_) fun _ => ?_
  · exact tabled .localVariable fun s => .inl rfl
  refine .ite (fun _ => .ite (fun _ => .pure named) fun _ => ?_) fun _ => ?_
  · exact tabled .localVariableType fun s => .inr rfl
  have decoding : Gives (Attribute.decode c.context (Attribute.maxNesting - 1) env)
      fun a => c.Kept a.body := ⟨fun a decoded => kept_of_decode decoded, fun _ _ => trivial⟩
  refine decoding.bind fun a kept => ?_
  split
  · rename_i frames body
    rw [body] at kept
    cases kept with
    | stackMap all =>
        refine .pure ⟨named.scopes, ?_, named.others⟩
        exact List.forall_mem_append.mpr ⟨named.frames,
          List.forall_mem_singleton.mpr ⟨frames, body, all⟩⟩
  · rename_i name data body
    have bare : a.body.labels = [] := by rw [body]; rfl
    exact .ite (fun _ => .pure named) fun _ => .pure (named.withOther kept bare)
  · rename_i noFrames noData
    have bare : a.body.labels = [] := by
      cases body : a.body <;> first | rfl | exact absurd body (noFrames _)
    exact .pure (named.withOther kept bare)

/-- What the nested attributes of a body hold refers to offsets up to the end of the code. -/
theorem gives_readNestedFrom {n : Nested} (named : c.NamesNested n) (p left : Nat) :
    Gives (c.readNestedFrom n p left) c.NamesNested := by
  induction left generalizing n p with
  | zero => exact .pure named
  | succ left inductionHypothesis =>
      rw [readNestedFrom]
      refine gives_any.bind fun index _ => gives_any.bind fun name _ =>
        gives_any.bind fun length _ => ?_
      exact (gives_readNested named _).bind fun held named => inductionHypothesis named _

end InputCode

end JvmClass
