import JvmClass.Build.Body
import JvmClass.Proofs.Build.Parts
import JvmClass.Proofs.Build.Writing

/-!
# What walks and drafts do to a session

An instruction asks the pool for the constants that it refers to, and a complete body for those
that its tables name. Nothing else of it reaches the session.

A transform whose parts are done in a manner, given elements that it may be given, is run in that
manner, however its parts are put together. Bodies, fields and methods under construction are
written by calls, so that is what handlers and transforms of them come to.
-/

namespace JvmClass

/-! ## Writing a body -/

open PoolBuilder.Law (Attempts)

namespace Cell

variable {l : PoolBuilder.Law}

/-- The index of a constant is found as the law has it, where the constant may be referred to. -/
theorem attempts_refIndex {e : Option Entry} (given : ∀ x ∈ Entry.optional e, l.Given x) :
    l.Attempts (refIndex e) := by
  cases e with
  | none => exact .throw _
  | some e => exact .lift (l.indexOf e (given e (List.mem_singleton_self e)))

/-- An instruction that refers to a constant attempts to find its index. -/
theorem attempts_ofRef (op : Opcode) {e : Option Entry}
    (given : ∀ x ∈ Entry.optional e, l.Given x) (more : Bytes) : l.Attempts (ofRef op e more) :=
  .bind (attempts_refIndex given) fun _ => .pure _

/-- A call attempts to find the index of its method, and counts its arguments without the pool. -/
theorem attempts_ofInvoke (op : Opcode) {method : Option MemberEntry}
    (given : ∀ x ∈ Entry.optional (method.map .member), l.Given x) :
    l.Attempts (ofInvoke op method) := by
  refine .bind (attempts_ofRef op given _) fun cells => ?_
  cases method with
  | none => exact .pure _
  | some m =>
      dsimp only
      split
      · split
        · exact .throw _
        · exact .pure _
      · exact .pure _

/-- A load of a constant attempts to find its index where it has no form of its own, and refers to
nothing where it has. -/
theorem attempts_ofConstant (op : Opcode) (value : Int) {entry : Option Loadable}
    (given : ∀ x ∈ Entry.optional (entry.map .loadable), l.Given x) :
    l.Attempts (ofConstant op value entry) := by
  have pooled : l.Attempts (do
      let index ← refIndex (entry.map .loadable)
      if (entry.map fun e => e.kind.isWide).getD false then
        return code Opcode.ldc2W (u2 index)
      if op = Opcode.ldc && index ≤ 255 then return code op (u1 index)
      return code Opcode.ldcW (u2 index)) := by
    refine .bind (attempts_refIndex given) fun index => ?_
    split
    · exact .pure _
    · split <;> exact .pure _
  rw [ofConstant]
  split
  · split
    · exact .bind (.throw _) fun _ => .pure _
    · exact .pure _
  · split
    · split
      · exact .bind (.throw _) fun _ => .pure _
      · exact .pure _
    · split
      · exact pooled
      · split
        · exact .pure _
        · exact .throw _

/-- An instruction without operands refers to nothing. -/
theorem attempts_plain (i : Instruction) (op : Opcode) :
    l.Attempts (ofInstruction.plain i op) := by
  rw [ofInstruction.plain]
  split
  · exact .pure _
  · exact .throw _

/-- Whatever instruction is encoded, it refers to the constants that it mentions. -/
theorem attempts_ofInstruction (offset : Nat) {i : Instruction}
    (given : ∀ x ∈ i.mentions, l.Given x) : l.Attempts (ofInstruction offset i) := by
  cases i with
  | load | store | increment | lookupSwitch | tableSwitch => exact .liftM _
  | branch op target =>
      cases target with
      | none => exact .throw _
      | some target => exact .pure _
  | constant op value entry => exact attempts_ofConstant _ _ given
  | field op f => exact attempts_ofRef _ given _
  | invoke op method => exact attempts_ofInvoke _ given
  | invokeDynamic site => exact attempts_ofRef _ given _
  | newObject c => exact attempts_ofRef _ given _
  | newReferenceArray c => exact attempts_ofRef _ given _
  | typeCheck op c => exact attempts_ofRef _ given _
  | newMultiArray c dimensions => exact attempts_ofRef _ given _
  | newPrimitiveArray k =>
      simp only [ofInstruction]
      split
      · exact .pure _
      · exact .throw _
  | discontinued op target slot =>
      simp only [ofInstruction]
      split
      · split <;> exact .pure _
      · exact .pure _
  | «return» | arrayLoad | arrayStore | convert | operator | stack | monitor =>
      exact attempts_plain _ _
  | throw => exact attempts_plain _ _
  | nop => exact attempts_plain _ _

end Cell

namespace BodyWriter

variable {σ : Type}

/-- Whatever element is written, it refers to the constants that it mentions. -/
theorem attempts_put {l : PoolBuilder.Law} (options : Options) {e : CodeElement}
    (given : ∀ x ∈ e.mentions, l.Given x) (w : BodyWriter) : l.Attempts (w.put options e) := by
  cases e with
  | instruction i =>
      exact .bind (Cell.attempts_ofInstruction _ given) fun _ => .pure _
  | label l => exact .liftM _
  | handler c => exact .pure _
  | line n =>
      rw [put]
      split <;> exact .pure _
  | localVariable s => exact .pure _
  | localVariableType s =>
      rw [put]
      split <;> exact .pure _
  | «attribute» a =>
      rw [put]
      split <;> exact .pure _

open Emit (Tries)
open Build.Law (gives_append gives_flatMap)

variable {l : Build.Law σ} {w : BodyWriter}

/-- The types in the rows of an exception table are those of the handlers. -/
theorem type_of_handlers {rows : List (Nat × Nat × Nat × Option ClassEntry)}
    (given : w.handlers = .ok rows) : ∀ row ∈ rows, ∃ c ∈ w.catches, c.type = row.2.2.2 := by
  obtain ⟨all, resolved, kept⟩ := bind_eq_ok_iff.mp given
  obtain rfl := pure_eq_ok_iff.mp kept
  suffices typed : ∀ row ∈ all, ∃ c ∈ w.catches, c.type = row.2.2.2 from
    fun row member => typed row (List.mem_of_mem_filter member)
  refine (Yields.mapM fun c member => ?_ : Yields (fun _ => True) _ _).1 all resolved
  refine ⟨fun row found => ?_, fun _ _ => trivial⟩
  obtain ⟨start, -, found⟩ := bind_eq_ok_iff.mp found
  obtain ⟨stop, -, found⟩ := bind_eq_ok_iff.mp found
  obtain ⟨handler, -, found⟩ := bind_eq_ok_iff.mp found
  obtain ⟨-, found⟩ := guard_eq_ok_iff.mp found
  exact ⟨c, by simpa using member, congrArg (·.2.2.2) (pure_eq_ok_iff.mp found)⟩

/-- The exception table refers to the types of the handlers. -/
theorem tries_exceptionTable (given : ∀ c ∈ w.catches, l.Gives (ClassEntry.optional c.type)) :
    Tries l (w.exceptionTable : Emit σ Bytes) := by
  refine .given fun rows found => Emit.tries_counted fun row member => ?_
  obtain ⟨c, listed, same⟩ := type_of_handlers found row member
  exact .bind (Emit.tries_optionalClass (same ▸ given c listed)) fun _ => .pure _

/-- The table of line numbers refers to no constant but its name. -/
theorem tries_lineTable (w : BodyWriter) : Tries l (w.lineTable : Emit σ Bytes) :=
  .bind (Emit.tries_refText _) fun _ => .bind (Emit.tries_counted fun (_, _) _ => .pure _)
    fun _ => .bind (Emit.tries_sized _ _) fun _ => .pure _

/-- The scope of a variable refers to its name and its type. -/
theorem tries_scopeRow (w : BodyWriter) {s : LocalScope} (given : l.Gives s.mentions) :
    Tries l (w.scopeRow s : Emit σ Bytes) := by
  obtain ⟨named, typed⟩ := gives_append.mp given
  refine .bind (.liftM _) fun start => .bind (.liftM _) fun stop => ?_
  have row : Tries l (do
      let name ← Emit.refUtf8 s.name
      let type ← Emit.refUtf8 s.type
      return u2 start ++ u2 (stop - start) ++ name ++ type ++ u2 s.slot : Emit σ Bytes) :=
    .bind (Emit.tries_refUtf8 named) fun _ => .bind (Emit.tries_refUtf8 typed) fun _ => .pure _
  split
  · exact .bind (.throw _) fun _ => row
  · exact row

/-- A table of scopes refers to what its scopes refer to. -/
theorem tries_scopeTable (w : BodyWriter) (name : Text) {scopes : Array LocalScope}
    (given : l.Gives (scopes.toList.flatMap LocalScope.mentions)) :
    Tries l (w.scopeTable name scopes : Emit σ Bytes) :=
  .bind (Emit.tries_refText _) fun _ =>
    .bind (Emit.tries_counted fun s member => tries_scopeRow w (gives_flatMap.mp given s member))
      fun _ => .bind (Emit.tries_sized _ _) fun _ => .pure _

/-- A table that is left out when it is empty refers to no more than if it were not. -/
theorem tries_unlessEmpty {α : Type} (rows : Array α) {table : Emit σ Bytes}
    (tries : Tries l table) : Tries l (unlessEmpty rows table) := by
  rw [unlessEmpty]
  split
  · exact .pure _
  · exact tries

/-- The attributes of a body refer to the constants that the body mentions. -/
theorem tries_attributeTable (given : l.Gives w.mentions) :
    Tries l (w.attributeTable : Emit σ Bytes) := by
  rw [mentions, gives_append, gives_append, gives_append] at given
  obtain ⟨⟨⟨-, scopes⟩, typeScopes⟩, contained⟩ := given
  have named : Emit.Named l (Emit.attributeItems (some w.offset) (fun _ => throw .outOfBounds) _) :=
    Emit.named_attributeItems_some (fun _ _ => .throw _) _ _ contained
  exact .bind (Emit.tries_count _) fun _ =>
    .bind (tries_unlessEmpty _ (tries_lineTable w)) fun _ =>
    .bind (tries_unlessEmpty _ (tries_scopeTable w _ scopes)) fun _ =>
    .bind (tries_unlessEmpty _ (tries_scopeTable w _ typeScopes)) fun _ =>
    .bind (Emit.tries_items named) fun _ => .pure _

/-- Finishing a body refers to the constants that it is yet to refer to. -/
theorem does_finish (declared : Option Nat) (stop : Option Label) (given : l.Gives w.mentions) :
    l.Does (w.finish declared stop : Build σ (Except Error Bytes)) := by
  have caught : ∀ c ∈ w.catches, l.Gives (ClassEntry.optional c.type) := by
    simp only [mentions, gives_append, gives_flatMap] at given
    exact fun c member => given.1.1.1 c (by simpa using member)
  refine l.bind l.error? fun failed => ?_
  cases failed with
  | some e => exact l.pure _
  | none =>
      dsimp only
      split
      · exact l.pure _
      split
      · exact l.pure _
      -- Where the end is bound makes no difference to what is mentioned.
      refine l.bind l.options fun options => Emit.does_finish <|
        .bind (.liftM _) fun _ => .bind (.liftM _) fun _ =>
        .bind (tries_exceptionTable ?_) fun _ => .bind (tries_attributeTable ?_) fun _ => .pure _
      · cases stop with
        | none => exact caught
        | some stop => dsimp only; split <;> exact caught
      · cases stop with
        | none => exact given
        | some stop => dsimp only; split <;> exact given

end BodyWriter

/-! ## Walks and drafts -/

open Drafting (Calls Manner calling)

variable {σ δ ε α : Type}

/-- A manner of acting on a draft, with the elements that may be handed to it. -/
structure Draft.Manner (σ δ ε : Type) [Draft δ ε] extends Drafting.Manner σ δ where
  May : ε → Prop
  accept : ∀ e, May e → Does (Draft.accept e : Drafting σ δ Unit)

section Walks

variable [Draft δ ε] {m : Draft.Manner σ δ ε}

/-- An outlet that acts in a manner on the elements that it may be given. -/
def Outlet.Within (m : Draft.Manner σ δ ε) : Outlet σ δ ε → Prop
  | .terminal => True
  | .stage consume => ∀ e, m.May e → m.Tries (consume e)

/-- A transform that acts in a manner on the elements that it may be given. -/
def Transform.Within (m : Draft.Manner σ δ ε) : Transform σ δ ε → Prop
  | .leaf accept atEnd =>
    (∀ o : Outlet σ δ ε, o.Within m → ∀ e, m.May e → m.Tries (accept o e)) ∧
      ∀ o : Outlet σ δ ε, o.Within m → m.Tries (atEnd o)
  | .chain first second => first.Within m ∧ second.Within m
  | .fresh make _ => ∀ user, (make user).Within m

/-- A bound transform that acts in a manner. -/
structure Transform.Stage.Within (m : Draft.Manner σ δ ε) (s : Stage σ δ ε) : Prop where
  accept : ∀ e, m.May e → m.Tries (s.accept e)
  atEnd : m.Tries s.atEnd

namespace Outlet

/-- Noting that an outcome was an error belongs to every manner. -/
theorem does_failOn (outcome : Except Error Unit) :
    m.Does (Drafting.session (Build.failOn outcome)) := m.session (Build.calls_failOn outcome)

/-- Finding out whether an outlet has stopped belongs to every manner. -/
theorem does_stopped? (o : Outlet σ δ ε) : m.Does o.stopped? := by
  cases o with
  | terminal =>
      refine m.bind m.look fun d => ?_
      exact Manner.ite (m.session Build.calls_sessionError?) (m.session Build.calls_error?)
  | stage consume => exact m.session Build.calls_error?

/-- Emitting an element that there may be is done in the manner of the outlet, if the element may be
handed on. -/
theorem Within.does_emit? {o : Outlet σ δ ε} (within : o.Within m) {e : Option ε}
    (may : ∀ x, e = some x → m.May x) : m.Does (o.emit? e) := by
  refine m.bind o.does_stopped? fun stopped => ?_
  split
  · exact m.pure _
  · cases e with
    | none => exact m.session (.fail _)
    | some e =>
        cases o with
        | terminal => exact m.accept e (may e rfl)
        | stage consume => exact m.bind (within e (may e rfl)) fun outcome => does_failOn outcome

/-- Emitting an element is done in the manner of the outlet, if the element may be handed on. -/
theorem Within.does_emit {o : Outlet σ δ ε} (within : o.Within m) {e : ε} (may : m.May e) :
    m.Does (o.emit e) := within.does_emit? fun _ same => Option.some.inj same ▸ may

end Outlet

namespace Transform

/-- What is done with a bound transform. -/
theorem Within.does_bind {t : Transform σ δ ε} (within : t.Within m) {o : Outlet σ δ ε}
    (outlet : o.Within m) {next : Stage σ δ ε → Drafting σ δ α}
    (does : ∀ s : Stage σ δ ε, s.Within m → m.Does (next s)) : m.Does (t.bind o >>= next) := by
  induction t generalizing o next with
  | leaf accept atEnd =>
      rw [Transform.bind, pure_bind]
      exact does _ ⟨within.1 o outlet, within.2 o outlet⟩
  | chain first second forFirst forSecond =>
      rw [Transform.bind, bind_assoc]
      refine forSecond within.2 outlet fun second' stage => ?_
      rw [bind_assoc]
      refine forFirst within.1 (o := .stage second'.accept) stage.accept fun first' stage' => ?_
      rw [pure_bind]
      exact does _ ⟨stage'.accept, .bind stage'.atEnd fun _ => stage.atEnd⟩
  | fresh make prepare inductionHypothesis =>
      rw [Transform.bind, bind_assoc]
      refine m.bind (m.session .look) fun s => ?_
      rw [bind_assoc]
      exact m.bind (m.session (.onUser _)) fun _ => inductionHypothesis _ (within _) outlet does

/-- What is tried with the stage of a transform is tried with the transform bound to an outlet. -/
theorem Within.tries_bind {t : Transform σ δ ε} (within : t.Within m) {o : Outlet σ δ ε}
    (outlet : o.Within m) {next : Stage σ δ ε → ExceptT Error (Drafting σ δ) α}
    (tries : ∀ s : Stage σ δ ε, s.Within m → m.Tries (next s)) :
    m.Tries (ExceptT.lift (t.bind o) >>= next) := within.does_bind outlet tries

/-- Feeding elements one after another stays within a manner, if accepting each does. -/
theorem tries_feed {accept : ε → ExceptT Error (Drafting σ δ) Unit} {elements : List ε}
    (may : ∀ e ∈ elements, m.May e) (tries : ∀ e, m.May e → m.Tries (accept e)) :
    m.Tries (feed accept elements) := by
  induction elements with
  | nil => exact .pure _
  | cons e rest inductionHypothesis =>
      exact .bind (tries e (may e (List.mem_cons_self ..))) fun _ => .bind .settle fun _ =>
        inductionHypothesis fun e member => may e (List.mem_cons_of_mem _ member)

/-- A walk through a transform. -/
theorem tries_run {source : Traversal ε} (may : ∀ e ∈ source.elements, m.May e)
    {t : Option (Transform σ δ ε)} (within : ∀ t', t = some t' → t'.Within m) {o : Outlet σ δ ε}
    (outlet : o.Within m) : m.Tries (run source t o) := by
  cases t with
  | none => exact .throw _
  | some t =>
      refine (within t rfl).tries_bind outlet fun s stage => ?_
      have ends : m.Tries (do s.atEnd; settle) := .bind stage.atEnd fun _ => .settle
      refine Manner.Tries.bind (tries_feed may stage.accept) fun _ => ?_
      cases source.failure with
      | none => exact ends
      | some e => exact .bind (.throw e) fun _ => ends

/-- A transform that only lets elements pass acts in every manner that its end does. -/
theorem within_passing (drop : ε → Bool)
    {atEnd : Outlet σ δ ε → ExceptT Error (Drafting σ δ) Unit}
    (ends : ∀ o : Outlet σ δ ε, o.Within m → m.Tries (atEnd o)) :
    (passing drop atEnd).Within m := by
  refine ⟨fun o outlet e may => ?_, ends⟩
  change m.Tries (if drop e then Pure.pure () else ExceptT.lift (o.emit e))
  exact .ite (.pure _) (.lift (outlet.does_emit may))

/-- Passing everything on acts in every manner. -/
theorem within_pass : (pass : Transform σ δ ε).Within m := within_passing _ fun _ _ => .pure _

/-- Leaving some elements out acts in every manner. -/
theorem within_dropping (drop : ε → Bool) : (dropping drop : Transform σ δ ε).Within m :=
  within_passing _ fun _ _ => .pure _

/-- Where there is no transform, nothing acts outside any manner. -/
theorem within_absent : (absent : Transform σ δ ε).Within m :=
  ⟨fun _ _ _ _ => .throw _, fun _ _ => .throw _⟩

end Transform

end Walks

namespace CodeDraft

variable {l : Build.Law σ}

/-- What becomes of an element that a body accepts which is written at once. -/
theorem accept_writing {d : CodeDraft} {w : BodyWriter} (writes : d.target = .writing w)
    (e : CodeElement) (s : Session σ) : (Draft.accept e : CodeM σ Unit) d s =
      match (w.put s.options e).run s.pool with
      | (.ok w', q) => (((), { d with target := .writing w' }), { s with pool := q })
      | (.error e', q) => (((), { d with target := .writing default }),
        { s with
          pool := q
          error := some (Error.first (s.error <|> q.error.bind Error.abort?) e') }) := by
  obtain ⟨source, parent, frame, start, stop, _⟩ := d
  obtain rfl : _ = CodeTarget.writing w := writes
  have accepted (d : CodeDraft) : (Draft.accept e : CodeM σ Unit) d s =
      ((take e d (s.withUser ())).1, (take e d (s.withUser ())).2.withUser s.user) := rfl
  have opened : Build.interning (w.put s.options e).run (s.withUser ()) =
      (((w.put s.options e).run s.pool).1,
        { s.withUser () with pool := ((w.put s.options e).run s.pool).2 }) := rfl
  have same : (s.withUser ()).options = s.options := rfl
  rw [accepted]
  simp only [take, same, opened]
  rcases (w.put s.options e).run s.pool with ⟨_ | _, q⟩ <;> rfl

/-- Taking an element of a body obeys a law that its constants may be referred to in. -/
theorem does_take {e : CodeElement} (given : l.Gives e.mentions) (d : CodeDraft) :
    l.Does ((take e : CodeM σ Unit) d) := by
  rcases d with ⟨source, parent, frame, start, stop, target⟩
  cases target with
  | collecting elements => exact l.pure _
  | writing w =>
      let done (w : BodyWriter) : CodeDraft :=
        { source, parent, frame, start, stop, target := .writing w }
      let next : Except Error BodyWriter → Build σ (Unit × CodeDraft)
        | .ok w => return ((), done w)
        | .error e => do
          Build.fail e
          return ((), done default)
      have steps : (take e : CodeM σ Unit) (done w) =
          Build.options >>= fun options => Build.interning (w.put options e).run >>= next := by
        funext s
        change _ = (Build.interning (w.put s.options e).run >>= next) s
        rw [bind_apply]
        rcases ran : Build.interning (w.put s.options e).run s with ⟨_ | _, s'⟩ <;>
          simp only [take, done, ran] <;> rfl
      rw [steps]
      refine l.bind l.options fun options =>
        l.bind (l.interning (BodyWriter.attempts_put _ given _)) fun outcome => ?_
      cases outcome with
      | ok w => exact l.pure _
      | error e => exact l.bind (l.fail e) fun _ => l.pure _

/-- Taking an element of a body makes calls. -/
theorem calls_take (e : CodeElement) : Calls (take e : CodeM σ Unit) :=
  does_take (l := .calls σ) fun _ _ => trivial

/-- Acting on a body. -/
def manner (σ : Type) : Draft.Manner σ CodeDraft CodeElement where
  toManner := calling σ CodeDraft
  May _ := True
  accept e _ := .accept (calls_take e)

/-- Finishing a body obeys a law that its constants may be referred to in. -/
theorem does_finish {d : CodeDraft} (given : l.Gives d.mentions) :
    l.Does (d.finish : Build σ (Except Error Bytes)) := by
  rcases d with ⟨source, parent, frame, start, stop, target⟩
  cases target with
  | writing w => exact BodyWriter.does_finish _ _ given
  | collecting elements => exact l.pure _

/-- Finishing a body makes calls. -/
theorem calls_finish (d : CodeDraft) : Build.Calls (d.finish : Build σ (Except Error Bytes)) :=
  does_finish (l := .calls σ) fun _ _ => trivial

/-- Encoding a body from another one makes calls. -/
theorem calls_encode (static : Bool) (descriptor : MethodDescriptor) (source : CodeModel) :
    Build.Calls (encode static descriptor source : Build σ (Except Error Bytes)) := by
  have copies : (manner σ).Tries (Transform.run source.traversal (some .pass) .terminal) :=
    Transform.tries_run (fun _ _ => trivial)
      (fun _ same => Option.some.inj same ▸ Transform.within_pass) trivial
  refine .bind (copies _) fun (outcome, d) => ?_
  cases outcome with
  | error e => exact .pure _
  | ok => exact calls_finish d

end CodeDraft

namespace FieldDraft

/-- Acting on a field. -/
def manner (σ : Type) : Draft.Manner σ FieldDraft FieldElement where
  toManner := calling σ FieldDraft
  May _ := True
  accept e _ := .accept <| by cases e <;> exact Calls.modify _

end FieldDraft

namespace MethodDraft

/-- Adding the bytes of a body to a method makes calls. -/
theorem calls_addEncoded (outcome : Except Error Bytes) :
    Calls (addEncoded outcome : MethodM σ Unit) := by
  cases outcome with
  | ok body => exact .modify _
  | error e => exact .fail e

/-- Taking a body that was built makes calls. -/
theorem calls_takeCode (c : BuiltCode) : Calls (takeCode c : MethodM σ Unit) := by
  refine .bind .get fun d => ?_
  split
  · split
    · exact .fail _
    · exact .bind (.session (CodeDraft.calls_encode _ _ _)) fun outcome => calls_addEncoded outcome
  · exact .modify _

/-- Acting on a method. -/
def manner (σ : Type) : Draft.Manner σ MethodDraft MethodElement where
  toManner := calling σ MethodDraft
  May _ := True
  accept e _ := .accept <| by
    cases e with
    | flags f => exact Calls.modify _
    | code c => exact calls_takeCode c
    | «attribute» a => exact Calls.modify _

/-- Bodies of an input are encoded by a law. -/
def Encodes (l : Build.Law σ) : Prop :=
  ∀ (static : Bool) (descriptor : MethodDescriptor) (c : InputCode),
    l.Gives (CodeModel.input c).mentions → l.Does (CodeDraft.encode static descriptor (.input c))

/-- Bodies of an input are encoded by making calls. -/
theorem encodes_calls : Encodes (.calls σ) := fun _ _ _ _ => CodeDraft.calls_encode _ _ _

/-- Encoding a body of an input obeys every law that bodies are encoded by. -/
theorem tries_encodeInput {l : Build.Law σ} (encodes : Encodes l) {c : InputCode}
    (given : l.Gives (CodeModel.input c).mentions) : Emit.Tries l (encodeInput c) :=
  .bind (.liftM _) fun _ => .bind (.session (encodes _ _ c given)) fun _ => .liftM _

end MethodDraft

end JvmClass
