import JvmClass.Build.Follower
import JvmClass.Proofs.Build.Callers

/-!
# What the library offers to callers

Every convenience of the builders is put together from calls, emitted elements and members that
were filled in, so a transform that goes through them acts on a class in the manner of a caller.
The transforms of the library do.
-/

namespace JvmClass

open Drafting (Calls)

variable {σ τ δ ε α : Type} {i : Input}

/-! ## Bodies -/

namespace CodeM

theorem calls_newLabel : Calls (newLabel : CodeM σ Label) := .session .freshLabel

/-- Asking for the label of the start is a call. -/
theorem calls_startLabel : Calls (startLabel : CodeM σ Label) := by
  refine .bind .get fun d => ?_
  split
  · exact .pure _
  · exact .bind calls_newLabel fun l => .bind (.modify _) fun _ => .pure _

/-- Asking for the label of the end is a call. -/
theorem calls_endLabel : Calls (endLabel : CodeM σ Label) := by
  refine .bind .get fun d => ?_
  split
  · exact .pure _
  · exact .bind calls_newLabel fun l => .bind (.modify _) fun _ => .pure _

/-- A slot is handed out, or the reason why there is none is noted. -/
theorem calls_slotOr (outcome : Except Error Int) : Calls (slotOr outcome : CodeM σ Int) := by
  cases outcome with
  | ok slot => exact .pure _
  | error e => exact .bind (.fail e) fun _ => .pure _

theorem calls_receiverSlot : Calls (receiverSlot : CodeM σ Int) :=
  .bind .get fun _ => calls_slotOr _

theorem calls_parameterSlot (n : Int) : Calls (parameterSlot n : CodeM σ Int) :=
  .bind .get fun _ => calls_slotOr _

/-- Allocating a slot is a call. -/
theorem calls_allocateLocal (k : Kind) : Calls (allocateLocal k : CodeM σ Int) := by
  refine .bind .get fun d => ?_
  split
  · exact calls_slotOr _
  · exact .bind (.modify _) fun _ => .pure _

theorem calls_misuse (m : Misuse) : Calls (misuse m : CodeM σ Unit) := .fail _

end CodeM

namespace CodeOutlet

variable {o : CodeOutlet σ} (outlet : o.Within (CodeDraft.manner σ))
include outlet

theorem calls_emit (e : CodeElement) : Calls (o.emit e) := outlet.does_emit trivial

/-- Replaying a body through a transform makes calls if the transform does. -/
theorem calls_replay (source : CodeModel) {t : Option (CodeTransform σ)}
    (within : ∀ t', t = some t' → t'.Within (CodeDraft.manner σ)) : Calls (o.replay source t) := by
  refine .bind (.session Build.calls_error?) fun failed => ?_
  split
  · exact .pure _
  · exact .bind (Transform.tries_run (m := CodeDraft.manner σ) (fun _ _ => trivial) within outlet)
      fun outcome => .session (Build.calls_failOn outcome)

/-- Loading a local makes calls, or notes that there is no such instruction. -/
theorem calls_load (k : Kind) (slot : Int) : Calls (load o k slot) := by
  rw [load]
  split
  · exact CodeM.calls_misuse _
  · exact calls_emit outlet _

/-- Storing a local makes calls, or notes that there is no such instruction. -/
theorem calls_store (k : Kind) (slot : Int) : Calls (store o k slot) := by
  rw [store]
  split
  · exact CodeM.calls_misuse _
  · exact calls_emit outlet _

/-- Branching makes calls, or notes that the opcode does not branch. -/
theorem calls_branch (op : Opcode) (target : Option Label) : Calls (branch o op target) := by
  rw [branch]
  split
  · exact calls_emit outlet _
  · exact CodeM.calls_misuse _

/-- Returning makes calls, or notes that there is no such instruction. -/
theorem calls_return (k : Kind) : Calls (return_ o k) := by
  unfold return_
  split
  · exact CodeM.calls_misuse _
  · exact calls_emit outlet _

/-- An instruction without operands makes calls, or notes that the opcode needs some. -/
theorem calls_plain (op : Opcode) : Calls (plain o op) := by
  unfold plain
  split
  · exact CodeM.calls_misuse _
  · exact calls_emit outlet _

/-- Accessing a field makes calls, or notes that the opcode does not. -/
theorem calls_field (op : Opcode) (owner : ClassEntry) (name type : Text) :
    Calls (field o op owner name type) := by
  rw [field]
  split
  · exact CodeM.calls_misuse _
  · exact .bind (.session (.interning (.member _ _ _ _))) fun _ => calls_emit outlet _

/-- Calling a method makes calls, or notes that the opcode does not. -/
theorem calls_invoke (op : Opcode) (owner : ClassEntry) (name type : Text) (ofInterface : Bool) :
    Calls (invoke o op owner name type ofInterface) := by
  rw [invoke]
  split
  · exact CodeM.calls_misuse _
  · exact .bind (.session (.interning (.member _ _ _ _))) fun _ => calls_emit outlet _

/-- Making an array of primitives makes calls, or notes that there are none of the kind. -/
theorem calls_newPrimitiveArray (k : Kind) : Calls (newPrimitiveArray o k) := by
  rw [newPrimitiveArray]
  split
  · exact calls_emit outlet _
  · exact CodeM.calls_misuse _

/-- Making an array of several dimensions makes calls, or notes that there are none of so many. -/
theorem calls_newMultiArray (type : Option ClassEntry) (dimensions : Int) :
    Calls (newMultiArray o type dimensions) := by
  rw [newMultiArray]
  split
  · exact CodeM.calls_misuse _
  · exact calls_emit outlet _

/-- Loading a constant makes calls. -/
theorem calls_constant (e : Option Loadable) : Calls (constant o e) := by
  cases e with
  | none => exact CodeM.calls_misuse _
  | some e => exact calls_emit outlet _

/-- Loading an int makes calls, whether it takes a constant or has a form of its own. -/
theorem calls_constantInt (v : Int) : Calls (constantInt o v) := by
  rw [constantInt]
  split
  · exact calls_emit outlet _
  split
  · exact calls_emit outlet _
  split
  · exact calls_emit outlet _
  · exact .bind (.session (.interning (.integer _))) fun _ => calls_constant outlet _

/-- Loading a string makes calls. -/
theorem calls_constantString (text : Text) : Calls (constantString o text) :=
  .bind (.session (.interning (.string _))) fun _ => calls_constant outlet _

/-- Naming a local makes calls. -/
theorem calls_localVariable (slot : Int) (name type : Text) (start stop : Option Label) :
    Calls (localVariable o slot name type start stop) :=
  .bind (.session (.interning (.utf8 _))) fun _ => .bind (.session (.interning (.utf8 _))) fun _ =>
    calls_emit outlet _

end CodeOutlet

/-! ## Transforms in general -/

namespace Transform

variable [Draft δ ε] {m : Draft.Manner σ δ ε}

/-- A transform that accepts elements in a manner acts in it. -/
theorem within_ofAccept {accept : Outlet σ δ ε → ε → ExceptT Error (Drafting σ δ) Unit}
    (tries : ∀ o : Outlet σ δ ε, o.Within m → ∀ e, m.May e → m.Tries (accept o e)) :
    (ofAccept accept).Within m := ⟨tries, fun _ _ => .pure _⟩

/-- A transform that does something at the end in a manner acts in it. -/
theorem within_endHandler {atEnd : Outlet σ δ ε → ExceptT Error (Drafting σ δ) Unit}
    (ends : ∀ o : Outlet σ δ ε, o.Within m → m.Tries (atEnd o)) : (endHandler atEnd).Within m :=
  within_passing _ ends

/-- A transform that there may be acts in the manner of the one that there is. -/
theorem within_getD {t : Option (Transform σ δ ε)} (within : ∀ t', t = some t' → t'.Within m) :
    (t.getD absent).Within m := by
  cases t with
  | none => exact within_absent
  | some t => exact within t rfl

/-- A transform that is made anew for each walk acts in the manner of those that are made. -/
theorem within_stateful {make : StateM σ (Option (Transform σ δ ε))}
    (within : ∀ user t, (make user).1 = some t → t.Within m) : (stateful make).Within m :=
  fun user => within_getD (within user)

/-- A chain after a first transform acts in the manner of its transforms. -/
theorem within_chainAfter {t : Option (Transform σ δ ε)} {ts : List (Option (Transform σ δ ε))}
    (first : ∀ t', t = some t' → t'.Within m) (others : ∀ t', some t' ∈ ts → t'.Within m) :
    ∀ t', chainAfter t ts = some t' → t'.Within m := by
  induction ts generalizing t with
  | nil => exact first
  | cons next rest inductionHypothesis =>
      refine inductionHypothesis (fun t' same => ?_) fun t' member =>
        others t' (List.mem_cons_of_mem _ member)
      obtain rfl := Option.some.inj same
      exact ⟨within_getD first, within_getD fun t' same => others t' (same ▸ List.mem_cons_self ..)⟩

/-- A chain acts in the manner of its transforms. -/
theorem within_chainAll {ts : List (Option (Transform σ δ ε))}
    (each : ∀ t', some t' ∈ ts → t'.Within m) : ∀ t', chainAll ts = some t' → t'.Within m := by
  cases ts with
  | nil => exact nofun
  | cons t rest =>
      exact within_chainAfter (fun t' same => each t' (same ▸ List.mem_cons_self ..))
        fun t' member =>
        each t' (List.mem_cons_of_mem _ member)

end Transform

/-! ## Members -/

/-- Replaying a field through a transform makes calls if the transform does. -/
theorem FieldOutlet.calls_replay {o : FieldOutlet σ} (outlet : o.Within (FieldDraft.manner σ))
    (source : FieldModel) {t : Option (FieldTransform σ)}
    (within : ∀ t', t = some t' → t'.Within (FieldDraft.manner σ)) : Calls (o.replay source t) := by
  refine .bind (.session Build.calls_error?) fun failed => ?_
  split
  · exact .pure _
  · exact .bind (Transform.tries_run (m := FieldDraft.manner σ) (fun _ _ => trivial) within outlet)
      fun outcome => .session (Build.calls_failOn outcome)

namespace MethodOutlet

variable {o : MethodOutlet σ} (outlet : o.Within (MethodDraft.manner σ))
include outlet

theorem calls_emit (e : MethodElement) : Calls (o.emit e) := outlet.does_emit trivial

/-- Filling in a body makes calls if that does, whether it ends up as bytes or is passed on. -/
theorem calls_withCode (source : Option CodeModel)
    {fill : CodeDraft → Build σ (Except Error Unit × CodeDraft)}
    (calls : ∀ d, Build.Calls (fill d)) : Calls (o.withCode source fill) := by
  refine .bind (.session Build.calls_error?) fun failed => ?_
  split
  · exact .pure _
  refine .bind .get fun d => ?_
  split
  · exact .fail _
  split
  · refine .bind (.session (calls _)) fun (outcome, code) => ?_
    cases outcome with
    | error e => exact .fail e
    | ok => exact calls_emit outlet _
  · refine .bind (.session (calls _)) fun (outcome, code) => ?_
    cases outcome with
    | error e => exact .fail e
    | ok =>
        exact .bind (.session code.calls_finish) fun bytes => MethodDraft.calls_addEncoded bytes

/-- A body that is filled in by calls makes calls. -/
theorem calls_code {handler : CodeOutlet σ → ExceptT Error (CodeM σ) Unit}
    (calls : Calls (handler .terminal).run) : Calls (o.code handler) :=
  calls_withCode outlet none calls

/-- Transforming a body makes calls if the transform does. -/
theorem calls_transformCode (source : CodeModel) {t : Option (CodeTransform σ)}
    (within : ∀ t', t = some t' → t'.Within (CodeDraft.manner σ)) :
    Calls (o.transformCode source t) :=
  calls_withCode outlet _
    (Transform.tries_run (m := CodeDraft.manner σ) (fun _ _ => trivial) within trivial)

/-- Transforming a body beside a state of its own makes calls if the transform does. -/
theorem calls_transformCodeWith (source : CodeModel) (own : τ) {t : CodeTransform (σ × τ)}
    (within : t.Within (CodeDraft.manner (σ × τ))) : Calls (o.transformCodeWith source own t) := by
  have ran : (CodeDraft.manner (σ × τ)).Tries (Transform.run source.traversal (some t) .terminal) :=
    Transform.tries_run (fun _ _ => trivial) (fun _ same => Option.some.inj same ▸ within) trivial
  exact calls_withCode outlet _ fun d => .bind (.beside own (ran d)) fun _ => .pure _

/-- Replaying a method through a transform makes calls if the transform does. -/
theorem calls_replay (source : MethodModel) {t : Option (MethodTransform σ)}
    (within : ∀ t', t = some t' → t'.Within (MethodDraft.manner σ)) :
      Calls (o.replay source t) := by
  refine .bind (.session Build.calls_error?) fun failed => ?_
  split
  · exact .pure _
  · exact .bind (Transform.tries_run (m := MethodDraft.manner σ) (fun _ _ => trivial) within outlet)
      fun outcome => .session (Build.calls_failOn outcome)

end MethodOutlet

/-- Transforming the body of every method makes calls if the transform does. -/
theorem MethodTransform.within_code {t : Option (CodeTransform σ)}
    (within : ∀ t', t = some t' → t'.Within (CodeDraft.manner σ)) :
    (MethodTransform.code t).Within (MethodDraft.manner σ) :=
  Transform.within_ofAccept fun o outlet e _ => .lift <| by
    cases e.code? with
    | none => exact MethodOutlet.calls_emit outlet e
    | some c => exact MethodOutlet.calls_transformCode outlet c within

/-! ## Classes -/

namespace ClassOutlet

open ClassDraft (Acts manner)

variable {o : ClassOutlet σ} (outlet : o.Within (manner σ i))

/-- What acts on a class acts on it where nothing has failed. -/
theorem acts_unlessFailed {act : ClassM σ Unit} (acts : Acts i act) : Acts i (unlessFailed act) :=
  .bind (.session Build.calls_error?) fun _ => (manner σ i).ite (.pure _) acts

include outlet

/-- Filling in a field acts on a class if it makes calls. -/
theorem acts_withField (d : FieldDraft) {fill : ExceptT Error (FieldM σ) Unit}
    (calls : Calls fill.run) : Acts i (o.withField d fill) := by
  refine .bind (.session (calls d)) fun (outcome, filled) => ?_
  cases outcome with
  | error e => exact .session (.fail e)
  | ok => exact (manner σ i).ite (.field filled) (outlet.does_emit trivial)

/-- Filling in a method acts on a class if it makes calls. -/
theorem acts_withMethod (d : MethodDraft) {fill : ExceptT Error (MethodM σ) Unit}
    (calls : Calls fill.run) : Acts i (o.withMethod d fill) := by
  refine .bind (.session (calls d)) fun (outcome, filled) => ?_
  cases outcome with
  | error e => exact .session (.fail e)
  | ok => exact (manner σ i).ite (.method filled) (outlet.does_emit trivial)

/-- A field that is filled in by calls acts on a class. -/
theorem acts_field (name descriptor : Text) (flags : AccessFlags)
    {handler : FieldOutlet σ → ExceptT Error (FieldM σ) Unit}
    (calls : Calls (handler .terminal).run) : Acts i (o.field name descriptor flags handler) :=
  acts_unlessFailed <| .bind (.session (.interning (.utf8 _))) fun _ =>
    .bind (.session (.interning (.utf8 _))) fun _ => acts_withField outlet _ calls

/-- A method that is filled in by calls acts on a class. -/
theorem acts_method (name descriptor : Text) (flags : AccessFlags)
    {handler : MethodOutlet σ → ExceptT Error (MethodM σ) Unit}
    (calls : Calls (handler .terminal).run) : Acts i (o.method name descriptor flags handler) :=
  acts_unlessFailed <| .bind (.session (.interning (.utf8 _))) fun _ =>
    .bind (.session (.interning (.utf8 _))) fun _ => acts_withMethod outlet _ calls

/-- Transforming a field acts on a class if the transform makes calls. -/
theorem acts_transformField (f : FieldModel) {t : Option (FieldTransform σ)}
    (within : ∀ t', t = some t' → t'.Within (FieldDraft.manner σ)) :
    Acts i (o.transformField f t) :=
  acts_unlessFailed <| acts_withField outlet _ <|
    Transform.tries_run (m := FieldDraft.manner σ) (fun _ _ => trivial) within trivial

/-- Transforming a method acts on a class if the transform makes calls. -/
theorem acts_transformMethod (m : MethodModel) {t : Option (MethodTransform σ)}
    (within : ∀ t', t = some t' → t'.Within (MethodDraft.manner σ)) :
    Acts i (o.transformMethod m t) :=
  acts_unlessFailed <| acts_withMethod outlet _ <|
    Transform.tries_run (m := MethodDraft.manner σ) (fun _ _ => trivial) within trivial

/-- Replaying a class acts on a class if the transform does, and members of the input lie there. -/
theorem acts_replay (c : ClassFile) (genuine : ∀ e ∈ c.traversal.elements, e.Genuine i)
    {t : Option (ClassTransform σ)} (within : ∀ t', t = some t' → t'.Within (manner σ i)) :
    Acts i (o.replay c t) :=
  acts_unlessFailed <| .bind (Transform.tries_run (m := manner σ i) genuine within outlet)
    fun outcome => .session (Build.calls_failOn outcome)

end ClassOutlet

namespace ClassTransform

open ClassDraft (manner)

/-- Transforming some methods acts on a class if the transform makes calls. -/
theorem within_methods (which : MethodModel → Bool) {t : Option (MethodTransform σ)}
    (within : ∀ t', t = some t' → t'.Within (MethodDraft.manner σ)) :
    (methods which t).Within (manner σ i) :=
  Transform.within_ofAccept fun o outlet e genuine => .lift <| by
    cases e with
    | method m =>
        exact (manner σ i).ite (ClassOutlet.acts_transformMethod outlet m within)
          (outlet.does_emit genuine)
    | _ => exact outlet.does_emit genuine

/-- Transforming some fields acts on a class if the transform makes calls. -/
theorem within_fields (which : FieldModel → Bool) {t : Option (FieldTransform σ)}
    (within : ∀ t', t = some t' → t'.Within (FieldDraft.manner σ)) :
    (fields which t).Within (manner σ i) :=
  Transform.within_ofAccept fun o outlet e genuine => .lift <| by
    cases e with
    | field f =>
        exact (manner σ i).ite (ClassOutlet.acts_transformField outlet f within)
          (outlet.does_emit genuine)
    | _ => exact outlet.does_emit genuine

/-- Transforming some bodies acts on a class if the transform makes calls. -/
theorem within_bodies (which : MethodModel → Bool) {t : Option (CodeTransform σ)}
    (within : ∀ t', t = some t' → t'.Within (CodeDraft.manner σ)) :
    (bodies which t).Within (manner σ i) :=
  within_methods which fun _ same => Option.some.inj same ▸ MethodTransform.within_code within

end ClassTransform

/-! ## Transforms with a state -/

namespace Held

variable {m : Drafting.Manner σ δ} (h : Held σ α)

/-- Looking at what a caller keeps belongs to every manner. -/
theorem tries_read : m.Tries (h.read : ExceptT Error (Drafting σ δ) α) :=
  .bind (.lift (m.session .look)) fun _ => .pure _

/-- Changing what a caller keeps belongs to every manner. -/
theorem tries_write (a : α) : m.Tries (h.write a : ExceptT Error (Drafting σ δ) Unit) :=
  .lift (m.session (.onUser _))

end Held

/-- Tracking the stack acts on a body. -/
theorem StackTracker.within_transform (h : Held σ StackTracker) :
    (transform h).Within (CodeDraft.manner σ) :=
  Transform.within_ofAccept fun _ outlet _ _ =>
    .bind (.lift (outlet.does_emit trivial)) fun _ => .bind h.tries_read fun _ =>
      .bind (.liftM _) fun _ => h.tries_write _

namespace LocalsShifter

variable (h : Held σ LocalsShifter)

/-- Asking for the slot that a use moves to acts on a body, as it allocates at most one. -/
theorem tries_shift (slot : Int) (k : Kind) : (CodeDraft.manner σ).Tries (shift h slot k) := by
  unfold shift
  split
  · exact .throw _
  refine .bind h.tries_read fun s => ?_
  split
  · exact .pure _
  dsimp only
  split
  · exact .throw _
  split
  · exact .pure _
  · exact .bind (.lift (CodeM.calls_allocateLocal k)) fun new =>
      .bind (h.tries_write _) fun _ => .pure _

/-- Moving the scope of a variable acts on a body. -/
theorem tries_shiftScope (kind : Text → Kind) (s : LocalScope) :
    (CodeDraft.manner σ).Tries (shiftScope h kind s) := by
  unfold shiftScope
  cases s.type with
  | none => exact .throw _
  | some type => exact .bind (tries_shift h _ _) fun _ => .pure _

/-- Moving locals acts on a body. -/
theorem within_transform : (transform h).Within (CodeDraft.manner σ) := by
  refine Transform.within_ofAccept fun o outlet e _ => ?_
  unfold accept
  split
  · exact .bind (tries_shift h _ _) fun _ => .lift (CodeOutlet.calls_load outlet _ _)
  · exact .bind (tries_shift h _ _) fun _ => .lift (CodeOutlet.calls_store outlet _ _)
  · exact .bind (tries_shift h _ _) fun _ => .lift (outlet.does_emit trivial)
  · exact .bind (tries_shiftScope h _ _) fun _ => .lift (outlet.does_emit trivial)
  · exact .bind (tries_shiftScope h _ _) fun _ => .lift (outlet.does_emit trivial)
  · split
    · exact .pure _
    · exact .lift (outlet.does_emit trivial)
  · exact .lift (outlet.does_emit trivial)

end LocalsShifter

/-- Moving the locals of every body acts on a method. -/
theorem MethodTransform.within_shiftingLocals :
    (shiftingLocals : MethodTransform σ).Within (MethodDraft.manner σ) := by
  refine Transform.within_ofAccept fun o outlet e _ => ?_
  unfold shiftLocals
  cases e.code? with
  | none => exact .lift (MethodOutlet.calls_emit outlet e)
  | some c =>
      exact .bind (.lift (MethodDraft.manner σ).look) fun d => .bind (.liftM _) fun shifter =>
        .lift (MethodOutlet.calls_transformCodeWith outlet c shifter
          (LocalsShifter.within_transform .second))

/-! ## Everything that can be put together -/

/-- Actions that are put together from looking at what is under construction, from what any caller
of a session can do, and from the calls of a builder. -/
inductive Drafting.Composed (Call : (α : Type) → Drafting σ δ α → Prop) :
    {α : Type} → Drafting σ δ α → Prop
  | pure {α : Type} (a : α) : Composed Call (pure a)
  | bind {α β : Type} {x : Drafting σ δ α} {f : α → Drafting σ δ β} (first : Composed Call x)
      (next : ∀ a, Composed Call (f a)) : Composed Call (x >>= f)
  | look : Composed Call (get : Drafting σ δ δ)
  | session {α : Type} {act : Build σ α} (calls : Build.Calls act) :
      Composed Call (Drafting.session act)
  | call {α : Type} {act : Drafting σ δ α} (made : Call α act) : Composed Call act

/-- They are done in each manner that the calls are done in. -/
theorem Drafting.Composed.does {Call : (α : Type) → Drafting σ δ α → Prop} {m : Drafting.Manner σ δ}
    (each : ∀ {α : Type} {act : Drafting σ δ α}, Call α act → m.Does act) {act : Drafting σ δ α}
    (composed : Composed Call act) : m.Does act := by
  induction composed with
  | pure a => exact m.pure a
  | bind _ _ first next => exact m.bind first next
  | look => exact m.look
  | session calls => exact m.session calls
  | call made => exact each made

/-- Such an action is one of those that cannot fail. -/
theorem Drafting.Composed.lift {Call : (α : Type) → Drafting σ δ α → Prop}
    {act : Drafting σ δ α} (composed : Composed Call act) :
    Composed Call (ExceptT.lift act : ExceptT Error (Drafting σ δ) α).run :=
  show Composed Call (act >>= fun a => Pure.pure (Except.ok a : Except Error α)) from
    .bind composed fun a => .pure (Except.ok a)

/-- Transforms that are put together from such actions, and from ones that the library has for what
is under construction. -/
inductive Transform.Composed [Draft δ ε] (m : Draft.Manner σ δ ε)
    (Call : Outlet σ δ ε → (α : Type) → Drafting σ δ α → Prop) (Own : Transform σ δ ε → Prop) :
    Transform σ δ ε → Prop
  | own {t : Transform σ δ ε} (one : Own t) : Composed m Call Own t
  | pass : Composed m Call Own pass
  | dropping (drop : ε → Bool) : Composed m Call Own (dropping drop)
  | endHandler {atEnd : Outlet σ δ ε → ExceptT Error (Drafting σ δ) Unit}
      (ends : ∀ o, Drafting.Composed (Call o) (atEnd o).run) :
      Composed m Call Own (endHandler atEnd)
  | ofAccept {accept : Outlet σ δ ε → ε → ExceptT Error (Drafting σ δ) Unit}
      (accepts : ∀ o e, m.May e → Drafting.Composed (Call o) (accept o e).run) :
      Composed m Call Own (ofAccept accept)
  | stateful {make : StateM σ (Option (Transform σ δ ε))}
      (each : ∀ user t, (make user).1 = some t → Composed m Call Own t) :
      Composed m Call Own (stateful make)
  | chainAll {ts : List (Option (Transform σ δ ε))} {t : Transform σ δ ε}
      (each : ∀ t', some t' ∈ ts → Composed m Call Own t') (chained : chainAll ts = some t) :
      Composed m Call Own t

/-- They act in the manner in which the calls and the library's own are done. -/
theorem Transform.Composed.within [Draft δ ε] {m : Draft.Manner σ δ ε}
    {Call : Outlet σ δ ε → (α : Type) → Drafting σ δ α → Prop} {Own : Transform σ δ ε → Prop}
    (each : ∀ o : Outlet σ δ ε, o.Within m → ∀ {α : Type} {act : Drafting σ δ α}, Call o α act →
      m.Does act) (own : ∀ t, Own t → t.Within m) {t : Transform σ δ ε}
    (composed : Composed m Call Own t) : t.Within m := by
  induction composed with
  | own one => exact own _ one
  | pass => exact within_pass
  | dropping drop => exact within_dropping drop
  | endHandler ends => exact within_endHandler fun o outlet => (ends o).does (each o outlet)
  | ofAccept accepts =>
      exact within_ofAccept fun o outlet e may => (accepts o e may).does (each o outlet)
  | stateful _ inductionHypothesis => exact within_stateful inductionHypothesis
  | chainAll _ chained inductionHypothesis => exact within_chainAll inductionHypothesis _ chained

/-- The calls of a builder of a body. -/
inductive CodeOutlet.Call (o : CodeOutlet σ) : (α : Type) → CodeM σ α → Prop
  | newLabel : Call o _ CodeM.newLabel
  | startLabel : Call o _ CodeM.startLabel
  | endLabel : Call o _ CodeM.endLabel
  | receiverSlot : Call o _ CodeM.receiverSlot
  | parameterSlot (n : Int) : Call o _ (CodeM.parameterSlot n)
  | allocateLocal (k : Kind) : Call o _ (CodeM.allocateLocal k)
  | emit (e : CodeElement) : Call o _ (o.emit e)
  | replay (source : CodeModel) {t : Option (CodeTransform σ)}
      (within : ∀ t', t = some t' → t'.Within (CodeDraft.manner σ)) : Call o _ (o.replay source t)
  | load (k : Kind) (slot : Int) : Call o _ (load o k slot)
  | store (k : Kind) (slot : Int) : Call o _ (store o k slot)
  | branch (op : Opcode) (target : Option Label) : Call o _ (branch o op target)
  | return_ (k : Kind) : Call o _ (return_ o k)
  | plain (op : Opcode) : Call o _ (plain o op)
  | field (op : Opcode) (owner : ClassEntry) (name type : Text) :
      Call o _ (field o op owner name type)
  | invoke (op : Opcode) (owner : ClassEntry) (name type : Text) (ofInterface : Bool) :
      Call o _ (invoke o op owner name type ofInterface)
  | newPrimitiveArray (k : Kind) : Call o _ (newPrimitiveArray o k)
  | newMultiArray (type : Option ClassEntry) (dimensions : Int) :
      Call o _ (newMultiArray o type dimensions)
  | constant (e : Option Loadable) : Call o _ (constant o e)
  | constantInt (v : Int) : Call o _ (constantInt o v)
  | constantString (text : Text) : Call o _ (constantString o text)
  | localVariable (slot : Int) (name type : Text) (start stop : Option Label) :
      Call o _ (localVariable o slot name type start stop)

/-- Each call of a builder of a body makes calls. -/
theorem CodeOutlet.Call.calls {o : CodeOutlet σ} (outlet : o.Within (CodeDraft.manner σ))
    {act : CodeM σ α} (call : Call o α act) : Calls act := by
  cases call with
  | newLabel => exact CodeM.calls_newLabel
  | startLabel => exact CodeM.calls_startLabel
  | endLabel => exact CodeM.calls_endLabel
  | receiverSlot => exact CodeM.calls_receiverSlot
  | parameterSlot n => exact CodeM.calls_parameterSlot n
  | allocateLocal k => exact CodeM.calls_allocateLocal k
  | emit e => exact calls_emit outlet e
  | replay source within => exact calls_replay outlet source within
  | load k slot => exact calls_load outlet k slot
  | store k slot => exact calls_store outlet k slot
  | branch op target => exact calls_branch outlet op target
  | return_ k => exact calls_return outlet k
  | plain op => exact calls_plain outlet op
  | field op owner name type => exact calls_field outlet op owner name type
  | invoke op owner name type ofInterface =>
      exact calls_invoke outlet op owner name type ofInterface
  | newPrimitiveArray k => exact calls_newPrimitiveArray outlet k
  | newMultiArray type dimensions => exact calls_newMultiArray outlet type dimensions
  | constant e => exact calls_constant outlet e
  | constantInt v => exact calls_constantInt outlet v
  | constantString text => exact calls_constantString outlet text
  | localVariable slot name type start stop =>
      exact calls_localVariable outlet slot name type start stop

/-- The transforms that the library has for bodies. -/
inductive CodeTransform.Own : CodeTransform σ → Prop
  | tracking (h : Held σ StackTracker) : Own (StackTracker.transform h)
  | shifting (h : Held σ LocalsShifter) : Own (LocalsShifter.transform h)

/-- Transforms of bodies that are put together from calls. -/
def CodeTransform.Composed : CodeTransform σ → Prop :=
  Transform.Composed (CodeDraft.manner σ) CodeOutlet.Call CodeTransform.Own

/-- Transforms of bodies that are put together from calls act on a body. -/
theorem CodeTransform.Composed.within {t : CodeTransform σ} (composed : t.Composed) :
    t.Within (CodeDraft.manner σ) := by
  refine Transform.Composed.within (fun o outlet _ _ call => call.calls outlet) ?_ composed
  intro t own
  cases own with
  | tracking h => exact StackTracker.within_transform h
  | shifting h => exact LocalsShifter.within_transform h

/-- The calls of a builder of a field. -/
inductive FieldOutlet.Call (o : FieldOutlet σ) : (α : Type) → FieldM σ α → Prop
  | emit (e : FieldElement) : Call o _ (o.emit e)
  | replay (source : FieldModel) {t : Option (FieldTransform σ)}
      (within : ∀ t', t = some t' → t'.Within (FieldDraft.manner σ)) : Call o _ (o.replay source t)

/-- Each call of a builder of a field makes calls. -/
theorem FieldOutlet.Call.calls {o : FieldOutlet σ} (outlet : o.Within (FieldDraft.manner σ))
    {act : FieldM σ α} (call : Call o α act) : Calls act := by
  cases call with
  | emit e => exact outlet.does_emit trivial
  | replay source within => exact calls_replay outlet source within

/-- Transforms of fields that are put together from calls. -/
def FieldTransform.Composed : FieldTransform σ → Prop :=
  Transform.Composed (FieldDraft.manner σ) FieldOutlet.Call fun _ => False

/-- Transforms of fields that are put together from calls act on a field. -/
theorem FieldTransform.Composed.within {t : FieldTransform σ} (composed : t.Composed) :
    t.Within (FieldDraft.manner σ) :=
  Transform.Composed.within (fun _ outlet _ _ call => call.calls outlet) (fun _ own => own.elim)
    composed

/-- The calls of a builder of a method. -/
inductive MethodOutlet.Call (o : MethodOutlet σ) : (α : Type) → MethodM σ α → Prop
  | emit (e : MethodElement) : Call o _ (o.emit e)
  | code {handler : CodeOutlet σ → ExceptT Error (CodeM σ) Unit}
      (fills : Drafting.Composed (CodeOutlet.Call .terminal) (handler .terminal).run) :
      Call o _ (o.code handler)
  | transformCode (source : CodeModel) {t : Option (CodeTransform σ)}
      (composed : ∀ t', t = some t' → t'.Composed) : Call o _ (o.transformCode source t)
  | transformCodeWith {τ : Type} (source : CodeModel) (own : τ) {t : CodeTransform (σ × τ)}
      (composed : t.Composed) : Call o _ (o.transformCodeWith source own t)
  | replay (source : MethodModel) {t : Option (MethodTransform σ)}
      (within : ∀ t', t = some t' → t'.Within (MethodDraft.manner σ)) : Call o _ (o.replay source t)

/-- Each call of a builder of a method makes calls. -/
theorem MethodOutlet.Call.calls {o : MethodOutlet σ} (outlet : o.Within (MethodDraft.manner σ))
    {act : MethodM σ α} (call : Call o α act) : Calls act := by
  cases call with
  | emit e => exact calls_emit outlet e
  | code fills =>
      exact calls_code outlet
        (fills.does (m := Drafting.calling σ CodeDraft)
          (CodeOutlet.Call.calls (o := .terminal) trivial))
  | transformCode source composed =>
      exact calls_transformCode outlet source fun t' same => (composed t' same).within
  | transformCodeWith source own composed =>
      exact calls_transformCodeWith outlet source own composed.within
  | replay source within => exact calls_replay outlet source within

/-- The transforms that the library has for methods. -/
inductive MethodTransform.Own : MethodTransform σ → Prop
  | code {t : Option (CodeTransform σ)} (composed : ∀ t', t = some t' → t'.Composed) : Own (code t)
  | shiftingLocals : Own shiftingLocals

/-- Transforms of methods that are put together from calls. -/
def MethodTransform.Composed : MethodTransform σ → Prop :=
  Transform.Composed (MethodDraft.manner σ) MethodOutlet.Call MethodTransform.Own

/-- Transforms of methods that are put together from calls act on a method. -/
theorem MethodTransform.Composed.within {t : MethodTransform σ} (composed : t.Composed) :
    t.Within (MethodDraft.manner σ) := by
  refine Transform.Composed.within (fun o outlet _ _ call => call.calls outlet) ?_ composed
  intro t own
  cases own with
  | code composed => exact within_code fun t' same => (composed t' same).within
  | shiftingLocals => exact within_shiftingLocals

/-- The calls of a builder of a class that shares the pool of an input. -/
inductive ClassOutlet.Call (i : Input) (o : ClassOutlet σ) : (α : Type) → ClassM σ α → Prop
  | emit {e : ClassElement} (genuine : e.Genuine i) : Call i o _ (o.emit e)
  | field (name descriptor : Text) (flags : AccessFlags)
      {handler : FieldOutlet σ → ExceptT Error (FieldM σ) Unit}
      (fills : Drafting.Composed (FieldOutlet.Call .terminal) (handler .terminal).run) :
      Call i o _ (o.field name descriptor flags handler)
  | method (name descriptor : Text) (flags : AccessFlags)
      {handler : MethodOutlet σ → ExceptT Error (MethodM σ) Unit}
      (fills : Drafting.Composed (MethodOutlet.Call .terminal) (handler .terminal).run) :
      Call i o _ (o.method name descriptor flags handler)
  | transformField (f : FieldModel) {t : Option (FieldTransform σ)}
      (composed : ∀ t', t = some t' → t'.Composed) : Call i o _ (o.transformField f t)
  | transformMethod (m : MethodModel) {t : Option (MethodTransform σ)}
      (composed : ∀ t', t = some t' → t'.Composed) : Call i o _ (o.transformMethod m t)
  | replay (c : ClassFile) (genuine : ∀ e ∈ c.traversal.elements, e.Genuine i)
      {t : Option (ClassTransform σ)}
      (within : ∀ t', t = some t' → t'.Within (ClassDraft.manner σ i)) : Call i o _ (o.replay c t)

/-- Each call of a builder of a class acts on a class. -/
theorem ClassOutlet.Call.acts {o : ClassOutlet σ} (outlet : o.Within (ClassDraft.manner σ i))
    {act : ClassM σ α} (call : Call i o α act) : ClassDraft.Acts i act := by
  cases call with
  | emit genuine => exact outlet.does_emit genuine
  | field name descriptor flags fills =>
      exact acts_field outlet name descriptor flags
        (fills.does (m := Drafting.calling σ FieldDraft)
          (FieldOutlet.Call.calls (o := .terminal) trivial))
  | method name descriptor flags fills =>
      exact acts_method outlet name descriptor flags
        (fills.does (m := Drafting.calling σ MethodDraft)
          (MethodOutlet.Call.calls (o := .terminal) trivial))
  | transformField f composed =>
      exact acts_transformField outlet f fun t' same => (composed t' same).within
  | transformMethod m composed =>
      exact acts_transformMethod outlet m fun t' same => (composed t' same).within
  | replay c genuine within => exact acts_replay outlet c genuine within

/-- The transforms that the library has for classes. -/
inductive ClassTransform.Own : ClassTransform σ → Prop
  | methods (which : MethodModel → Bool) {t : Option (MethodTransform σ)}
      (composed : ∀ t', t = some t' → t'.Composed) : Own (methods which t)
  | fields (which : FieldModel → Bool) {t : Option (FieldTransform σ)}
      (composed : ∀ t', t = some t' → t'.Composed) : Own (fields which t)
  | bodies (which : MethodModel → Bool) {t : Option (CodeTransform σ)}
      (composed : ∀ t', t = some t' → t'.Composed) : Own (bodies which t)

/-- Transforms of a class that are put together from calls. -/
def ClassTransform.Composed (i : Input) : ClassTransform σ → Prop :=
  Transform.Composed (ClassDraft.manner σ i) (ClassOutlet.Call i) ClassTransform.Own

/-- Whatever is put together from calls of the builders and from transforms of the library acts on a
class as its callers do. -/
theorem ClassTransform.Composed.within {t : ClassTransform σ} (composed : t.Composed i) :
    t.Within (ClassDraft.manner σ i) := by
  refine Transform.Composed.within (fun o outlet _ _ call => call.acts outlet) ?_ composed
  intro t own
  cases own with
  | methods which composed => exact within_methods which fun t' same => (composed t' same).within
  | fields which composed => exact within_fields which fun t' same => (composed t' same).within
  | bodies which composed => exact within_bodies which fun t' same => (composed t' same).within

end JvmClass
