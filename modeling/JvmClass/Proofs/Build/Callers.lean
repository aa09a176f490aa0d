import JvmClass.Build.Follower
import JvmClass.Proofs.Build.Members
import JvmClass.Proofs.ClassFile.Parse

/-!
# What callers do to a class under construction

A handler or transform of a class emits elements, has members written, and makes calls. Whatever
it does and in whatever order, the pool keeps what it took from its parent and every member of the
draft is one that can be scanned.
-/

namespace JvmClass

open Drafting (Calls calling)
open Layout (IsMember Members Scanned)
open PoolBuilder (Keeps)

variable {σ τ α β : Type} {i : Input}

/-- A member that goes by the input `i` lies where `i` has a member. -/
def InputMember.LiesIn (m : InputMember) (i : Input) : Prop :=
  m.input.origin = i.origin →
    m.input.cursor = i.cursor ∧ m.span ∈ i.layout.fields ++ i.layout.methods

/-- An element whose member, if it is one of an input, lies there. -/
def ClassElement.Genuine (i : Input) : ClassElement → Prop
  | .field (.input m) | .method (.input m) => m.LiesIn i
  | _ => True

/-- An action on a class that callers can put together: they make calls, look at everything, emit
elements, and have fields and methods written that they filled in any way. -/
inductive ClassDraft.Acts (i : Input) : {α : Type} → ClassM σ α → Prop
  | pure {α : Type} (a : α) : Acts i (pure a)
  | bind {α β : Type} {x : ClassM σ α} {f : α → ClassM σ β} (first : Acts i x)
      (next : ∀ a, Acts i (f a)) : Acts i (x >>= f)
  | look : Acts i (get : ClassM σ ClassDraft)
  | session {α : Type} {act : Build σ α} (calls : Build.Calls act) :
      Acts i (Drafting.session act : ClassM σ α)
  | accept {e : ClassElement} (genuine : e.Genuine i) : Acts i (Draft.accept e : ClassM σ Unit)
  | field (d : FieldDraft) : Acts i (do addField (← Drafting.session d.finish) : ClassM σ Unit)
  | method (d : MethodDraft) : Acts i (do addMethod (← Drafting.session d.finish) : ClassM σ Unit)

namespace ClassDraft

/-- Acting on a class. -/
def manner (σ : Type) (i : Input) : Draft.Manner σ ClassDraft ClassElement where
  Does := Acts i
  pure := .pure
  bind := .bind
  look := .look
  session := .session
  May := ClassElement.Genuine i
  accept _ := .accept

/-- All members can be scanned. -/
structure Scannable (d : ClassDraft) : Prop where
  fields : ∀ bytes ∈ d.fields, IsMember bytes
  methods : ∀ bytes ∈ d.methods, IsMember bytes

/-- There is nothing to be scanned in a draft without members. -/
theorem Scannable.empty {d : ClassDraft} (fields : d.fields = #[]) (methods : d.methods = #[]) :
    d.Scannable := ⟨by simp [fields], by simp [methods]⟩

/-- An action leaves a later state of the pool, and adds only members that can be scanned to a
class that is built on an input. -/
def Sustains (i : Input) (act : ClassM σ α) : Prop :=
  ∀ (d : ClassDraft) (s : Session σ), s.pool.Grows (act d s).2.pool ∧
    ((act d s).2.pool.error = none → Keeps i s.pool → d.Scannable → (act d s).1.2.Scannable)

namespace Sustains

/-- Doing nothing sustains everything. -/
theorem pure (a : α) : Sustains i (pure a : ClassM σ α) :=
  fun _ _ => ⟨.refl _, fun _ _ scannable => scannable⟩

/-- Two actions sustain what either sustains. -/
theorem bind {x : ClassM σ α} {f : α → ClassM σ β} (first : Sustains i x)
    (next : ∀ a, Sustains i (f a)) : Sustains i (x >>= f) := by
  intro d s
  obtain ⟨grows, scans⟩ := first d s
  obtain ⟨grows', scans'⟩ := next (x d s).1.1 (x d s).1.2 (x d s).2
  refine ⟨grows.trans grows', fun fine keeps scannable => ?_⟩
  have fine' := grows'.error fine
  exact scans' fine (grows.keeps i fine' keeps) (scans fine' keeps scannable)

/-- Calls only make the pool grow, and leave the class alone. -/
theorem session {act : Build σ α} (calls : Build.Calls act) :
    Sustains i (Drafting.session act : ClassM σ α) :=
  fun _ s => ⟨calls.grows s, fun _ _ scannable => scannable⟩

/-- Handing over an element is the same whatever the caller keeps. -/
theorem accept {e : ClassElement} (sustains : Sustains i (Draft.take e : ClassM Unit Unit)) :
    Sustains i (Draft.accept e : ClassM σ Unit) := fun d s => sustains d (s.withUser ())

/-- Changes of the draft sustain what can still be scanned after them. -/
theorem modify {f : ClassDraft → ClassDraft} (scans : ∀ d, Scannable d → Scannable (f d)) :
    Sustains i (modify f : ClassM σ PUnit) :=
  fun d _ => ⟨.refl _, fun _ _ scannable => scans d scannable⟩

end Sustains

/-- An action on a draft that adds what can be scanned, and leaves the pool as it is. -/
structure Adds (add : Except Error Bytes → ClassM σ Unit) : Prop where
  pool : ∀ (outcome : Except Error Bytes) (d : ClassDraft) (s : Session σ),
    (add outcome d s).2.pool = s.pool
  scans : ∀ (outcome : Except Error Bytes) (d : ClassDraft) (s : Session σ),
    (∀ bytes, outcome = .ok bytes → IsMember bytes) → d.Scannable → (add outcome d s).1.2.Scannable

/-- Adding a field that could be written makes the class longer by a member. -/
theorem adds_addField : Adds (addField : Except Error Bytes → ClassM σ Unit) where
  pool outcome d s := by cases outcome <;> rfl
  scans outcome d s isMember scannable := by
    cases outcome with
    | error e => exact scannable
    | ok bytes =>
        refine ⟨fun b member => ?_, scannable.methods⟩
        rcases Array.mem_push.mp member with old | rfl
        · exact scannable.fields b old
        · exact isMember b rfl

/-- Adding a method that could be written makes the class longer by a member. -/
theorem adds_addMethod : Adds (addMethod : Except Error Bytes → ClassM σ Unit) where
  pool outcome d s := by cases outcome <;> rfl
  scans outcome d s isMember scannable := by
    cases outcome with
    | error e => exact scannable
    | ok bytes =>
        refine ⟨scannable.fields, fun b member => ?_⟩
        rcases Array.mem_push.mp member with old | rfl
        · exact scannable.methods b old
        · exact isMember b rfl

/-- The bytes of a member of the input are one wherever they stand. -/
theorem isMember_slice (scanned : i.layout.Scanned) {m : InputMember} (lies : m.LiesIn i)
    (same : m.input.origin = i.origin) {bytes : Bytes}
    (slice : m.input.slice m.span.start (m.span.stop - m.span.start) = .ok bytes) :
    IsMember bytes := by
  obtain ⟨cursor, member⟩ := lies same
  obtain ⟨q, -, fields, -, methods⟩ := scanned.members
  obtain ⟨rows, table⟩ : ∃ rows, Layout.Table i.cursor (m.span.start + 6) rows m.span.stop := by
    rcases List.mem_append.mp member with field | method
    · exact fields.table field
    · exact methods.table method
  have forward := table.forward
  obtain ⟨inside, rfl⟩ :=
    Cursor.slice?_eq_some_iff.mp (Layout.covered_eq_ok_iff.mp slice)
  have stop : m.span.start + (m.span.stop - m.span.start) = m.span.stop := by omega
  rw [stop, cursor] at inside ⊢
  exact Layout.isMember_of_table table inside

section Adds

variable {add : Except Error Bytes → ClassM σ Unit} (adds : Adds add)
  {write : Build σ (Except Error Bytes)} (calls : Build.Calls write)
  (isMember : ∀ (s s' : Session σ) (bytes : Bytes), write s = (.ok bytes, s') → IsMember bytes)
include adds calls isMember

/-- What is written is added. -/
theorem sustains_written : Sustains i (do add (← Drafting.session write)) := by
  intro d s
  change s.pool.Grows (add (write s).1 d (write s).2).2.pool ∧
    ((add (write s).1 d (write s).2).2.pool.error = none → Keeps i s.pool → d.Scannable →
      (add (write s).1 d (write s).2).1.2.Scannable)
  rw [adds.pool]
  exact ⟨calls.grows s, fun _ _ => adds.scans _ _ _ fun bytes wrote =>
    isMember s (write s).2 bytes (Prod.ext wrote rfl)⟩

/-- A member of an input is copied or written. -/
theorem sustains_copied (scanned : i.layout.Scanned) {m : InputMember} (lies : m.LiesIn i) :
    Sustains i (do
      match ← Drafting.session (copied? m) with
      | some outcome => add outcome
      | none => add (← Drafting.session write)) := by
  intro d s
  have copy : copied? m s = (none, s) ∨ ∃ parent, s.pool.parent = some parent ∧
      parent.origin = m.input.origin ∧
      copied? m s = (some (m.input.slice m.span.start (m.span.stop - m.span.start)), s) := by
    rw [copied?, bind_apply, get_apply]
    cases known : s.pool.parent with
    | none => exact .inl rfl
    | some parent =>
        dsimp only
        split
        · rename_i same
          simp only [Bool.and_eq_true, decide_eq_true_eq] at same
          exact .inr ⟨parent, rfl, same.1, rfl⟩
        · exact .inl rfl
  have opened : (Drafting.session (copied? m) : ClassM σ _) d s =
      (((copied? m s).1, d), (copied? m s).2) := rfl
  rcases copy with copy | ⟨parent, known, same, copy⟩
  · simp only [Bind.bind, StateT.bind, opened, copy]
    exact sustains_written adds calls isMember d s
  · simp only [Bind.bind, StateT.bind, opened, copy]
    rw [adds.pool]
    refine ⟨.refl _, fun _ keeps => adds.scans _ _ _ fun bytes slice => ?_⟩
    obtain rfl := Option.some.inj (known.symm.trans keeps.parent)
    exact isMember_slice scanned lies same.symm slice

end Adds

/-- A field is written with calls. -/
theorem calls_writeField (f : FieldModel) :
    Build.Calls (writeField f : Build σ (Except Error Bytes)) := by
  have copies : (FieldDraft.manner σ).Tries (Transform.run f.traversal (some .pass) .terminal) :=
    Transform.tries_run (fun _ _ => trivial)
      (fun _ same => Option.some.inj same ▸ Transform.within_pass) trivial
  refine .bind (copies _) fun (outcome, d) => ?_
  cases outcome with
  | error e => exact .pure _
  | ok => exact d.calls_finish

/-- A method is written with calls. -/
theorem calls_writeMethod (m : MethodModel) :
    Build.Calls (writeMethod m : Build σ (Except Error Bytes)) := by
  have copies : (MethodDraft.manner σ).Tries (Transform.run m.traversal (some .pass) .terminal) :=
    Transform.tries_run (fun _ _ => trivial)
      (fun _ same => Option.some.inj same ▸ Transform.within_pass) trivial
  refine .bind (copies _) fun (outcome, d) => ?_
  cases outcome with
  | error e => exact .pure _
  | ok => exact d.calls_finish

/-- What a field is written as is a member. -/
theorem isMember_writeField {f : FieldModel} (s s' : Session σ) (bytes : Bytes)
    (wrote : writeField f s = (.ok bytes, s')) : IsMember bytes := by
  rw [writeField, bind_apply] at wrote
  rcases ran : (Transform.run f.traversal (some .pass) .terminal :
    ExceptT Error (FieldM σ) Unit).run.run
    (.ofModel true f) s with ⟨⟨_ | _, d⟩, s₁⟩
  · rw [ran] at wrote
    cases wrote
  · rw [ran] at wrote
    exact FieldDraft.isMember_finish wrote

/-- What a method is written as is a member. -/
theorem isMember_writeMethod {m : MethodModel} (s s' : Session σ) (bytes : Bytes)
    (wrote : writeMethod m s = (.ok bytes, s')) : IsMember bytes := by
  rw [writeMethod, bind_apply] at wrote
  rcases ran : (Transform.run m.traversal (some .pass) .terminal :
    ExceptT Error (MethodM σ) Unit).run.run (.ofModel true m) s with ⟨⟨_ | _, d⟩, s₁⟩
  · rw [ran] at wrote
    cases wrote
  · rw [ran] at wrote
    exact MethodDraft.isMember_finish wrote

/-- Taking a field sustains what can be scanned: it is copied from where it lies in the input, or
written. -/
theorem sustains_takeField (scanned : i.layout.Scanned) {f : FieldModel}
    (genuine : (ClassElement.field f).Genuine i) : Sustains i (takeField f : ClassM σ Unit) := by
  cases f with
  | input m =>
      exact sustains_copied adds_addField (calls_writeField _) isMember_writeField scanned genuine
  | built f => exact sustains_written adds_addField (calls_writeField _) isMember_writeField

/-- Taking a method sustains what can be scanned: it is copied from where it lies in the input, or
written. -/
theorem sustains_takeMethod (scanned : i.layout.Scanned) {m : MethodModel}
    (genuine : (ClassElement.method m).Genuine i) : Sustains i (takeMethod m : ClassM σ Unit) := by
  cases m with
  | input m =>
      exact sustains_copied adds_addMethod
        (calls_writeMethod _) isMember_writeMethod scanned genuine
  | built m => exact sustains_written adds_addMethod (calls_writeMethod _) isMember_writeMethod

/-- Taking any element sustains what can be scanned, if members of the input lie there. -/
theorem sustains_accept (scanned : i.layout.Scanned) {e : ClassElement} (genuine : e.Genuine i) :
    Sustains i (Draft.accept e : ClassM σ Unit) := .accept <| by
  cases e with
  | field f => exact sustains_takeField scanned genuine
  | method m => exact sustains_takeMethod scanned genuine
  | flags | version | superclass | interfaces | «attribute» =>
      exact .modify fun d scannable => ⟨scannable.fields, scannable.methods⟩

/-- Whatever callers do to a class that is built on an input, the pool keeps what it took from the
input, and all members can be scanned. -/
theorem Acts.sustains (scanned : i.layout.Scanned) {act : ClassM σ α} (acts : Acts i act) :
    Sustains i act := by
  induction acts with
  | pure a => exact .pure a
  | bind _ _ first next => exact .bind first next
  | look => exact fun _ _ => ⟨.refl _, fun _ _ scannable => scannable⟩
  | session calls => exact .session calls
  | accept genuine => exact sustains_accept scanned genuine
  | field d =>
      exact sustains_written adds_addField d.calls_finish fun _ _ _ => FieldDraft.isMember_finish
  | method d =>
      exact sustains_written adds_addMethod d.calls_finish fun _ _ _ => MethodDraft.isMember_finish

end ClassDraft

end JvmClass
