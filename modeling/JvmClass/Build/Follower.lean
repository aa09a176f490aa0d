import JvmClass.Build.MemberDraft
import JvmClass.Signature.Parser

/-!
# Transforms with a state

Two transforms of bodies remember what they have seen: one follows the operand stack,
the other moves local variables out of the way. What they remember is part of what the
caller keeps, so it outlives the walk.
-/

namespace JvmClass

/-- A part of what the caller keeps. -/
structure Held (σ α : Type) where
  get : σ → α
  set : α → σ → σ

namespace Held

variable {σ α δ : Type}

/-- All that the caller keeps. -/
def whole : Held σ σ := ⟨id, fun a _ => a⟩

/-- The second of two values. -/
def second : Held (σ × α) α := ⟨(·.2), fun a s => (s.1, a)⟩

/-- The present value. -/
def read (h : Held σ α) : ExceptT Error (Drafting σ δ) α := do
  return h.get (← getThe (Session σ)).user

/-- Takes another value. -/
def write (h : Held σ α) (a : α) : ExceptT Error (Drafting σ δ) Unit :=
  ExceptT.lift (Drafting.session (Build.onUser (modify (h.set a))))

end Held

/-- Emits every element and follows the stack through it. -/
def StackTracker.transform {σ : Type} (h : Held σ StackTracker) : CodeTransform σ :=
  .ofAccept fun o e => do
    ExceptT.lift (o.emit e)
    h.write (← liftM ((← h.read).track e))

/-- Where local variables go: slots below `fixed` stay, and each other slot gets a new
one at its first use. Values of one and of two slots that share a slot are kept
apart. -/
structure LocalsShifter where
  fixed : Int
  /-- The new slots given out so far. -/
  slots : Std.HashMap Int Int
deriving Inhabited

namespace LocalsShifter

variable {σ : Type}

/-- A shifter that leaves the slots below `fixed` in place. -/
def start (fixed : Int) : LocalsShifter := ⟨fixed, {}⟩

/-- A shifter for a method: receiver and parameters stay in place. -/
def ofMethod (flags : AccessFlags) (descriptor : Text) : Except Error LocalsShifter :=
  match MethodDescriptor.parse descriptor with
  | .error e => .error (.descriptor e)
  | .ok d => .ok (start (d.width flags.isStatic))

/-- What a slot is remembered under when it holds a value of the given size. -/
def key (s : LocalsShifter) (slot : Int) (size : Nat) : Int := 2 * slot - s.fixed + size - 1

/-- Remembers a new slot under a key, or forgets the key when the slot is none. -/
def remember (s : LocalsShifter) (key slot : Int) : LocalsShifter :=
  if 0 ≤ slot then { s with slots := s.slots.insert key slot }
  else { s with slots := s.slots.erase key }

/-- Remembers the new slot of a value. A value of two slots also takes the key of the
smaller one. -/
def give (s : LocalsShifter) (key slot : Int) (size : Nat) : LocalsShifter :=
  let s := s.remember key slot
  if size = 2 then s.remember (key - 1) slot else s

/-- The slot that a value of a kind moves to. -/
def shift (h : Held σ LocalsShifter) (slot : Int) (k : Kind) : ExceptT Error (CodeM σ) Int := do
  if k = .void then throw (.misuse .voidLocal)
  let s ← h.read
  if slot < s.fixed then return slot
  let key := s.key slot k.slots
  -- The table has no place before its start, and a wide value takes two.
  if 2 * slot < s.fixed then throw .outOfBounds
  match s.slots[key]? with
  | some new => return new
  | none =>
    let new ← ExceptT.lift (CodeM.allocateLocal k)
    h.write (s.give key new k.slots)
    return new

/-- The kind of a local variable with a generic signature. -/
def signatureKind (s : Text) : Kind :=
  match Signature.parseType s with
  | .ok (.base letter) => Kind.ofDescriptor [letter]
  | _ => .reference

/-- A scope with its slot moved, for a value of the kind that `kind` reads off its
type. -/
def shiftScope (h : Held σ LocalsShifter) (kind : Text → Kind) (s : LocalScope) :
    ExceptT Error (CodeM σ) LocalScope := do
  match s.type with
  | none => throw .outOfBounds
  | some type => return { s with slot := ← shift h s.slot (kind type.text) }

/-- Emits an element with its local slots moved. Stack maps describe the old slots and
are left out. -/
def accept (h : Held σ LocalsShifter) (o : CodeOutlet σ) (e : CodeElement) :
    ExceptT Error (CodeM σ) Unit := do
  match e with
  | .instruction (.load op slot) =>
    let slot ← shift h slot op.kind
    ExceptT.lift (CodeOutlet.load o op.kind slot)
  | .instruction (.store op slot) =>
    let slot ← shift h slot op.kind
    ExceptT.lift (CodeOutlet.store o op.kind slot)
  | .instruction (.increment slot delta) =>
    let slot ← shift h slot .int
    ExceptT.lift (CodeOutlet.increment o slot delta)
  | .localVariable s =>
    let s ← shiftScope h Kind.ofDescriptor s
    ExceptT.lift (o.emit (.localVariable s))
  | .localVariableType s =>
    let s ← shiftScope h signatureKind s
    ExceptT.lift (o.emit (.localVariableType s))
  | .attribute a =>
    match a.body with
    | .stackMapTable _ => return
    | _ => ExceptT.lift (o.emit e)
  | e => ExceptT.lift (o.emit e)

/-- Moves local variables. -/
def transform (h : Held σ LocalsShifter) : CodeTransform σ := .ofAccept (accept h)

end LocalsShifter

/-- Emits an element of a method, a body with its local variables moved by a shifter of its
own. -/
def MethodTransform.shiftLocals {σ : Type} (o : MethodOutlet σ) (e : MethodElement) :
    ExceptT Error (MethodM σ) Unit := do
  match e.code? with
  | none => ExceptT.lift (o.emit e)
  | some c =>
    let d ← getThe MethodDraft
    let shifter ← liftM (LocalsShifter.ofMethod d.flags d.descriptor.text)
    ExceptT.lift (MethodOutlet.transformCodeWith o c shifter (LocalsShifter.transform .second))

/-- Moves the local variables of the body of a method, with a fresh shifter for each
method. -/
def MethodTransform.shiftingLocals {σ : Type} : MethodTransform σ := .ofAccept shiftLocals

end JvmClass
