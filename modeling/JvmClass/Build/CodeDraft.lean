import JvmClass.Build.Body
import JvmClass.Build.Transform

/-!
# Bodies under construction

A draft of a body either writes what it takes or collects it into a body of its own.
It knows the slots of the receiver and the parameters and hands out slots and labels.
The actions here emit one element each, choosing the instruction that fits.
-/

namespace JvmClass

/-- The local slots of a method: the receiver, the parameters and what follows. -/
structure LocalFrame where
  static : Bool
  descriptor : MethodDescriptor
  /-- The next slot to hand out. -/
  next : Nat
deriving Inhabited

namespace LocalFrame

/-- The frame of a method, with the slots that a body declares already taken. -/
def start (static : Bool) (d : MethodDescriptor) (declared : Option Nat) : LocalFrame :=
  { static, descriptor := d, next := Nat.max (d.width static) (declared.getD 0) }

/-- The slot of the receiver. -/
def receiver? (f : LocalFrame) : Except Error Int :=
  if f.static then .error (.misuse .staticReceiver) else .ok 0

/-- The slot of a parameter: that of the first one, and on by the size of each before it. -/
def parameter? (f : LocalFrame) (i : Int) : Except Error Int :=
  let params := f.descriptor.params
  if i < 0 || params.length ≤ i then .error (.misuse (.parameter i params.length))
  else
    let first : Nat := if f.static then 0 else 1
    .ok ((params.take i.toNat).foldl (fun slot type => slot + type.kind.slots) first : Nat)

/-- A fresh slot for a value of a kind. -/
def allocate? (f : LocalFrame) (k : Kind) : Except Error (Nat × LocalFrame) :=
  if k = .void || k = .unknown 0 then .error (.misuse (.allocates k))
  else .ok (f.next, { f with next := f.next + k.slots })

end LocalFrame

/-- What becomes of the elements of a body. -/
inductive CodeTarget where
  | writing (w : BodyWriter)
  | collecting (elements : Array CodeElement)
deriving Inhabited

/-- A body under construction. -/
structure CodeDraft where
  /-- The body that it is made from. -/
  source : Option CodeModel
  /-- The name of the method that the body belongs to, if that is made from another. -/
  parent : Option Text
  frame : LocalFrame
  start : Option Label
  stop : Option Label
  target : CodeTarget
deriving Inhabited

/-- An action on a body. -/
abbrev CodeM (σ : Type) := Drafting σ CodeDraft

namespace CodeDraft

variable {σ : Type}

/-- The declared limits of the body that this one is made from. -/
def declared (d : CodeDraft) : Option (Nat × Nat) := d.source.bind CodeModel.declared

/-- A frame for a body made from another. -/
def frameFor (static : Bool) (d : MethodDescriptor) (source : Option CodeModel) : LocalFrame :=
  .start static d ((source.bind CodeModel.declared).map (·.2))

/-- A body that is written at once. -/
def writing (static : Bool) (d : MethodDescriptor) (source : Option CodeModel) : CodeDraft :=
  let frame := frameFor static d source
  { source, parent := none, frame, start := none, stop := none
    target := .writing (.start frame.next) }

/-- A body that is collected. -/
def collecting (static : Bool) (d : MethodDescriptor) (source : Option CodeModel)
    (parent : Option Text) : CodeDraft :=
  { source, parent, frame := frameFor static d source, start := none, stop := none
    target := .collecting #[] }

/-- Takes an element. -/
def take (e : CodeElement) : CodeM σ Unit := fun d s =>
  match d, s with
  | { source, parent, frame, start, stop, target := .collecting elements }, s =>
    (((), { source, parent, frame, start, stop, target := .collecting (elements.push e) }), s)
  | { source, parent, frame, start, stop, target := .writing w }, s =>
    let options := s.options
    match Build.interning (w.put options e).run s with
    | (.ok w, s) => (((), { source, parent, frame, start, stop, target := .writing w }), s)
    | (.error e, s) =>
      match Build.fail e s with
      | ((), s) => (((), { source, parent, frame, start, stop, target := .writing default }), s)

/-- Whether the body is collected. -/
def collects (d : CodeDraft) : Bool :=
  match d.target with
  | .writing _ => false
  | .collecting _ => true

/-- A draft that takes an element goes on to collect, or not. -/
theorem collects_take (e : CodeElement) (d : CodeDraft) (s : Session σ) :
    ((take e : CodeM σ Unit) d s).1.2.collects = d.collects := by
  rcases d with ⟨source, parent, frame, start, stop, target⟩
  cases target with
  | collecting elements => rfl
  | writing w =>
      simp only [take]
      rcases Build.interning (w.put s.options e).run s with ⟨_ | _, s'⟩ <;> rfl

/-- A draft that collects leaves the pool alone. -/
theorem pool_take (e : CodeElement) (d : CodeDraft) (s : Session σ) (collects : d.collects = true) :
    ((take e : CodeM σ Unit) d s).2.pool = s.pool := by
  rcases d with ⟨source, parent, frame, start, stop, target⟩
  cases target with
  | collecting elements => rfl
  | writing w => exact nomatch collects

instance : Draft CodeDraft CodeElement where
  level := .code
  collects := collects
  take := take
  collects_take := collects_take
  pool_take := pool_take

/-- The collected body, with the labels of its start and end in place. -/
def collected (d : CodeDraft) : BuiltCode :=
  let elements := match d.target with
    | .writing _ => []
    | .collecting elements => elements.toList
  { parent := d.parent
    declared := d.declared
    elements := (d.start.map fun l => CodeElement.label (some l)).toList ++ elements
      ++ (d.stop.map fun l => CodeElement.label (some l)).toList }

/-- The bytes of a body that was written at once. -/
def finish (d : CodeDraft) : Build σ (Except Error Bytes) :=
  match d.target with
  | .writing w => w.finish (d.declared.map (·.1)) d.stop
  | .collecting _ => return .error .outOfBounds

/-- The elements of a body, written as they are. -/
def encode (static : Bool) (descriptor : MethodDescriptor) (source : CodeModel) :
    Build σ (Except Error Bytes) := do
  let copy : ExceptT Error (CodeM σ) Unit :=
    Transform.run source.traversal (some .pass) .terminal
  let (outcome, d) ← copy.run.run (writing static descriptor (some source))
  match outcome with
  | .error e => return .error e
  | .ok () => d.finish

end CodeDraft

/-- Where elements of a body go. -/
abbrev CodeOutlet (σ : Type) := Outlet σ CodeDraft CodeElement

/-- A transform of bodies. -/
abbrev CodeTransform (σ : Type) := Transform σ CodeDraft CodeElement

namespace CodeM

variable {σ α : Type}

/-- Acts on the pool. -/
def interning (act : Interning α) : CodeM σ α := Drafting.session (Build.interning act)

/-- Records a misuse. -/
def misuse (m : Misuse) : CodeM σ Unit := Drafting.session (Build.fail (.misuse m))

/-- A label that nothing else has. -/
def newLabel : CodeM σ Label := Drafting.session Build.freshLabel

/-- The label of the start of the body. -/
def startLabel : CodeM σ Label := do
  match (← get).start with
  | some l => return l
  | none =>
    let l ← newLabel
    modify fun d => { d with
      start := some l
      target := match d.target with
        | .writing w => .writing (w.bindAt l 0)
        | t => t }
    return l

/-- The label of the end of the body. -/
def endLabel : CodeM σ Label := do
  match (← get).stop with
  | some l => return l
  | none =>
    let l ← newLabel
    modify fun d => { d with stop := some l }
    return l

/-- The slot of an outcome, or a recorded error and a slot that is none. -/
def slotOr (outcome : Except Error Int) : CodeM σ Int := do
  match outcome with
  | .ok slot => return slot
  | .error e =>
    Drafting.session (Build.fail e)
    return -1

/-- The slot of the receiver. -/
def receiverSlot : CodeM σ Int := do slotOr (← get).frame.receiver?

/-- The slot of a parameter. -/
def parameterSlot (i : Int) : CodeM σ Int := do slotOr ((← get).frame.parameter? i)

/-- A fresh slot for a value of a kind. -/
def allocateLocal (k : Kind) : CodeM σ Int := do
  match (← get).frame.allocate? k with
  | .error e => slotOr (.error e)
  | .ok (slot, frame) =>
    modify fun d => { d with
      frame
      target := match d.target with
        | .writing w => .writing (w.useLocal slot k)
        | t => t }
    return slot

end CodeM

namespace CodeOutlet

variable {σ : Type} (o : CodeOutlet σ)

/-- Emits an instruction. -/
def instruction (i : Instruction) : CodeM σ Unit := o.emit (.instruction i)

/-- Walks a body through a transform into this one. -/
def replay (source : CodeModel) (t : Option (CodeTransform σ)) : CodeM σ Unit := do
  if (← Drafting.session Build.error?).isSome then return
  Drafting.session (Build.failOn (← (Transform.run source.traversal t o).run))

/-- Binds a label to the present position. -/
def bindLabel (l : Option Label) : CodeM σ Unit := o.emit (.label l)

/-- Loads a local variable. -/
def load (k : Kind) (slot : Int) : CodeM σ Unit :=
  match Opcode.load? k with
  | none => CodeM.misuse (.noLoad k)
  | some op => instruction o (.load ((op.short? slot).getD op) slot)

/-- Stores into a local variable. -/
def store (k : Kind) (slot : Int) : CodeM σ Unit :=
  match Opcode.store? k with
  | none => CodeM.misuse (.noStore k)
  | some op => instruction o (.store ((op.short? slot).getD op) slot)

/-- Adds to a local variable. -/
def increment (slot delta : Int) : CodeM σ Unit := instruction o (.increment slot delta)

/-- Branches. -/
def branch (op : Opcode) (target : Option Label) : CodeM σ Unit :=
  if op.shape? = some .branch then instruction o (.branch op target)
  else CodeM.misuse (.notBranch op)

/-- Returns a value of a kind. -/
def return_ (k : Kind) : CodeM σ Unit :=
  match Opcode.return? k with
  | none => CodeM.misuse (.noReturn k)
  | some op => instruction o (.return op)

/-- An instruction without operands. -/
def plain (op : Opcode) : CodeM σ Unit :=
  match Instruction.ofOpcode? op with
  | none => CodeM.misuse (.takesOperands op)
  | some i => instruction o i

/-- Reads or writes a field. -/
def field (op : Opcode) (owner : ClassEntry) (name type : Text) : CodeM σ Unit := do
  if op.shape? ≠ some .field then CodeM.misuse (.notField op)
  else
    let f ← CodeM.interning (PoolBuilder.member .field owner name type)
    instruction o (.field op (some f))

/-- Calls a method. -/
def invoke (op : Opcode) (owner : ClassEntry) (name type : Text) (ofInterface : Bool) :
    CodeM σ Unit := do
  if op.shape? ≠ some .invoke then CodeM.misuse (.notInvoke op)
  else
    let kind : MemberKind :=
      if ofInterface || op = Opcode.invokeinterface then .interfaceMethod else .method
    let m ← CodeM.interning (PoolBuilder.member kind owner name type)
    instruction o (.invoke op (some m))

/-- Makes an array of a primitive kind. -/
def newPrimitiveArray (k : Kind) : CodeM σ Unit :=
  if (Opcode.arrayCode? k).isSome then instruction o (.newPrimitiveArray k)
  else CodeM.misuse (.arrayOf k)

/-- Makes an array of arrays. -/
def newMultiArray (type : Option ClassEntry) (dimensions : Int) : CodeM σ Unit :=
  if dimensions < 1 || 255 < dimensions then CodeM.misuse (.dimensions dimensions)
  else instruction o (.newMultiArray type dimensions)

/-- Pushes a constant of the pool. -/
def constant (e : Option Loadable) : CodeM σ Unit :=
  match e with
  | none => CodeM.misuse .missingConstant
  | some e =>
    instruction o (.constant (if e.kind.isWide then Opcode.ldc2W else Opcode.ldc) 0 (some e))

/-- Pushes an integer, by the shortest instruction. -/
def constantInt (v : Int) : CodeM σ Unit := do
  if -1 ≤ v && v ≤ 5 then
    instruction o (.constant ⟨(unsigned 8 (Opcode.iconst0.byte.toNat + v)).toUInt8⟩ 0 none)
  else if -128 ≤ v && v ≤ 127 then instruction o (.constant Opcode.bipush v none)
  else if -32768 ≤ v && v ≤ 32767 then instruction o (.constant Opcode.sipush v none)
  else constant o (some (← CodeM.interning (PoolBuilder.integer v)))

/-- Pushes a text. -/
def constantString (text : Text) : CodeM σ Unit := do
  constant o (some (← CodeM.interning (PoolBuilder.string text)))

/-- Declares a local variable. -/
def localVariable (slot : Int) (name type : Text) (start stop : Option Label) : CodeM σ Unit := do
  let name ← CodeM.interning (PoolBuilder.utf8 name)
  let type ← CodeM.interning (PoolBuilder.utf8 type)
  o.emit (.localVariable { slot, name := some name, type := some type, start, stop })

end CodeOutlet

end JvmClass
