import Std.Data.HashMap
import JvmClass.Code.Element

/-!
# Following the operand stack

A tracker follows the operand stack through a body, element by element, and records
the greatest depth in slots. After an instruction that never falls through the stack
is unknown until a label is met that something jumped to. An instruction that works
on an unknown stack, or takes more than there is, makes the greatest depth unknown
for good.
-/

namespace JvmClass

/-- An operand stack, with its depth in slots. -/
structure OperandStack where
  /-- The kinds of the values, the top first. -/
  kinds : List Kind
  slots : Nat
deriving DecidableEq, Repr, Inhabited

/-- The slots of some values. -/
def OperandStack.slotsOf (kinds : List Kind) : Nat := kinds.foldr (fun k n => k.slots + n) 0

/-- What is known of the stack at a point of a body. -/
structure StackTracker where
  /-- The stack, unless it is unknown. -/
  current : Option OperandStack
  /-- The greatest depth seen. -/
  max : Nat
  /-- Whether the greatest depth could be followed. -/
  maxKnown : Bool
  /-- The stacks with which labels were jumped to. -/
  pending : Std.HashMap (Option Label) OperandStack
deriving Inhabited

namespace StackTracker

/-- Forgets the stack, and with it the greatest depth. -/
def lose (t : StackTracker) : StackTracker := { t with current := none, maxKnown := false }

/-- Takes a stack for the present one. -/
def become (s : OperandStack) (t : StackTracker) : StackTracker :=
  { t with current := some s, max := Nat.max t.max s.slots }

/-- Pushes a value of a kind, as the stack holds it. -/
def push (k : Kind) (t : StackTracker) : StackTracker :=
  match t.current with
  | none => { t with maxKnown := false }
  | some s =>
    if k = .void then t
    else
      let k := k.computational
      t.become ⟨k :: s.kinds, s.slots + k.slots⟩

/-- Pops `n` values one after another. -/
def popFrom (s : OperandStack) (t : StackTracker) : Nat → StackTracker
  | 0 => { t with current := some s }
  | n + 1 =>
    match s.kinds with
    | [] => t.lose
    | k :: kinds => popFrom ⟨kinds, s.slots - k.slots⟩ t n

/-- Pops `n` values. -/
def pop (n : Nat) (t : StackTracker) : StackTracker :=
  match t.current with
  | none => { t with maxKnown := false }
  | some s => popFrom s t n

/-- A tracker whose stack holds the given kinds, the bottom first. -/
def start (initial : List Kind) : StackTracker :=
  initial.foldl (fun t k => t.push k)
    { current := some ⟨[], 0⟩, max := 0, maxKnown := true, pending := {} }

/-- The kinds on the stack, the bottom first. -/
def stack? (t : StackTracker) : Option (List Kind) := t.current.map fun s => s.kinds.reverse

/-- The greatest depth, when it is known. -/
def maxStack? (t : StackTracker) : Option Nat := if t.maxKnown then some t.max else none

/-- Records the stack at a jump. -/
def jump (target : Option Label) (t : StackTracker) : StackTracker :=
  match t.current with
  | none => t
  | some s => { t with pending := t.pending.insert target s }

/-- Control does not go on to what follows. -/
def leave (t : StackTracker) : StackTracker := { t with current := none }

/-- What an instruction that moves values about does to the top of the stack: the
values it takes, those it leaves in their place, and the rest. -/
def rearrange (op : Opcode) (kinds : List Kind) : Option (List Kind × List Kind × List Kind) :=
  if op = Opcode.pop then
    match kinds with
    | a :: s => some ([a], [], s)
    | _ => none
  else if op = Opcode.pop2 then
    match kinds with
    | a :: s =>
      if a.isWide then some ([a], [], s)
      else
        match s with
        | b :: s => some ([a, b], [], s)
        | _ => none
    | _ => none
  else if op = Opcode.dup then
    match kinds with
    | a :: s => some ([a], [a, a], s)
    | _ => none
  else if op = Opcode.swap then
    match kinds with
    | a :: b :: s => some ([a, b], [b, a], s)
    | _ => none
  else if op = Opcode.dupX1 then
    match kinds with
    | a :: b :: s => some ([a, b], [a, b, a], s)
    | _ => none
  else if op = Opcode.dupX2 then
    match kinds with
    | a :: b :: s =>
      if b.isWide then some ([a, b], [a, b, a], s)
      else
        match s with
        | c :: s => some ([a, b, c], [a, b, c, a], s)
        | _ => none
    | _ => none
  else if op = Opcode.dup2 then
    match kinds with
    | a :: s =>
      if a.isWide then some ([a], [a, a], s)
      else
        match s with
        | b :: s => some ([a, b], [a, b, a, b], s)
        | _ => none
    | _ => none
  else if op = Opcode.dup2X1 then
    match kinds with
    | a :: b :: s =>
      if a.isWide then some ([a, b], [a, b, a], s)
      else
        match s with
        | c :: s => some ([a, b, c], [a, b, c, a, b], s)
        | _ => none
    | _ => none
  else if op = Opcode.dup2X2 then
    match kinds with
    | a :: b :: s =>
      if a.isWide then
        if b.isWide then some ([a, b], [a, b, a], s)
        else
          match s with
          | c :: s => some ([a, b, c], [a, b, c, a], s)
          | _ => none
      else
        match s with
        | c :: s =>
          if c.isWide then some ([a, b, c], [a, b, c, a, b], s)
          else
            match s with
            | d :: s => some ([a, b, c, d], [a, b, c, d, a, b], s)
            | _ => none
        | _ => none
    | _ => none
  else some ([], [], kinds)

/-- Moves values about on the stack. -/
def shuffle (op : Opcode) (t : StackTracker) : StackTracker :=
  match t.current with
  | none => { t with maxKnown := false }
  | some s =>
    match rearrange op s.kinds with
    | none => t.lose
    | some (taken, left, rest) =>
      t.become ⟨left ++ rest,
        s.slots - OperandStack.slotsOf taken + OperandStack.slotsOf left⟩

/-- A call with the given descriptor and, unless there is none, a receiver. -/
def call (descriptor : Text) (receiver : Bool) (t : StackTracker) : StackTracker :=
  match MethodDescriptor.parse descriptor with
  | .error _ => t.lose
  | .ok d =>
    let t := t.pop d.params.length
    let t := if receiver then t.pop 1 else t
    t.push d.result.kind

/-- An access to a field of the given kind. -/
def access (op : Opcode) (k : Kind) (t : StackTracker) : StackTracker :=
  if op = Opcode.getstatic then t.push k
  else if op = Opcode.getfield then (t.pop 1).push k
  else if op = Opcode.putstatic then t.pop 1
  else if op = Opcode.putfield then t.pop 2
  else t

/-- A switch. -/
def switch (fallback : Option Label) (cases : List SwitchCase) (t : StackTracker) :
    StackTracker :=
  (cases.foldl (fun t c => t.jump c.target) ((t.pop 1).jump fallback)).leave

/-- A branch. -/
def branch (op : Opcode) (target : Option Label) (t : StackTracker) : StackTracker :=
  if op = Opcode.goto || op = Opcode.gotoW then (t.jump target).leave
  else if Opcode.ifIcmpeq.byte ≤ op.byte && op.byte ≤ Opcode.ifAcmpne.byte then
    (t.pop 2).jump target
  else (t.pop 1).jump target

/-- An operator: those with one operand are the negations and the length of an array. -/
def operate (op : Opcode) (t : StackTracker) : StackTracker :=
  let unary := [Opcode.arraylength, Opcode.ineg, Opcode.lneg, Opcode.fneg, Opcode.dneg]
  (t.pop (if op ∈ unary then 1 else 2)).push op.kind

/-- What an instruction does to the stack. An operand that was left out and that its
effect depends on has no effect to follow. -/
def step (t : StackTracker) : Instruction → Except Error StackTracker
  | .load op _ => return t.push op.kind
  | .store .. => return t.pop 1
  | .increment .. | .nop => return t
  | .branch op target => return t.branch op target
  | .lookupSwitch fallback cases | .tableSwitch _ _ fallback cases =>
    return t.switch fallback cases
  | .return _ | .throw => return t.leave
  | .field op (some f) => return t.access op (Kind.ofDescriptor f.type)
  | .invoke op (some m) => return t.call m.type (op ≠ Opcode.invokestatic)
  | .invokeDynamic (some site) => return t.call site.nameAndType.type.text false
  | .field _ none | .invoke _ none | .invokeDynamic none => throw .outOfBounds
  | .newObject _ => return t.push .reference
  | .newPrimitiveArray _ | .newReferenceArray _ => return (t.pop 1).push .reference
  | .newMultiArray _ dimensions => return (t.pop dimensions.toNat).push .reference
  | .arrayLoad op => return (t.pop 2).push op.kind
  | .arrayStore _ => return t.pop 3
  | .typeCheck op _ =>
    return (t.pop 1).push (if op = Opcode.instanceof then .int else .reference)
  | .convert op => return (t.pop 1).push op.kind
  | .operator op => return t.operate op
  | .constant op _ entry => return t.push (Instruction.constantKind op entry)
  | .monitor _ => return t.pop 1
  | .stack op => return t.shuffle op
  | .discontinued op target _ =>
    if op = Opcode.jsr || op = Opcode.jsrW then
      return ((t.push .reference).jump target).pop 1
    else if op = Opcode.ret then return t.leave
    else return t

/-- What an element of a body does to the stack. -/
def track (t : StackTracker) : CodeElement → Except Error StackTracker
  | .label l => return (t.pending[l]?).elim t fun s => t.become s
  | .handler c => return { t with pending := t.pending.insert c.handler ⟨[.reference], 1⟩ }
  | .instruction i => t.step i
  | _ => return t

end StackTracker

end JvmClass
