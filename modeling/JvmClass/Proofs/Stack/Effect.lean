import JvmClass.Code.StackTracker
import JvmClass.Opcode

/-!
# What instructions do to the operand stack

The virtual machine says of every instruction which values it takes off the operand
stack and which it leaves in their place. `Instruction.Effect` states this for each
instruction by the kinds of the values, without following any stack. Subroutine
instructions have no effect here: what they leave is no value of a kind.

What the rows of the table of opcodes have in common, by the shapes of the instructions, is read off
the table row by row.
-/

namespace JvmClass

namespace Opcode

/-- The shifts of a long, whose distance is an int. -/
def longShifts : List Opcode := [⟨0x79⟩, ⟨0x7B⟩, ⟨0x7D⟩]

/-- The negations. -/
def negations : List Opcode := [ineg, lneg, fneg, dneg]

/-- The kind of both operands of a comparison that gives an int. -/
def comparedKind? (op : Opcode) : Option Kind :=
  if op = ⟨0x94⟩ then some .long
  else if op ∈ [⟨0x95⟩, ⟨0x96⟩] then some .float
  else if op ∈ [⟨0x97⟩, ⟨0x98⟩] then some .double
  else none

/-- The operands of an operator, the topmost first. -/
def operands (op : Opcode) : List Kind :=
  if op = arraylength then [.reference]
  else if op ∈ negations then [op.kind]
  else if op ∈ longShifts then [.int, .long]
  else match op.comparedKind? with
    | some k => [k, k]
    | none => [op.kind, op.kind]

/-- Whether a branch compares the two topmost values with each other. -/
def comparesTwo (op : Opcode) : Bool := ifIcmpeq.byte ≤ op.byte && op.byte ≤ ifAcmpne.byte

/-- What a branch takes, the topmost first. -/
def branchOperands (op : Opcode) : List Kind :=
  if op = goto || op = gotoW then []
  else if op.comparesTwo then [op.kind, op.kind]
  else [op.kind]

end Opcode

/-- What pushing a value of a kind leaves: nothing where there is no value. -/
def Kind.pushed (k : Kind) : List Kind := if k = .void then [] else [k.computational]

/-- The forms of the instructions that move values about. Values of one slot and of two
slots are told apart; the topmost value comes first. -/
inductive Opcode.Moves : Opcode → (taken left : List Kind) → Prop where
  | pop {a : Kind} (narrow : a.slots = 1) : Moves Opcode.pop [a] []
  | pop2 {a b : Kind} (narrow : a.slots = 1 ∧ b.slots = 1) : Moves Opcode.pop2 [a, b] []
  | pop2Wide {a : Kind} (wide : a.slots = 2) : Moves Opcode.pop2 [a] []
  | dup {a : Kind} (narrow : a.slots = 1) : Moves Opcode.dup [a] [a, a]
  | dupX1 {a b : Kind} (narrow : a.slots = 1 ∧ b.slots = 1) :
      Moves Opcode.dupX1 [a, b] [a, b, a]
  | dupX2 {a b c : Kind} (narrow : a.slots = 1 ∧ b.slots = 1 ∧ c.slots = 1) :
      Moves Opcode.dupX2 [a, b, c] [a, b, c, a]
  | dupX2Wide {a b : Kind} (narrow : a.slots = 1) (wide : b.slots = 2) :
      Moves Opcode.dupX2 [a, b] [a, b, a]
  | dup2 {a b : Kind} (narrow : a.slots = 1 ∧ b.slots = 1) :
      Moves Opcode.dup2 [a, b] [a, b, a, b]
  | dup2Wide {a : Kind} (wide : a.slots = 2) : Moves Opcode.dup2 [a] [a, a]
  | dup2X1 {a b c : Kind} (narrow : a.slots = 1 ∧ b.slots = 1 ∧ c.slots = 1) :
      Moves Opcode.dup2X1 [a, b, c] [a, b, c, a, b]
  | dup2X1Wide {a b : Kind} (wide : a.slots = 2) (narrow : b.slots = 1) :
      Moves Opcode.dup2X1 [a, b] [a, b, a]
  | dup2X2 {a b c d : Kind}
      (narrow : a.slots = 1 ∧ b.slots = 1 ∧ c.slots = 1 ∧ d.slots = 1) :
      Moves Opcode.dup2X2 [a, b, c, d] [a, b, c, d, a, b]
  | dup2X2WideOnTop {a b c : Kind} (wide : a.slots = 2) (narrow : b.slots = 1 ∧ c.slots = 1) :
      Moves Opcode.dup2X2 [a, b, c] [a, b, c, a]
  | dup2X2WideBelow {a b c : Kind} (narrow : a.slots = 1 ∧ b.slots = 1) (wide : c.slots = 2) :
      Moves Opcode.dup2X2 [a, b, c] [a, b, c, a, b]
  | dup2X2BothWide {a b : Kind} (wide : a.slots = 2 ∧ b.slots = 2) :
      Moves Opcode.dup2X2 [a, b] [a, b, a]
  | swap {a b : Kind} (narrow : a.slots = 1 ∧ b.slots = 1) : Moves Opcode.swap [a, b] [b, a]

/-- What a call takes, the topmost first: the arguments and a receiver, if there is one. -/
def MethodDescriptor.taken (d : MethodDescriptor) (receiver : Bool) : List Kind :=
  (d.params.map fun p => p.kind.computational).reverse ++ if receiver then [.reference] else []

namespace Instruction

/-- The values that an instruction takes off the stack and those it leaves in their place,
the topmost first. -/
inductive Effect : Instruction → (taken left : List Kind) → Prop where
  | load {op slot} (shape : op.shape? = some .load) : Effect (.load op slot) [] [op.kind]
  | store {op slot} (shape : op.shape? = some .store) : Effect (.store op slot) [op.kind] []
  | increment {slot delta} : Effect (.increment slot delta) [] []
  | nop : Effect .nop [] []
  | branch {op target} (shape : op.shape? = some .branch) :
      Effect (.branch op target) op.branchOperands []
  | lookupSwitch {fallback cases} : Effect (.lookupSwitch fallback cases) [.int] []
  | tableSwitch {low high fallback cases} :
      Effect (.tableSwitch low high fallback cases) [.int] []
  | return {op} (shape : op.shape? = some .return) : Effect (.return op) op.kind.pushed []
  | throw : Effect .throw [.reference] []
  | getstatic {f : MemberEntry} (value : Kind.ofDescriptor f.type ≠ .void) :
      Effect (.field Opcode.getstatic (some f)) [] (Kind.ofDescriptor f.type).pushed
  | putstatic {f : MemberEntry} (value : Kind.ofDescriptor f.type ≠ .void) :
      Effect (.field Opcode.putstatic (some f)) (Kind.ofDescriptor f.type).pushed []
  | getfield {f : MemberEntry} (value : Kind.ofDescriptor f.type ≠ .void) :
      Effect (.field Opcode.getfield (some f)) [.reference] (Kind.ofDescriptor f.type).pushed
  | putfield {f : MemberEntry} (value : Kind.ofDescriptor f.type ≠ .void) :
      Effect (.field Opcode.putfield (some f)) ((Kind.ofDescriptor f.type).pushed ++ [.reference])
        []
  | invoke {op} {m : MemberEntry} {d} (shape : op.shape? = some .invoke)
      (parsed : MethodDescriptor.parse m.type = .ok d) :
      Effect (.invoke op (some m)) (d.taken (op ≠ Opcode.invokestatic)) d.result.kind.pushed
  | invokeDynamic {site : CallSiteEntry} {d}
      (parsed : MethodDescriptor.parse site.nameAndType.type.text = .ok d) :
      Effect (.invokeDynamic (some site)) (d.taken false) d.result.kind.pushed
  | newObject {c} : Effect (.newObject c) [] [.reference]
  | newPrimitiveArray {k} : Effect (.newPrimitiveArray k) [.int] [.reference]
  | newReferenceArray {c} : Effect (.newReferenceArray c) [.int] [.reference]
  | newMultiArray {c dimensions} :
      Effect (.newMultiArray c dimensions) (List.replicate dimensions.toNat .int) [.reference]
  | arrayLoad {op} (shape : op.shape? = some .arrayLoad) :
      Effect (.arrayLoad op) [.int, .reference] [op.kind.computational]
  | arrayStore {op} (shape : op.shape? = some .arrayStore) :
      Effect (.arrayStore op) [op.kind.computational, .int, .reference] []
  | checkcast {c} : Effect (.typeCheck Opcode.checkcast c) [.reference] [.reference]
  | instanceof {c} : Effect (.typeCheck Opcode.instanceof c) [.reference] [.int]
  | convert {op} (shape : op.shape? = some .convert) :
      Effect (.convert op) [op.source] [op.kind.computational]
  | operator {op} (shape : op.shape? = some .operator) :
      Effect (.operator op) op.operands [op.kind]
  | constant {op value entry} (shape : op.shape? = some .constant)
      (value_ : constantKind op entry ≠ .void) :
      Effect (.constant op value entry) [] (constantKind op entry).pushed
  | monitor {op} (shape : op.shape? = some .monitor) : Effect (.monitor op) [.reference] []
  | stack {op taken left} (moves : op.Moves taken left) : Effect (.stack op) taken left

/-- An instruction takes a stack to another when the values it takes lie on top of the
first and those it leaves lie on top of the second, with the same values below. -/
def Takes (i : Instruction) (before after : List Kind) : Prop :=
  ∃ taken left rest, i.Effect taken left ∧ before = taken ++ rest ∧ after = left ++ rest

/-- Whether control can go on to the instruction that follows. -/
def fallsThrough (i : Instruction) : Bool := !i.op.isUnconditional

end Instruction

/-! ## Stack typings

A stack typing gives every instruction of a body the operand stack that it finds, so
that the stacks agree along every edge of control. It is what a verifier computes by
going round loops until nothing changes; here it is only said what it means to have
one. `FlowBody.Edge` lists the edges, `StackTyping` the conditions.
-/

/-- A body as control sees it: its handlers, then its labels and instructions in order with
whatever stands between them. -/
structure FlowBody where
  catches : List Catch
  flow : List CodeElement
  /-- A label of the start that stands in front of everything, if there is one. -/
  start : Option Label
  /-- A label of the end that stands behind everything, if there is one. A draft binds it outside
  the flow, when the body is complete. -/
  stop : Option Label
  /-- All handlers stand before the flow. -/
  handlersFirst : ∀ c, CodeElement.handler c ∉ flow

/-- The instruction that an element is. -/
def CodeElement.instruction? : CodeElement → Option Instruction
  | .instruction i => some i
  | _ => none

/-- The number of instructions among some elements. -/
def instructionCount (elements : List CodeElement) : Nat :=
  (elements.filterMap CodeElement.instruction?).length

namespace FlowBody

/-- The instructions in order. -/
def instructions (b : FlowBody) : List Instruction := b.flow.filterMap CodeElement.instruction?

/-- The body as it is fed to a tracker. -/
def elements (b : FlowBody) : List CodeElement := b.catches.map .handler ++ b.flow

/-- A label marks the instruction of a number: it is bound right before that instruction
or stands for the start. The label of the end marks the number of all instructions, unless the flow
binds it. -/
inductive Marks (b : FlowBody) : Option Label → Nat → Prop where
  | bound {label front back} (split : b.flow = front ++ .label label :: back) :
      Marks b label (instructionCount front)
  | start {label} (stands : b.start = some label) : Marks b (some label) 0
  | stop {label} (stands : b.stop = some label) (unbound : .label (some label) ∉ b.flow) :
      Marks b (some label) b.instructions.length

/-- Control goes from one instruction to another, both given by number, unless it throws. -/
inductive Flows (b : FlowBody) : Nat → Nat → Prop where
  | next {k i} (here : b.instructions[k]? = some i) (falls : i.fallsThrough = true) :
      Flows b k (k + 1)
  | jump {k i label target} (here : b.instructions[k]? = some i) (named : label ∈ i.labels)
      (marks : b.Marks label target) : Flows b k target

/-- The edges of control: those of the instructions, and those from the range of a handler
to the handler. -/
inductive Edge (b : FlowBody) : Nat → Nat → Prop where
  | flow {k target} (flows : b.Flows k target) : Edge b k target
  | raise {k handler start stop target} (declared : handler ∈ b.catches)
      (starts : b.Marks handler.start start) (stops : b.Marks handler.stop stop)
      (covered : start ≤ k ∧ k < stop) (marks : b.Marks handler.handler target) : Edge b k target

/-- The instructions that control can get to from the entry. -/
inductive Reachable (b : FlowBody) : Nat → Prop where
  | entry : Reachable b 0
  | step {k target} (prior : Reachable b k) (edge : b.Edge k target)
      (here : target < b.instructions.length) : Reachable b target

end FlowBody

/-- An assignment of one stack to every instruction of a body: empty at the entry,
changed along every edge as the instruction does, and one reference at every handler. -/
structure StackTyping (b : FlowBody) (shape : Nat → List Kind) : Prop where
  entry : shape 0 = []
  /-- What an instruction leaves is what control finds wherever it goes from there. -/
  instruction : ∀ {k i}, b.instructions[k]? = some i → ∃ after, i.Takes (shape k) after ∧
    ∀ target, b.Flows k target → target < b.instructions.length → shape target = after
  handler : ∀ handler ∈ b.catches, ∀ target, b.Marks handler.handler target →
    target < b.instructions.length → shape target = [.reference]

/-! ## Facts about the table of opcodes -/

namespace Opcode

/-- What holds of every row of the table, at the position of its byte, holds of every opcode in
use. -/
theorem forall_of_rows {p : Opcode → OpcodeInfo → Prop}
    (holds : ∀ row ∈ table.toList.zipIdx, ∀ info ∈ row.1, p ⟨UInt8.ofNat row.2⟩ info)
    (op : Opcode) :
    ∀ info ∈ op.info?, p op info := by
  intro info known
  rw [Option.mem_def, info?, Option.join_eq_some_iff] at known
  have row : (some info, op.byte.toNat) ∈ table.toList.zipIdx := by
    rw [List.mem_zipIdx_iff_getElem?, Array.getElem?_toList]
    exact known
  have here := holds _ row info rfl
  rwa [UInt8.ofNat_toNat] at here

/-- The row of an opcode of a shape. -/
theorem info_of_shape {op : Opcode} {s : Shape} (shape : op.shape? = some s) :
    ∃ info, op.info? = some info ∧ info.shape = s := Option.map_eq_some_iff.mp shape

set_option maxRecDepth 8000 in
/-- A return does not go on to the next instruction. -/
theorem isUnconditional_of_return (op : Opcode) (shape : op.shape? = some .return) :
    op.isUnconditional = true := by
  obtain ⟨info, known, shape⟩ := info_of_shape shape
  exact forall_of_rows (p := fun op info => info.shape = .return → op.isUnconditional = true)
    (by decide) op info known shape

set_option maxRecDepth 8000 in
/-- Of the branches only the jumps leave for good. -/
theorem isUnconditional_branch (op : Opcode) (shape : op.shape? = some .branch) :
    op.isUnconditional = (op = goto || op = gotoW) := by
  obtain ⟨info, known, shape⟩ := info_of_shape shape
  exact forall_of_rows (p := fun op info => info.shape = .branch →
    op.isUnconditional = (op = goto || op = gotoW)) (by decide) op info known shape

/-- Shapes whose instructions always go on to the next. -/
def flowing : List Shape :=
  [.load, .store, .increment, .field, .invoke, .invokeDynamic, .newObject, .newPrimitiveArray,
    .newReferenceArray, .newMultiArray, .arrayLoad, .arrayStore, .typeCheck, .convert,
    .operator, .constant, .stack, .monitor, .nop]

set_option maxRecDepth 8000 in
/-- Instructions of flowing shapes go on to the next one. -/
theorem isUnconditional_flowing (op : Opcode) (flows : ∃ s ∈ flowing, op.shape? = some s) :
    op.isUnconditional = false := by
  obtain ⟨_, flows, shape⟩ := flows
  obtain ⟨info, known, rfl⟩ := info_of_shape shape
  exact forall_of_rows (p := fun op info => info.shape ∈ flowing → op.isUnconditional = false)
    (by decide) op info known flows

set_option maxRecDepth 8000 in
/-- Loads, array loads, conversions and operators push a value of the kind of their opcode. -/
theorem pushed_kind (op : Opcode)
    (shape : ∃ s ∈ [Shape.load, .arrayLoad, .convert, .operator], op.shape? = some s) :
    op.kind.pushed = [op.kind.computational] := by
  obtain ⟨_, pushes, shape⟩ := shape
  obtain ⟨info, known, rfl⟩ := info_of_shape shape
  rw [kind, known]
  exact forall_of_rows (p := fun _ info => info.shape ∈ [.load, .arrayLoad, .convert, .operator] →
    info.kind.pushed = [info.kind.computational]) (by decide) op info known pushes

set_option maxRecDepth 8000 in
/-- Loads and operators have the kind that the stack holds. -/
theorem computational_kind (op : Opcode)
    (shape : ∃ s ∈ [Shape.load, .operator], op.shape? = some s) :
      op.kind.computational = op.kind := by
  obtain ⟨_, computes, shape⟩ := shape
  obtain ⟨info, known, rfl⟩ := info_of_shape shape
  rw [kind, known]
  exact forall_of_rows (p := fun _ info => info.shape ∈ [.load, .operator] →
    info.kind.computational = info.kind) (by decide) op info known computes

/-- The negations and the length of an array take one value, other operators two. -/
theorem length_operands (op : Opcode) : op.operands.length =
    if op ∈ [arraylength, ineg, lneg, fneg, dneg] then 1 else 2 := by
  unfold operands negations
  by_cases isLength : op = arraylength
  · simp [isLength]
  · by_cases negates : op ∈ [ineg, lneg, fneg, dneg]
    · simp [isLength, negates]
    · have two : (match op.comparedKind? with
          | some k => [k, k]
          | none => [op.kind, op.kind]).length = 2 := by
        split <;> rfl
      simp only [isLength, negates, ↓reduceIte, List.mem_cons, false_or]
      split
      · rfl
      · exact two

end Opcode

/-- Instructions of a shape that always goes on to the next do so. -/
theorem Instruction.fallsThrough_of_shape {i : Instruction} {s : Shape}
    (shape : i.op.shape? = some s) (flows : s ∈ Opcode.flowing) : i.fallsThrough = true := by
  simp [fallsThrough, Opcode.isUnconditional_flowing i.op ⟨s, flows, shape⟩]

end JvmClass
