import JvmClass.Code.Element
import JvmClass.Proofs.Attribute.Bare
import JvmClass.Proofs.Attribute.Fits
import JvmClass.Proofs.Stack.Effect

/-!
# What a body says

Bodies are compared by what they say. Constants count by what they denote and labels by the
instruction that they stand before. Neither which of two loads takes a constant matters, nor in
which order a search has its cases, nor whether a table names the values that go to the default.
-/

namespace JvmClass

/-! ## Instructions -/

/-- The case with its target placed. -/
def SwitchCase.relabel (place : Label → Option Label) (c : SwitchCase) : SwitchCase :=
  { c with target := c.target.bind place }

namespace Instruction

/-- Where a switch by table goes for a value. -/
def tableTarget (fallback : Option Label) (cases : List SwitchCase) (value : Int) : Option Label :=
  ((cases.find? fun c => c.value = value).map (·.target)).getD fallback

/-- The cases of a switch by table, one for each value from `low` to `high`. -/
def tableCases (low high : Int) (fallback : Option Label) (cases : List SwitchCase) :
    List SwitchCase :=
  (List.range (high - low + 1).toNat).map fun (n : Nat) =>
    ⟨low + n, tableTarget fallback cases (low + n)⟩

/-- One form for instructions that do the same, without places of constants. -/
def canonical : Instruction → Instruction
  | .lookupSwitch fallback cases =>
    .lookupSwitch fallback (cases.mergeSort fun a b => a.value ≤ b.value)
  | .tableSwitch low high fallback cases =>
    .tableSwitch low high fallback (tableCases low high fallback cases)
  | .constant op value entry =>
    .constant (if op = Opcode.ldc then Opcode.ldcW else op) value (entry.map Loadable.bare)
  | .field op f => .field op (f.map MemberEntry.bare)
  | .invoke op method => .invoke op (method.map MemberEntry.bare)
  | .invokeDynamic site => .invokeDynamic (site.map CallSiteEntry.bare)
  | .newObject type => .newObject (type.map ClassEntry.bare)
  | .newReferenceArray component => .newReferenceArray (component.map ClassEntry.bare)
  | .newMultiArray type dimensions => .newMultiArray (type.map ClassEntry.bare) dimensions
  | .typeCheck op type => .typeCheck op (type.map ClassEntry.bare)
  | i => i

/-- The instruction with its labels placed. -/
def relabel (place : Label → Option Label) : Instruction → Instruction
  | .branch op target => .branch op (target.bind place)
  | .lookupSwitch fallback cases =>
    .lookupSwitch (fallback.bind place) (cases.map (SwitchCase.relabel place))
  | .tableSwitch low high fallback cases =>
    .tableSwitch low high (fallback.bind place) (cases.map (SwitchCase.relabel place))
  | .discontinued op target slot => .discontinued op (target.bind place) slot
  | i => i

end Instruction

/-! ## Rows -/

def Catch.placed (place : Label → Option Label) (c : Catch) : Catch where
  start := c.start.bind place
  stop := c.stop.bind place
  handler := c.handler.bind place
  type := c.type.map ClassEntry.bare

def LocalScope.placed (place : Label → Option Label) (s : LocalScope) : LocalScope where
  slot := s.slot
  name := s.name.map Utf8Entry.bare
  type := s.type.map Utf8Entry.bare
  start := s.start.bind place
  stop := s.stop.bind place

def VerificationType.relabel (place : Label → Option Label) : VerificationType → VerificationType
  | .uninitialized new => .uninitialized (new.bind place)
  | v => v

namespace StackMapFrame

def relabel (place : Label → Option Label) (f : StackMapFrame) : StackMapFrame where
  target := f.target.bind place
  locals := f.locals.map (VerificationType.relabel place)
  stack := f.stack.map (VerificationType.relabel place)

/-- The number of the label that a frame is for. -/
def number (f : StackMapFrame) : Nat :=
  match f.target with
  | some (.fresh n) => n
  | _ => 0

end StackMapFrame

/-- What an attribute of a body says. The frames of a stack map stand in the order of the
instructions that they are for. -/
def AttributeBody.placed (place : Label → Option Label) : AttributeBody → AttributeBody
  | .stackMapTable frames => .stackMapTable
    ((frames.map (StackMapFrame.relabel place)).mergeSort fun a b => a.number ≤ b.number)
  | body => body.bare

/-! ## Elements -/

namespace CodeElement

def handler? : CodeElement → Option Catch
  | .handler c => some c
  | _ => none

def scope? : CodeElement → Option LocalScope
  | .localVariable s => some s
  | _ => none

def typeScope? : CodeElement → Option LocalScope
  | .localVariableType s => some s
  | _ => none

def attribute? : CodeElement → Option AttributeBody
  | .attribute a => some a.body
  | _ => none

def line? : CodeElement → Option Int
  | .line n => some n
  | _ => none

def binding? : CodeElement → Option Label
  | .label l => l
  | _ => none

/-- The instructions of a body. -/
def instructions (es : List CodeElement) : List Instruction := es.filterMap instruction?

/-- Every element with the number of instructions before it, of which there are `n` already. -/
def numbered (n : Nat) : List CodeElement → List (Nat × CodeElement)
  | [] => []
  | e :: rest => (n, e) :: numbered (n + instructionCount [e]) rest

/-- The labels that are bound, with the number of instructions before each. -/
def bindings (es : List CodeElement) : List (Label × Nat) :=
  (numbered 0 es).filterMap fun (n, e) => e.binding?.map (·, n)

/-- The number of instructions before the place where a label is bound. -/
def position? (es : List CodeElement) (l : Label) : Option Nat := (bindings es).lookup l

/-- A label that is named after its position. -/
def place (es : List CodeElement) (l : Label) : Option Label := (position? es l).map .fresh

/-- The source lines, with the number of instructions before each. -/
def lines (es : List CodeElement) : List (Nat × Int) :=
  (numbered 0 es).filterMap fun (n, e) => e.line?.map (n, ·)

end CodeElement

/-- What a body says. -/
structure CodeOutline where
  instructions : List Instruction
  handlers : List Catch
  lines : List (Nat × Int)
  scopes : List LocalScope
  typeScopes : List LocalScope
  stackMaps : List AttributeBody
  attributes : List AttributeBody

namespace CodeOutline

/-- Whether an attribute is a stack map. -/
def isStackMap : AttributeBody → Bool
  | .stackMapTable _ => true
  | _ => false

open CodeElement in
/-- The outline of a body, in which labels are named after their positions. -/
def of (es : List CodeElement) : CodeOutline where
  instructions := (CodeElement.instructions es).map fun i => i.canonical.relabel (place es)
  handlers := (es.filterMap handler?).map (Catch.placed (place es))
  lines := CodeElement.lines es
  scopes := (es.filterMap scope?).map (LocalScope.placed (place es))
  typeScopes := (es.filterMap typeScope?).map (LocalScope.placed (place es))
  stackMaps := ((es.filterMap attribute?).filter isStackMap).map (AttributeBody.placed (place es))
  attributes := ((es.filterMap attribute?).filter (!isStackMap ·)).map AttributeBody.bare

end CodeOutline

/-! ## Bodies that can be written

The operands of an instruction fit if its opcode is one of those that take them and each can be
told from the bytes. A body is well placed if what has to lie before its end does.
-/

namespace Instruction

/-- What a constant instruction pushes is of the form that its opcode asks for. -/
def ConstantFits (op : Opcode) (value : Int) (entry : Option Loadable) : Prop :=
  if op = Opcode.bipush ∨ op = Opcode.sipush then entry = none
  else if op = Opcode.ldc ∨ op = Opcode.ldcW ∨ op = Opcode.ldc2W then
    value = 0 ∧ ∀ e ∈ entry, e.kind.isWide = (op = Opcode.ldc2W)
  else value = 0 ∧ entry = none

/-- The operands are in range for the instruction. -/
def Fits : Instruction → Prop
  | .load op slot => op.shape? = some .load ∧ ∀ n ∈ op.implicitSlot?, slot = n
  | .store op slot => op.shape? = some .store ∧ ∀ n ∈ op.implicitSlot?, slot = n
  | .branch op _ => op.shape? = some .branch
  | .lookupSwitch _ cases => ∀ c ∈ cases, signed 32 c.value = c.value
  | .tableSwitch low high _ cases => signed 32 low = low ∧ signed 32 high = high ∧
    (cases.map (·.value)).Nodup ∧ ∀ c ∈ cases, low ≤ c.value ∧ c.value ≤ high
  | .field op f => op.shape? = some .field ∧ ∀ m ∈ f, m.kind = .field
  | .invoke op method => op.shape? = some .invoke ∧ ∀ m ∈ method,
    m.kind ≠ .field ∧ (op = Opcode.invokeinterface → m.kind = .interfaceMethod)
  | .newMultiArray _ dimensions => 0 ≤ dimensions ∧ dimensions < 256
  | .typeCheck op _ => op.shape? = some .typeCheck
  | .constant op value entry => ConstantFits op value entry
  | .discontinued op target slot =>
    if op = Opcode.ret then target = none ∧ Word slot
    else op.shape? = some .discontinued ∧ slot = 0
  | .increment .. | .invokeDynamic _ | .newObject _ | .newPrimitiveArray _
  | .newReferenceArray _ => True
  | i => ofOpcode? i.op = some i

end Instruction

/-- A type of a frame has a tag of its own, and a class name that can be stored. -/
def VerificationType.Fits : VerificationType → Prop
  | .plain tag => tag ≤ 6
  | .object className => className.Decodes
  | .uninitialized _ => True

/-- The names of the tables that a body is taken apart into. -/
def CodeElement.tables : List Text :=
  ["LineNumberTable", "LocalVariableTable", "LocalVariableTypeTable"]

/-- An attribute of a body is a stack map, or it means something there or nothing anywhere. -/
def AttributeBody.FitsBody : AttributeBody → Prop
  | .stackMapTable frames => ∀ f ∈ frames, ∀ v ∈ f.locals ++ f.stack, v.Fits
  | body => body.Plain .code (Attribute.maxNesting - 1) ∧ body.name ∉ CodeElement.tables

namespace CodeElement

/-- What the element says fits its encoding. -/
def Fits : CodeElement → Prop
  | .instruction i => i.Fits
  | .line n => Word n
  | .localVariable s | .localVariableType s => Word s.slot
  | .attribute a => a.body.FitsBody
  | .label _ | .handler _ => True

/-- The labels that stand for instructions: targets, handlers and what frames refer to. -/
def inner : CodeElement → List (Option Label)
  | .instruction i => i.labels
  | .handler c => [c.handler]
  | .attribute a =>
    match a.body with
    | .stackMapTable frames => frames.flatMap StackMapFrame.labels
    | _ => []
  | _ => []

/-- A body in which no jump, handler, frame or line is for its end, and every handler covers some
instruction. -/
structure WellPlaced (es : List CodeElement) : Prop where
  inside : ∀ e ∈ es, ∀ l, some l ∈ e.inner → ∀ n, position? es l = some n → n < instructionCount es
  lined : ∀ row ∈ lines es, row.1 < instructionCount es
  covering : ∀ c, .handler c ∈ es → c.start.bind (place es) ≠ c.stop.bind (place es)

end CodeElement

end JvmClass
