import JvmClass.Code.Reader
import JvmClass.Constant.PoolBuilder

/-!
# Instructions as cells

An instruction is encoded as cells: bytes that are known at once, and distances to
labels that are known when the whole body is. The width of a cell never depends on
where a label ends up, so the offsets of a body are sums of widths.
-/

namespace JvmClass

/-- A part of an encoded body. -/
inductive Cell where
  | byte (value : UInt8)
  /-- The distance from the instruction at `offset` to a label, in two bytes. -/
  | near (offset : Nat) (target : Option Label)
  /-- The distance from the instruction at `offset` to a label, in four bytes. -/
  | far (offset : Nat) (target : Option Label)
deriving DecidableEq, Repr, Inhabited

namespace Cell

/-- The number of bytes that a cell takes. -/
def width : Cell → Nat
  | .byte _ => 1
  | .near .. => 2
  | .far .. => 4

/-- The bytes of a cell, when `offsets` tells where labels stand. -/
def resolve (offsets : Option Label → Except Error Nat) : Cell → Except Error Bytes
  | .byte b => return [b]
  | .near offset target => do
    let delta : Int := (← offsets target) - offset
    if delta < -32768 || 32767 < delta then throw (.misuse (.branchOffset delta offset))
    return u2 delta
  | .far offset target => do
    let delta : Int := (← offsets target) - offset
    return u4 delta

/-- Bytes as cells. -/
def bytes (b : Bytes) : List Cell := b.map .byte

/-- The cells of an opcode and bytes after it. -/
def code (op : Opcode) (operands : Bytes) : List Cell := bytes (op.byte :: operands)

end Cell

namespace Instruction

/-- The local variable that an instruction uses, with the kind of its value. -/
def localUse? : Instruction → Option (Int × Kind)
  | .load op slot | .store op slot => some (slot, op.kind)
  | .increment slot _ => some (slot, .int)
  | .discontinued op _ slot => if op = Opcode.ret then some (slot, .reference) else none
  | _ => none

/-- The word that a message has for an instruction that cannot be encoded. -/
def word : Instruction → Text
  | .return _ => "classfile.ReturnInstruction"
  | .throw => "classfile.ThrowInstruction"
  | .arrayLoad _ => "classfile.ArrayLoadInstruction"
  | .arrayStore _ => "classfile.ArrayStoreInstruction"
  | .convert _ => "classfile.ConvertInstruction"
  | .operator _ => "classfile.OperatorInstruction"
  | .stack _ => "classfile.StackInstruction"
  | .monitor _ => "classfile.MonitorInstruction"
  | .nop => "classfile.NopInstruction"
  | _ => "classfile.Instruction"

end Instruction

namespace Cell

/-- A load or store: the form with the slot in the opcode when it still fits, else
with the slot in one byte or in two. -/
def ofLocal (op : Opcode) (slot : Int) : Except Error (List Cell) := do
  if slot < 0 || 65535 < slot then throw (.misuse (.slot slot))
  if op.implicitSlot?.map (fun n => (n : Int)) = some slot then return code op []
  if slot ≤ 255 then return code op.base (u1 slot)
  return bytes (Opcode.wide :: op.base.byte :: u2 slot)

/-- An increment, widened when the slot or the amount needs it. -/
def ofIncrement (slot delta : Int) : Except Error (List Cell) := do
  if 0 ≤ slot && slot ≤ 255 && -128 ≤ delta && delta ≤ 127 then
    return code Opcode.iinc (u1 slot ++ u1 delta)
  if 0 ≤ slot && slot ≤ 65535 && -32768 ≤ delta && delta ≤ 32767 then
    return bytes (Opcode.wide :: Opcode.iinc.byte :: (u2 slot ++ u2 delta))
  throw (.misuse (.increment slot delta))

/-- A jump at `offset`. -/
def ofJump (op : Opcode) (target : Option Label) (offset : Nat) : List Cell :=
  let distance := if op = Opcode.gotoW || op = Opcode.jsrW then far else near
  code op [] ++ [distance offset target]

/-- The opcode of a switch at `offset`, the padding after it and the default. -/
def switchHead (op : Opcode) (offset : Nat) (fallback : Option Label) : List Cell :=
  code op (List.replicate (InputCode.padding offset) 0) ++ [.far offset fallback]

/-- The first value that two neighbours have in common. -/
def repeatedValue? : List SwitchCase → Option Int
  | a :: b :: rest => if a.value = b.value then some b.value else repeatedValue? (b :: rest)
  | _ => none

/-- A switch by search: its cases stand in the order of their values. -/
def ofLookup (offset : Nat) (fallback : Option Label) (cases : List SwitchCase) :
    Except Error (List Cell) := do
  let cases := cases.mergeSort fun a b => a.value ≤ b.value
  if let some v := repeatedValue? cases then throw (.misuse (.duplicateCase v))
  return switchHead Opcode.lookupswitch offset fallback ++ bytes (u4 cases.length)
    ++ cases.flatMap fun c => bytes (u4 c.value) ++ [.far offset c.target]

/-- A switch by table: a value without a case goes to the default, and of several cases
with one value the last counts. -/
def ofTable (offset : Nat) (low high : Int) (fallback : Option Label)
    (cases : List SwitchCase) : Except Error (List Cell) := do
  if high < low then throw (.misuse (.tableBounds low high))
  let targets : Std.HashMap Int (Option Label) :=
    cases.foldl (fun m c => m.insert c.value c.target) {}
  let target (n : Nat) : Cell := .far offset ((targets[low + n]?).getD fallback)
  return switchHead Opcode.tableswitch offset fallback ++ bytes (u4 low ++ u4 high)
    ++ (List.range (high - low + 1).toNat).map target

/-- The index of an entry that has to be there. -/
def refIndex (e : Option Entry) : ExceptT Error Interning Nat := do
  match e with
  | none => throw (.misuse .missingReference)
  | some e => ExceptT.lift (PoolBuilder.indexOf e)

/-- An opcode with the index of an entry, and more bytes after it. -/
def ofRef (op : Opcode) (e : Option Entry) (more : Bytes) :
    ExceptT Error Interning (List Cell) := do
  return code op (u2 (← refIndex e) ++ more)

/-- An opcode with the index of a class, and more bytes after it. -/
def ofClass (op : Opcode) (c : Option ClassEntry) (more : Bytes) :
    ExceptT Error Interning (List Cell) :=
  ofRef op (c.map fun c => .loadable (.class c)) more

/-- A call. An interface call also says how many slots its arguments take. -/
def ofInvoke (op : Opcode) (method : Option MemberEntry) :
    ExceptT Error Interning (List Cell) := do
  let cells ← ofRef op (method.map .member) []
  match method with
  | some m =>
    if op = Opcode.invokeinterface then
      match MethodDescriptor.parse m.type with
      | .error e => throw (.misuse (.interfaceCall m.text e))
      | .ok d => return cells ++ bytes (u1 (1 + d.slots : Nat) ++ u1 0)
    return cells
  | none => return cells

/-- A constant. A wide one has a form of its own, and the short form of the others is
kept while the index fits one byte. -/
def ofConstant (op : Opcode) (value : Int) (entry : Option Loadable) :
    ExceptT Error Interning (List Cell) := do
  if op = Opcode.bipush then
    if value < -128 || 127 < value then throw (.misuse (.bytePush value))
    return code op (u1 value)
  if op = Opcode.sipush then
    if value < -32768 || 32767 < value then throw (.misuse (.shortPush value))
    return code op (u2 value)
  if op = Opcode.ldc || op = Opcode.ldcW || op = Opcode.ldc2W then
    let index ← refIndex (entry.map .loadable)
    if (entry.map fun e => e.kind.isWide).getD false then
      return code Opcode.ldc2W (u2 index)
    if op = Opcode.ldc && index ≤ 255 then return code op (u1 index)
    return code Opcode.ldcW (u2 index)
  if op.shape? = some .constant && op.size = 1 then return code op []
  throw (.misuse (.notConstant op))

/-- The cells of an instruction at `offset`. -/
def ofInstruction (offset : Nat) (i : Instruction) : ExceptT Error Interning (List Cell) := do
  match i with
  | .load op slot | .store op slot => liftM (ofLocal op slot)
  | .increment slot delta => liftM (ofIncrement slot delta)
  | .branch op none => throw (.misuse (.missingTarget op))
  | .branch op target => return ofJump op target offset
  | .lookupSwitch fallback cases => liftM (ofLookup offset fallback cases)
  | .tableSwitch low high fallback cases => liftM (ofTable offset low high fallback cases)
  | .constant op value entry => ofConstant op value entry
  | .field op f => ofRef op (f.map .member) []
  | .invoke op method => ofInvoke op method
  | .invokeDynamic site => ofRef Opcode.invokedynamic (site.map .callSite) (u2 0)
  | .newObject c => ofClass Opcode.new c []
  | .newReferenceArray c => ofClass Opcode.anewarray c []
  | .typeCheck op c => ofClass op c []
  | .newMultiArray c dimensions => ofClass Opcode.multianewarray c (u1 dimensions)
  | .newPrimitiveArray k =>
    match Opcode.arrayCode? k with
    | some n => return code Opcode.newarray (u1 n)
    | none => throw (.misuse (.arrayOf k))
  | .discontinued op target slot =>
    if op = Opcode.ret then
      if slot ≤ 255 then return code op (u1 slot)
      return bytes (Opcode.wide :: op.byte :: u2 slot)
    return ofJump op target offset
  | .return op | .arrayLoad op | .arrayStore op | .convert op | .operator op | .stack op
  | .monitor op => plain op
  | .throw => plain Opcode.athrow
  | .nop => plain Opcode.nop
where
  /-- An opcode that is the whole instruction. -/
  plain (op : Opcode) : ExceptT Error Interning (List Cell) := do
    if op.info?.isSome && op.size = 1 then return code op []
    throw (.misuse (.encodes i.word op))

end Cell

end JvmClass
