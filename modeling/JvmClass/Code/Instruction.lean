import JvmClass.Code.Label
import JvmClass.Opcode

/-!
# Instructions

An instruction is an opcode with its operands. A wide form is the instruction that
it widens. Operands that a caller can leave out are optional, and numbers are not
limited to what an encoding can hold; both are checked when an instruction is
written.
-/

namespace JvmClass

/-- A value of a switch and where it branches to. -/
structure SwitchCase where
  value : Int
  target : Option Label
deriving DecidableEq, Repr, Inhabited

/-- An instruction of the virtual machine. -/
inductive Instruction where
  | load (op : Opcode) (slot : Int)
  | store (op : Opcode) (slot : Int)
  | increment (slot delta : Int)
  | branch (op : Opcode) (target : Option Label)
  | lookupSwitch (fallback : Option Label) (cases : List SwitchCase)
  | tableSwitch (low high : Int) (fallback : Option Label) (cases : List SwitchCase)
  | return (op : Opcode)
  | throw
  | field (op : Opcode) (field : Option MemberEntry)
  | invoke (op : Opcode) (method : Option MemberEntry)
  | invokeDynamic (site : Option CallSiteEntry)
  | newObject (type : Option ClassEntry)
  | newPrimitiveArray (component : Kind)
  | newReferenceArray (component : Option ClassEntry)
  | newMultiArray (type : Option ClassEntry) (dimensions : Int)
  | arrayLoad (op : Opcode)
  | arrayStore (op : Opcode)
  | typeCheck (op : Opcode) (type : Option ClassEntry)
  | convert (op : Opcode)
  | operator (op : Opcode)
  | constant (op : Opcode) (value : Int) (entry : Option Loadable)
  | stack (op : Opcode)
  | monitor (op : Opcode)
  | nop
  /-- A jump to or a return from a subroutine. -/
  | discontinued (op : Opcode) (target : Option Label) (slot : Int)
deriving Inhabited

namespace Instruction

/-- The opcode of an instruction. -/
def op : Instruction → Opcode
  | .load op _ | .store op _ | .branch op _ | .return op | .field op _ | .invoke op _ => op
  | .arrayLoad op | .arrayStore op | .typeCheck op _ | .convert op | .operator op => op
  | .constant op _ _ | .stack op | .monitor op | .discontinued op _ _ => op
  | .increment .. => Opcode.iinc
  | .lookupSwitch .. => Opcode.lookupswitch
  | .tableSwitch .. => Opcode.tableswitch
  | .throw => Opcode.athrow
  | .invokeDynamic _ => Opcode.invokedynamic
  | .newObject _ => Opcode.new
  | .newPrimitiveArray _ => Opcode.newarray
  | .newReferenceArray _ => Opcode.anewarray
  | .newMultiArray .. => Opcode.multianewarray
  | .nop => Opcode.nop

/-- The labels that an instruction refers to. -/
def labels : Instruction → List (Option Label)
  | .branch _ t => [t]
  | .lookupSwitch fallback cases => fallback :: cases.map (·.target)
  | .tableSwitch _ _ fallback cases => fallback :: cases.map (·.target)
  | .discontinued _ t _ => [t]
  | _ => []

/-- The kind of value that a constant instruction pushes. -/
def constantKind (op : Opcode) : Option Loadable → Kind
  | some e => e.kind
  | none => op.kind

/-- The instruction of an opcode that takes no operands. -/
def ofOpcode? (op : Opcode) : Option Instruction := do
  let info ← op.info?
  if info.size ≠ 1 then none
  else
    match info.shape with
    | .load => some (.load op (op.implicitSlot?.getD 0))
    | .store => some (.store op (op.implicitSlot?.getD 0))
    | .return => some (.return op)
    | .throw => some .throw
    | .arrayLoad => some (.arrayLoad op)
    | .arrayStore => some (.arrayStore op)
    | .convert => some (.convert op)
    | .operator => some (.operator op)
    | .constant => some (.constant op 0 none)
    | .stack => some (.stack op)
    | .monitor => some (.monitor op)
    | .nop => some .nop
    | _ => none

end Instruction

end JvmClass
