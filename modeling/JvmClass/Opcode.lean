import JvmClass.Descriptor.Kind

/-!
# Opcodes

The first byte of an instruction and what is known about it: its mnemonic, its
length, the shape of its operands and the kinds of values it deals with. The
prefix that widens a local variable index is no opcode of its own; it belongs to
the instruction that it widens.
-/

namespace JvmClass

/-- The shapes of instructions. -/
inductive Shape where
  | load
  | store
  | increment
  | branch
  | lookupSwitch
  | tableSwitch
  | return
  | throw
  | field
  | invoke
  | invokeDynamic
  | newObject
  | newPrimitiveArray
  | newReferenceArray
  | newMultiArray
  | arrayLoad
  | arrayStore
  | typeCheck
  | convert
  | operator
  | constant
  | stack
  | monitor
  | nop
  | discontinued
deriving DecidableEq, Repr, Inhabited

/-- The number of a shape, from one in the order above. -/
def Shape.number : Shape → Nat
  | .load => 1
  | .store => 2
  | .increment => 3
  | .branch => 4
  | .lookupSwitch => 5
  | .tableSwitch => 6
  | .return => 7
  | .throw => 8
  | .field => 9
  | .invoke => 10
  | .invokeDynamic => 11
  | .newObject => 12
  | .newPrimitiveArray => 13
  | .newReferenceArray => 14
  | .newMultiArray => 15
  | .arrayLoad => 16
  | .arrayStore => 17
  | .typeCheck => 18
  | .convert => 19
  | .operator => 20
  | .constant => 21
  | .stack => 22
  | .monitor => 23
  | .nop => 24
  | .discontinued => 25

/-- An instruction byte, in use or not. -/
structure Opcode where
  byte : UInt8
deriving DecidableEq, Repr, Inhabited

/-- What is known about an opcode that is in use. -/
structure OpcodeInfo where
  name : String
  /-- Length of the instruction in bytes, zero when it varies. -/
  size : Nat
  shape : Shape
  /-- Kind of the operand or result where the opcode fixes it. -/
  kind : Kind
  /-- Kind that a conversion starts from. -/
  source : Kind
deriving Repr

namespace Opcode

/-- A table row of an opcode that converts nothing. -/
def row (name : String) (size : Nat) (shape : Shape) (kind : Kind) : OpcodeInfo :=
  ⟨name, size, shape, kind, .unknown 0⟩

/-- A table row of a conversion. -/
def conversion (name : String) (source target : Kind) : OpcodeInfo :=
  ⟨name, 1, .convert, target, source⟩

/-- The opcodes in use, at the positions of their bytes. The one gap is the
widening prefix. -/
def table : Array (Option OpcodeInfo) := #[
  some (row "nop" 1 .nop (.unknown 0)),
  some (row "aconst_null" 1 .constant .reference),
  some (row "iconst_m1" 1 .constant .int),
  some (row "iconst_0" 1 .constant .int),
  some (row "iconst_1" 1 .constant .int),
  some (row "iconst_2" 1 .constant .int),
  some (row "iconst_3" 1 .constant .int),
  some (row "iconst_4" 1 .constant .int),
  some (row "iconst_5" 1 .constant .int),
  some (row "lconst_0" 1 .constant .long),
  some (row "lconst_1" 1 .constant .long),
  some (row "fconst_0" 1 .constant .float),
  some (row "fconst_1" 1 .constant .float),
  some (row "fconst_2" 1 .constant .float),
  some (row "dconst_0" 1 .constant .double),
  some (row "dconst_1" 1 .constant .double),
  some (row "bipush" 2 .constant .int),
  some (row "sipush" 3 .constant .int),
  some (row "ldc" 2 .constant (.unknown 0)),
  some (row "ldc_w" 3 .constant (.unknown 0)),
  some (row "ldc2_w" 3 .constant (.unknown 0)),
  some (row "iload" 2 .load .int),
  some (row "lload" 2 .load .long),
  some (row "fload" 2 .load .float),
  some (row "dload" 2 .load .double),
  some (row "aload" 2 .load .reference),
  some (row "iload_0" 1 .load .int),
  some (row "iload_1" 1 .load .int),
  some (row "iload_2" 1 .load .int),
  some (row "iload_3" 1 .load .int),
  some (row "lload_0" 1 .load .long),
  some (row "lload_1" 1 .load .long),
  some (row "lload_2" 1 .load .long),
  some (row "lload_3" 1 .load .long),
  some (row "fload_0" 1 .load .float),
  some (row "fload_1" 1 .load .float),
  some (row "fload_2" 1 .load .float),
  some (row "fload_3" 1 .load .float),
  some (row "dload_0" 1 .load .double),
  some (row "dload_1" 1 .load .double),
  some (row "dload_2" 1 .load .double),
  some (row "dload_3" 1 .load .double),
  some (row "aload_0" 1 .load .reference),
  some (row "aload_1" 1 .load .reference),
  some (row "aload_2" 1 .load .reference),
  some (row "aload_3" 1 .load .reference),
  some (row "iaload" 1 .arrayLoad .int),
  some (row "laload" 1 .arrayLoad .long),
  some (row "faload" 1 .arrayLoad .float),
  some (row "daload" 1 .arrayLoad .double),
  some (row "aaload" 1 .arrayLoad .reference),
  some (row "baload" 1 .arrayLoad .byte),
  some (row "caload" 1 .arrayLoad .char),
  some (row "saload" 1 .arrayLoad .short),
  some (row "istore" 2 .store .int),
  some (row "lstore" 2 .store .long),
  some (row "fstore" 2 .store .float),
  some (row "dstore" 2 .store .double),
  some (row "astore" 2 .store .reference),
  some (row "istore_0" 1 .store .int),
  some (row "istore_1" 1 .store .int),
  some (row "istore_2" 1 .store .int),
  some (row "istore_3" 1 .store .int),
  some (row "lstore_0" 1 .store .long),
  some (row "lstore_1" 1 .store .long),
  some (row "lstore_2" 1 .store .long),
  some (row "lstore_3" 1 .store .long),
  some (row "fstore_0" 1 .store .float),
  some (row "fstore_1" 1 .store .float),
  some (row "fstore_2" 1 .store .float),
  some (row "fstore_3" 1 .store .float),
  some (row "dstore_0" 1 .store .double),
  some (row "dstore_1" 1 .store .double),
  some (row "dstore_2" 1 .store .double),
  some (row "dstore_3" 1 .store .double),
  some (row "astore_0" 1 .store .reference),
  some (row "astore_1" 1 .store .reference),
  some (row "astore_2" 1 .store .reference),
  some (row "astore_3" 1 .store .reference),
  some (row "iastore" 1 .arrayStore .int),
  some (row "lastore" 1 .arrayStore .long),
  some (row "fastore" 1 .arrayStore .float),
  some (row "dastore" 1 .arrayStore .double),
  some (row "aastore" 1 .arrayStore .reference),
  some (row "bastore" 1 .arrayStore .byte),
  some (row "castore" 1 .arrayStore .char),
  some (row "sastore" 1 .arrayStore .short),
  some (row "pop" 1 .stack (.unknown 0)),
  some (row "pop2" 1 .stack (.unknown 0)),
  some (row "dup" 1 .stack (.unknown 0)),
  some (row "dup_x1" 1 .stack (.unknown 0)),
  some (row "dup_x2" 1 .stack (.unknown 0)),
  some (row "dup2" 1 .stack (.unknown 0)),
  some (row "dup2_x1" 1 .stack (.unknown 0)),
  some (row "dup2_x2" 1 .stack (.unknown 0)),
  some (row "swap" 1 .stack (.unknown 0)),
  some (row "iadd" 1 .operator .int),
  some (row "ladd" 1 .operator .long),
  some (row "fadd" 1 .operator .float),
  some (row "dadd" 1 .operator .double),
  some (row "isub" 1 .operator .int),
  some (row "lsub" 1 .operator .long),
  some (row "fsub" 1 .operator .float),
  some (row "dsub" 1 .operator .double),
  some (row "imul" 1 .operator .int),
  some (row "lmul" 1 .operator .long),
  some (row "fmul" 1 .operator .float),
  some (row "dmul" 1 .operator .double),
  some (row "idiv" 1 .operator .int),
  some (row "ldiv" 1 .operator .long),
  some (row "fdiv" 1 .operator .float),
  some (row "ddiv" 1 .operator .double),
  some (row "irem" 1 .operator .int),
  some (row "lrem" 1 .operator .long),
  some (row "frem" 1 .operator .float),
  some (row "drem" 1 .operator .double),
  some (row "ineg" 1 .operator .int),
  some (row "lneg" 1 .operator .long),
  some (row "fneg" 1 .operator .float),
  some (row "dneg" 1 .operator .double),
  some (row "ishl" 1 .operator .int),
  some (row "lshl" 1 .operator .long),
  some (row "ishr" 1 .operator .int),
  some (row "lshr" 1 .operator .long),
  some (row "iushr" 1 .operator .int),
  some (row "lushr" 1 .operator .long),
  some (row "iand" 1 .operator .int),
  some (row "land" 1 .operator .long),
  some (row "ior" 1 .operator .int),
  some (row "lor" 1 .operator .long),
  some (row "ixor" 1 .operator .int),
  some (row "lxor" 1 .operator .long),
  some (row "iinc" 3 .increment .int),
  some (conversion "i2l" .int .long),
  some (conversion "i2f" .int .float),
  some (conversion "i2d" .int .double),
  some (conversion "l2i" .long .int),
  some (conversion "l2f" .long .float),
  some (conversion "l2d" .long .double),
  some (conversion "f2i" .float .int),
  some (conversion "f2l" .float .long),
  some (conversion "f2d" .float .double),
  some (conversion "d2i" .double .int),
  some (conversion "d2l" .double .long),
  some (conversion "d2f" .double .float),
  some (conversion "i2b" .int .byte),
  some (conversion "i2c" .int .char),
  some (conversion "i2s" .int .short),
  some (row "lcmp" 1 .operator .int),
  some (row "fcmpl" 1 .operator .int),
  some (row "fcmpg" 1 .operator .int),
  some (row "dcmpl" 1 .operator .int),
  some (row "dcmpg" 1 .operator .int),
  some (row "ifeq" 3 .branch .int),
  some (row "ifne" 3 .branch .int),
  some (row "iflt" 3 .branch .int),
  some (row "ifge" 3 .branch .int),
  some (row "ifgt" 3 .branch .int),
  some (row "ifle" 3 .branch .int),
  some (row "if_icmpeq" 3 .branch .int),
  some (row "if_icmpne" 3 .branch .int),
  some (row "if_icmplt" 3 .branch .int),
  some (row "if_icmpge" 3 .branch .int),
  some (row "if_icmpgt" 3 .branch .int),
  some (row "if_icmple" 3 .branch .int),
  some (row "if_acmpeq" 3 .branch .reference),
  some (row "if_acmpne" 3 .branch .reference),
  some (row "goto" 3 .branch .void),
  some (row "jsr" 3 .discontinued (.unknown 0)),
  some (row "ret" 2 .discontinued (.unknown 0)),
  some (row "tableswitch" 0 .tableSwitch .int),
  some (row "lookupswitch" 0 .lookupSwitch .int),
  some (row "ireturn" 1 .return .int),
  some (row "lreturn" 1 .return .long),
  some (row "freturn" 1 .return .float),
  some (row "dreturn" 1 .return .double),
  some (row "areturn" 1 .return .reference),
  some (row "return" 1 .return .void),
  some (row "getstatic" 3 .field (.unknown 0)),
  some (row "putstatic" 3 .field (.unknown 0)),
  some (row "getfield" 3 .field (.unknown 0)),
  some (row "putfield" 3 .field (.unknown 0)),
  some (row "invokevirtual" 3 .invoke (.unknown 0)),
  some (row "invokespecial" 3 .invoke (.unknown 0)),
  some (row "invokestatic" 3 .invoke (.unknown 0)),
  some (row "invokeinterface" 5 .invoke (.unknown 0)),
  some (row "invokedynamic" 5 .invokeDynamic (.unknown 0)),
  some (row "new" 3 .newObject .reference),
  some (row "newarray" 2 .newPrimitiveArray .reference),
  some (row "anewarray" 3 .newReferenceArray .reference),
  some (row "arraylength" 1 .operator .int),
  some (row "athrow" 1 .throw .reference),
  some (row "checkcast" 3 .typeCheck .reference),
  some (row "instanceof" 3 .typeCheck .int),
  some (row "monitorenter" 1 .monitor .reference),
  some (row "monitorexit" 1 .monitor .reference),
  none,
  some (row "multianewarray" 4 .newMultiArray .reference),
  some (row "ifnull" 3 .branch .reference),
  some (row "ifnonnull" 3 .branch .reference),
  some (row "goto_w" 5 .branch .void),
  some (row "jsr_w" 5 .discontinued (.unknown 0))]

/-- What is known about an opcode, when it is in use. -/
def info? (op : Opcode) : Option OpcodeInfo := (table[op.byte.toNat]?).join

/-- The prefix byte that widens the index of a local variable. -/
def wide : UInt8 := 0xC4

def nop : Opcode := ⟨0x00⟩
def iconst0 : Opcode := ⟨0x03⟩
def bipush : Opcode := ⟨0x10⟩
def sipush : Opcode := ⟨0x11⟩
def ldc : Opcode := ⟨0x12⟩
def ldcW : Opcode := ⟨0x13⟩
def ldc2W : Opcode := ⟨0x14⟩
def iload : Opcode := ⟨0x15⟩
def lload : Opcode := ⟨0x16⟩
def fload : Opcode := ⟨0x17⟩
def dload : Opcode := ⟨0x18⟩
def aload : Opcode := ⟨0x19⟩
def iload0 : Opcode := ⟨0x1A⟩
def aload3 : Opcode := ⟨0x2D⟩
def istore : Opcode := ⟨0x36⟩
def astore : Opcode := ⟨0x3A⟩
def istore0 : Opcode := ⟨0x3B⟩
def astore3 : Opcode := ⟨0x4E⟩
def pop : Opcode := ⟨0x57⟩
def pop2 : Opcode := ⟨0x58⟩
def dup : Opcode := ⟨0x59⟩
def dupX1 : Opcode := ⟨0x5A⟩
def dupX2 : Opcode := ⟨0x5B⟩
def dup2 : Opcode := ⟨0x5C⟩
def dup2X1 : Opcode := ⟨0x5D⟩
def dup2X2 : Opcode := ⟨0x5E⟩
def swap : Opcode := ⟨0x5F⟩
def ineg : Opcode := ⟨0x74⟩
def lneg : Opcode := ⟨0x75⟩
def fneg : Opcode := ⟨0x76⟩
def dneg : Opcode := ⟨0x77⟩
def iinc : Opcode := ⟨0x84⟩
def ifIcmpeq : Opcode := ⟨0x9F⟩
def ifAcmpne : Opcode := ⟨0xA6⟩
def goto : Opcode := ⟨0xA7⟩
def jsr : Opcode := ⟨0xA8⟩
def ret : Opcode := ⟨0xA9⟩
def tableswitch : Opcode := ⟨0xAA⟩
def lookupswitch : Opcode := ⟨0xAB⟩
def ireturn : Opcode := ⟨0xAC⟩
def lreturn : Opcode := ⟨0xAD⟩
def freturn : Opcode := ⟨0xAE⟩
def dreturn : Opcode := ⟨0xAF⟩
def areturn : Opcode := ⟨0xB0⟩
def returnVoid : Opcode := ⟨0xB1⟩
def getstatic : Opcode := ⟨0xB2⟩
def putstatic : Opcode := ⟨0xB3⟩
def getfield : Opcode := ⟨0xB4⟩
def putfield : Opcode := ⟨0xB5⟩
def invokevirtual : Opcode := ⟨0xB6⟩
def invokespecial : Opcode := ⟨0xB7⟩
def invokestatic : Opcode := ⟨0xB8⟩
def invokeinterface : Opcode := ⟨0xB9⟩
def invokedynamic : Opcode := ⟨0xBA⟩
def new : Opcode := ⟨0xBB⟩
def newarray : Opcode := ⟨0xBC⟩
def anewarray : Opcode := ⟨0xBD⟩
def arraylength : Opcode := ⟨0xBE⟩
def athrow : Opcode := ⟨0xBF⟩
def checkcast : Opcode := ⟨0xC0⟩
def instanceof : Opcode := ⟨0xC1⟩
def multianewarray : Opcode := ⟨0xC5⟩
def gotoW : Opcode := ⟨0xC8⟩
def jsrW : Opcode := ⟨0xC9⟩

/-- The mnemonic, or the byte of an opcode that is not in use. -/
def name (op : Opcode) : Text :=
  match op.info? with
  | some i => i.name
  | none => Text.ofString "UNKNOWN(0x" ++ Text.hexUpper 2 op.byte.toNat ++ [41]

/-- The opcode with a given mnemonic. -/
def ofName? (s : String) : Option Opcode :=
  (table.findIdx? fun i => (i.map (·.name)) = some s).map fun n => ⟨n.toUInt8⟩

/-- The shape of the instruction. -/
def shape? (op : Opcode) : Option Shape := op.info?.map (·.shape)

/-- Length of the instruction in bytes; zero when it varies or is unknown. -/
def size (op : Opcode) : Nat := (op.info?.map (·.size)).getD 0

/-- Kind of the operand or result where the opcode fixes it. -/
def kind (op : Opcode) : Kind := (op.info?.map (·.kind)).getD (.unknown 0)

/-- Kind that a conversion starts from. -/
def source (op : Opcode) : Kind := (op.info?.map (·.source)).getD (.unknown 0)

/-- Whether control never falls through to the next instruction. -/
def isUnconditional (op : Opcode) : Bool :=
  op ∈ [goto, gotoW, athrow, tableswitch, lookupswitch, ireturn, lreturn, freturn, dreturn,
    areturn, returnVoid]

/-- Whether the opcode is a load or a store with its slot in the byte. -/
def isShortLoad (op : Opcode) : Bool := iload0.byte ≤ op.byte && op.byte ≤ aload3.byte

@[inherit_doc isShortLoad]
def isShortStore (op : Opcode) : Bool := istore0.byte ≤ op.byte && op.byte ≤ astore3.byte

/-- The slot inside a short load or store. -/
def implicitSlot? (op : Opcode) : Option Nat :=
  if op.isShortLoad then some ((op.byte - iload0.byte).toNat % 4)
  else if op.isShortStore then some ((op.byte - istore0.byte).toNat % 4)
  else none

/-- The load of a kind with its slot in an operand. -/
def load? (k : Kind) : Option Opcode :=
  match k.computational with
  | .int => some iload
  | .long => some lload
  | .float => some fload
  | .double => some dload
  | .reference => some aload
  | _ => none

/-- The store of a kind with its slot in an operand. -/
def store? (k : Kind) : Option Opcode :=
  (load? k).map fun op => ⟨op.byte + (istore.byte - iload.byte)⟩

/-- The return of a kind. -/
def return? (k : Kind) : Option Opcode :=
  match k.computational with
  | .int => some ireturn
  | .long => some lreturn
  | .float => some freturn
  | .double => some dreturn
  | .reference => some areturn
  | .void => some returnVoid
  | _ => none

/-- The form of a load or store with the slot in the byte, for slots zero to
three. -/
def short? (base : Opcode) (slot : Int) : Option Opcode :=
  if slot < 0 || 3 < slot then none
  else if iload.byte ≤ base.byte && base.byte ≤ aload.byte then
    some ⟨iload0.byte + (base.byte - iload.byte) * 4 + slot.toNat.toUInt8⟩
  else if istore.byte ≤ base.byte && base.byte ≤ astore.byte then
    some ⟨istore0.byte + (base.byte - istore.byte) * 4 + slot.toNat.toUInt8⟩
  else none

/-- The form of a load or store with its slot in an operand; other opcodes are
their own base. -/
def base (op : Opcode) : Opcode :=
  if op.isShortLoad then ⟨iload.byte + (op.byte - iload0.byte) / 4⟩
  else if op.isShortStore then ⟨istore.byte + (op.byte - istore0.byte) / 4⟩
  else op

/-- The codes by which `newarray` names its component kind. -/
def arrayCodes : List (Nat × Kind) :=
  [(4, .boolean), (5, .char), (6, .float), (7, .double), (8, .byte), (9, .short), (10, .int),
    (11, .long)]

/-- The component kind of a code. -/
def arrayKind? (code : Nat) : Option Kind := (arrayCodes.find? fun r => r.1 = code).map (·.2)

/-- The code of a component kind. -/
def arrayCode? (k : Kind) : Option Nat := (arrayCodes.find? fun r => r.2 = k).map (·.1)

end Opcode

end JvmClass
