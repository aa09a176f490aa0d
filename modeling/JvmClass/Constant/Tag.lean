import JvmClass.Text

/-!
# Constant tags and handle kinds

The first byte of a constant says what it is. Method handles carry a second such
byte, the kind of reference they make.
-/

namespace JvmClass

/-- The kinds of constants of a pool. -/
inductive Tag where
  | utf8
  | integer
  | float
  | long
  | double
  | «class»
  | string
  | fieldRef
  | methodRef
  | interfaceMethodRef
  | nameAndType
  | methodHandle
  | methodType
  | dynamic
  | invokeDynamic
  | module
  | package
deriving DecidableEq, Hashable, Repr, Inhabited

namespace Tag

/-- The byte that marks a constant of this kind. -/
def byte : Tag → UInt8
  | .utf8 => 1
  | .integer => 3
  | .float => 4
  | .long => 5
  | .double => 6
  | .class => 7
  | .string => 8
  | .fieldRef => 9
  | .methodRef => 10
  | .interfaceMethodRef => 11
  | .nameAndType => 12
  | .methodHandle => 15
  | .methodType => 16
  | .dynamic => 17
  | .invokeDynamic => 18
  | .module => 19
  | .package => 20

/-- The tags in the order of their bytes. -/
def all : List Tag :=
  [.utf8, .integer, .float, .long, .double, .class, .string, .fieldRef, .methodRef,
    .interfaceMethodRef, .nameAndType, .methodHandle, .methodType, .dynamic, .invokeDynamic,
    .module, .package]

/-- The tag that a byte marks. -/
def ofByte? (b : UInt8) : Option Tag := all.find? fun t => t.byte = b

/-- The name of a tag. -/
def name : Tag → String
  | .utf8 => "Utf8"
  | .integer => "Integer"
  | .float => "Float"
  | .long => "Long"
  | .double => "Double"
  | .class => "Class"
  | .string => "String"
  | .fieldRef => "Fieldref"
  | .methodRef => "Methodref"
  | .interfaceMethodRef => "InterfaceMethodref"
  | .nameAndType => "NameAndType"
  | .methodHandle => "MethodHandle"
  | .methodType => "MethodType"
  | .dynamic => "Dynamic"
  | .invokeDynamic => "InvokeDynamic"
  | .module => "Module"
  | .package => "Package"

/-- How many indices a constant takes: the eight-byte numbers take two. -/
def slots : Tag → Nat
  | .long | .double => 2
  | _ => 1

/-- The name of the tag that a byte marks, or the byte itself. -/
def byteName (b : UInt8) : String :=
  match ofByte? b with
  | some t => t.name
  | none => s!"Tag({b.toNat})"

/-- The number of indices that a constant with this first byte takes. -/
def byteSlots (b : UInt8) : Nat := ((ofByte? b).map slots).getD 1

end Tag

/-- The reference kind of a method handle, any byte. -/
structure HandleKind where
  byte : UInt8
deriving DecidableEq, Repr, Inhabited

namespace HandleKind

/-- The names of the kinds one to nine. -/
def names : List String :=
  ["getField", "getStatic", "putField", "putStatic", "invokeVirtual", "invokeStatic",
    "invokeSpecial", "newInvokeSpecial", "invokeInterface"]

/-- The name of a kind. -/
def name (k : HandleKind) : String :=
  if k.byte = 0 then "invalid" else (names[k.byte.toNat - 1]?).getD "invalid"

/-- Whether the handle reads or writes a field. -/
def isField (k : HandleKind) : Bool := 1 ≤ k.byte && k.byte ≤ 4

/-- Whether a handle of this kind may refer to a member with the given tag. -/
def accepts (k : HandleKind) (target : Tag) : Bool :=
  if k.isField then target = .fieldRef
  else if k.byte = 5 || k.byte = 8 then target = .methodRef
  else if k.byte = 6 || k.byte = 7 then target = .methodRef || target = .interfaceMethodRef
  else k.byte = 9 && target = .interfaceMethodRef

end HandleKind

end JvmClass
