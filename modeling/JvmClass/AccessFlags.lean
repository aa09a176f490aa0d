import JvmClass.Text

/-!
# Access flags

The sixteen-bit word of access and property flags that classes, members, inner
classes and parameters carry. Some bits mean one thing on a class and another on
a member; a listing shows both names.
-/

namespace JvmClass

/-- A word of access flags. -/
structure AccessFlags where
  bits : UInt16
deriving DecidableEq, Repr, Inhabited

namespace AccessFlags

/-- The flags of a number, which wraps to sixteen bits. -/
def ofInt (n : Int) : AccessFlags := ⟨UInt16.ofInt n⟩

/-- The flag of a class or member that is visible everywhere. -/
def «public» : AccessFlags := ⟨0x0001⟩

/-- The flag of a member that belongs to its class and not to an instance. -/
def static : AccessFlags := ⟨0x0008⟩

/-- Whether every bit of `mask` is set. -/
def has (f mask : AccessFlags) : Bool := f.bits &&& mask.bits == mask.bits

/-- Whether the given bit is set. -/
def test (f : AccessFlags) (bit : UInt16) : Bool := f.bits &&& bit != 0

def isPublic (f : AccessFlags) : Bool := f.test 0x0001
def isPrivate (f : AccessFlags) : Bool := f.test 0x0002
def isStatic (f : AccessFlags) : Bool := f.test 0x0008
def isFinal (f : AccessFlags) : Bool := f.test 0x0010
def isNative (f : AccessFlags) : Bool := f.test 0x0100
def isInterface (f : AccessFlags) : Bool := f.test 0x0200
def isAbstract (f : AccessFlags) : Bool := f.test 0x0400
def isSynthetic (f : AccessFlags) : Bool := f.test 0x1000

/-- The name of each bit, lowest first. -/
def names : List (UInt16 × String) :=
  [(0x0001, "public"), (0x0002, "private"), (0x0004, "protected"), (0x0008, "static"),
    (0x0010, "final"), (0x0020, "super/synchronized"), (0x0040, "volatile/bridge"),
    (0x0080, "transient/varargs"), (0x0100, "native"), (0x0200, "interface"),
    (0x0400, "abstract"), (0x0800, "strict"), (0x1000, "synthetic"), (0x2000, "annotation"),
    (0x4000, "enum"), (0x8000, "module/mandated")]

/-- The names of the set bits, lowest first, with blanks between them. -/
def text (f : AccessFlags) : Text :=
  Text.join [32] ((names.filter fun (bit, _) => f.test bit).map fun (_, name) => name)

end AccessFlags

end JvmClass
