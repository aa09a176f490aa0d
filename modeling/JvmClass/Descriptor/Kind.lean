import JvmClass.Text

/-!
# Kinds of values

The virtual machine sorts values by kind: the primitive kinds, references and
the absence of a value. Kinds are numbered, and numbers past the last kind are
kept apart because a caller may ask about any of them.
-/

namespace JvmClass

/-- The kind of a value on the operand stack or in a local variable. -/
inductive Kind where
  | byte
  | short
  | char
  | int
  | long
  | float
  | double
  | boolean
  | reference
  | void
  /-- A number that names no kind. Zero is the one for "not a descriptor". -/
  | unknown (number : Nat)
deriving DecidableEq, Repr, Inhabited

namespace Kind

/-- The kinds that have a name, in the order of their numbers, which start at
one. -/
def named : List Kind :=
  [.byte, .short, .char, .int, .long, .float, .double, .boolean, .reference, .void]

/-- The kind with a given number. -/
def ofNumber (n : Nat) : Kind :=
  match n with
  | 0 => .unknown 0
  | i + 1 => (named[i]?).getD (.unknown n)

/-- The number of a kind. -/
def number : Kind → Nat
  | .byte => 1
  | .short => 2
  | .char => 3
  | .int => 4
  | .long => 5
  | .float => 6
  | .double => 7
  | .boolean => 8
  | .reference => 9
  | .void => 10
  | .unknown n => n

/-- The name of a kind. -/
def name : Kind → String
  | .byte => "byte"
  | .short => "short"
  | .char => "char"
  | .int => "int"
  | .long => "long"
  | .float => "float"
  | .double => "double"
  | .boolean => "boolean"
  | .reference => "reference"
  | .void => "void"
  | .unknown _ => "invalid"

/-- The kind with a given name. -/
def ofName? (s : String) : Option Kind := named.find? fun k => k.name = s

/-- A descriptor of the kind: one letter for a primitive kind, the root class for
a reference and nothing where there is none. -/
def descriptor : Kind → Text
  | .byte => "B"
  | .short => "S"
  | .char => "C"
  | .int => "I"
  | .long => "J"
  | .float => "F"
  | .double => "D"
  | .boolean => "Z"
  | .reference => "Ljava/lang/Object;"
  | .void => "V"
  | .unknown _ => []

/-- How many local or stack slots a value takes. -/
def slots : Kind → Nat
  | .long | .double => 2
  | .void => 0
  | _ => 1

/-- Whether a value of this kind takes two slots. -/
def isWide (k : Kind) : Bool := k.slots = 2

/-- Whether the kind is primitive: a named kind other than reference and void. -/
def isPrimitive : Kind → Bool
  | .reference | .void | .unknown _ => false
  | _ => true

/-- The kind as the operand stack holds it: the small integer kinds are widened. -/
def computational : Kind → Kind
  | .byte | .short | .char | .boolean => .int
  | k => k

/-- The kind named by the first letter of a field or return descriptor. -/
def ofDescriptor : Text → Kind
  | [] => .unknown 0
  | c :: _ =>
    if c = Text.byte 'B' then .byte
    else if c = Text.byte 'S' then .short
    else if c = Text.byte 'C' then .char
    else if c = Text.byte 'I' then .int
    else if c = Text.byte 'J' then .long
    else if c = Text.byte 'F' then .float
    else if c = Text.byte 'D' then .double
    else if c = Text.byte 'Z' then .boolean
    else if c = Text.byte 'V' then .void
    else if c = Text.byte 'L' || c = Text.byte '[' then .reference
    else .unknown 0

end Kind

end JvmClass
