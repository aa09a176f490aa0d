import JvmClass.Constant.Entry

/-!
# Annotations

An annotation names its interface and gives values to elements of it. Values nest:
a value can be an annotation or an array of values.
-/

namespace JvmClass

mutual

/-- The value of an annotation element. -/
inductive AnnotationValue where
  /-- No value. A class file never holds one, so it cannot be written either. -/
  | missing
  /-- A primitive value or a text; the byte tells which. -/
  | const (kind : UInt8) (value : Option Entry)
  | enum (type constant : Option Utf8Entry)
  | «class» (descriptor : Option Utf8Entry)
  | nested (marker : Annotation)
  | array (values : List AnnotationValue)

/-- An annotation: the descriptor of its interface and its elements. -/
inductive Annotation where
  | mk (type : Option Utf8Entry) (elements : List AnnotationElement)

/-- The name and value of an annotation element. -/
inductive AnnotationElement where
  | mk (name : Option Utf8Entry) (value : AnnotationValue)

end

instance : Inhabited AnnotationValue := ⟨.missing⟩
instance : Inhabited Annotation := ⟨.mk none []⟩
instance : Inhabited AnnotationElement := ⟨.mk none .missing⟩

namespace Annotation

def type : Annotation → Option Utf8Entry
  | .mk type _ => type

def elements : Annotation → List AnnotationElement
  | .mk _ elements => elements

end Annotation

namespace AnnotationElement

def name : AnnotationElement → Option Utf8Entry
  | .mk name _ => name

def value : AnnotationElement → AnnotationValue
  | .mk _ value => value

end AnnotationElement

/-- An annotation on a use of a type. Target and path stay encoded. -/
structure TypeAnnotation where
  targetType : UInt8
  targetInfo : Bytes
  /-- Two bytes for each step. -/
  typePath : Bytes
  marker : Annotation
deriving Inhabited

/-- How the part of a type annotation that says where it applies is laid out. -/
inductive TargetLayout where
  | fixed (size : Nat)
  /-- A two-byte count and six bytes for each row. -/
  | rows
deriving DecidableEq, Repr

/-- The layout that a target type has, if there is such a target type. -/
def TargetLayout.of? (targetType : Nat) : Option TargetLayout :=
  if targetType = 0x00 || targetType = 0x01 || targetType = 0x16 then some (.fixed 1)
  else if (0x10 ≤ targetType && targetType ≤ 0x12) || targetType = 0x17 then some (.fixed 2)
  else if 0x13 ≤ targetType && targetType ≤ 0x15 then some (.fixed 0)
  else if targetType = 0x40 || targetType = 0x41 then some .rows
  else if 0x42 ≤ targetType && targetType ≤ 0x46 then some (.fixed 2)
  else if 0x47 ≤ targetType && targetType ≤ 0x4B then some (.fixed 3)
  else none

end JvmClass
