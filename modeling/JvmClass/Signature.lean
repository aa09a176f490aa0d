import JvmClass.Error

/-!
# Generic signatures

Signature attributes spell types with their type arguments. A class type is a
chain of names, each with arguments, where an inner name hangs off its outer type;
everything else is a primitive letter, a type variable or an array.
-/

namespace JvmClass.Signature

mutual

/-- A type signature. -/
inductive JavaType where
  /-- A primitive type, or `V` in a method result. -/
  | base (letter : UInt8)
  | var (name : Text)
  | array (component : JavaType)
  | «class» (type : ClassType)

/-- A class type with its type arguments. -/
inductive ClassType where
  /-- A top-level type, by its internal name. -/
  | top (name : Text) (args : List TypeArg)
  /-- A member type, by its simple name. -/
  | inner (outer : ClassType) (name : Text) (args : List TypeArg)

/-- A type argument: a type, a wildcard with a bound, or a bare wildcard. -/
inductive TypeArg where
  | exact (type : JavaType)
  | extends (type : JavaType)
  | super (type : JavaType)
  | any

end

instance : Inhabited JavaType := ⟨.base 0⟩

/-- A declared type parameter with its bounds. -/
structure TypeParam where
  name : Text
  classBound : Option JavaType
  interfaceBounds : List JavaType

/-- The signature of a class declaration. -/
structure ClassSig where
  typeParams : List TypeParam
  superclass : ClassType
  interfaces : List ClassType

/-- The signature of a method declaration. -/
structure MethodSig where
  typeParams : List TypeParam
  params : List JavaType
  result : JavaType
  throws : List JavaType

mutual

/-- The text of a type. -/
def JavaType.text : JavaType → Text
  | .base letter => [letter]
  | .var name => Text.byte 'T' :: name ++ [59]
  | .array component => 91 :: component.text
  | .class type => Text.byte 'L' :: type.body ++ [59]

/-- The text of a class type between `L` and `;`. -/
def ClassType.body : ClassType → Text
  | .top name args => name ++ argsText args
  | .inner outer name args => outer.body ++ [46] ++ name ++ argsText args

/-- The text of a type argument. -/
def TypeArg.text : TypeArg → Text
  | .exact type => type.text
  | .extends type => 43 :: type.text
  | .super type => 45 :: type.text
  | .any => [42]

/-- The text of an argument list, nothing when there is none. -/
def argsText : List TypeArg → Text
  | [] => []
  | arg :: args => 60 :: arg.text ++ restText args

/-- The text of further arguments and the closing bracket. -/
def restText : List TypeArg → Text
  | [] => [62]
  | arg :: args => arg.text ++ restText args

end

/-- The text of a class type. -/
def ClassType.text (c : ClassType) : Text := (JavaType.class c).text

/-- The binary name: inner names are joined to their outer class with `$`. -/
def ClassType.internalName : ClassType → Text
  | .top name _ => name
  | .inner outer name _ => outer.internalName ++ [36] ++ name

/-- The text of a type parameter. -/
def TypeParam.text (p : TypeParam) : Text :=
  p.name ++ [58] ++ (p.classBound.map (·.text)).getD []
    ++ p.interfaceBounds.flatMap fun b => 58 :: b.text

/-- The text of a type parameter list, nothing when there is none. -/
def paramsText (ps : List TypeParam) : Text :=
  if ps.isEmpty then [] else [60] ++ ps.flatMap (·.text) ++ [62]

/-- The text of a class signature. -/
def ClassSig.text (s : ClassSig) : Text :=
  paramsText s.typeParams ++ s.superclass.text ++ s.interfaces.flatMap (·.text)

/-- The text of a method signature. -/
def MethodSig.text (s : MethodSig) : Text :=
  paramsText s.typeParams ++ [40] ++ s.params.flatMap (·.text) ++ [41] ++ s.result.text
    ++ s.throws.flatMap fun t => 94 :: t.text

end JvmClass.Signature
