import JvmClass.Signature

/-!
# Reading signatures

Recursive descent over the rest of the text. Every reader says in its type that it leaves
less of the text than it was given, or no more where it may take nothing, so reading ends:
each step recurs into a shorter text, or into the same one at a form further down the grammar.
-/

namespace JvmClass.Signature

/-- A problem, and the text that was left when it was found. -/
abbrev Stop := SignatureProblem × Text

/-- What is left of `s` after something was taken off its front. -/
abbrev Rest (s : Text) := { rest : Text // rest.length < s.length }

/-- What is left of `s` after something or nothing was taken off its front. -/
abbrev Remainder (s : Text) := { rest : Text // rest.length ≤ s.length }

/-- Takes the letter `c`. -/
def expect (c : Char) (s : Text) : Except Stop (Unit × Rest s) :=
  match s with
  | b :: rest =>
    if b = Text.byte c then .ok ((), ⟨rest, by simp⟩) else .error (.expected c, b :: rest)
  | [] => .error (.expected c, [])

/-- Reads up to the first byte of `stop`, which must not come at once. -/
def identifier (stop s : Text) : Except Stop (Text × Rest s) :=
  match _name : s.takeWhile (· ∉ stop) with
  | [] => .error (.identifier, s)
  | c :: name => .ok (c :: name, ⟨s.dropWhile (· ∉ stop), by
      have whole : s.takeWhile (· ∉ stop) ++ s.dropWhile (· ∉ stop) = s :=
        List.takeWhile_append_dropWhile
      have := congrArg List.length whole
      simp only [_name, List.length_append, List.length_cons] at this
      omega⟩)

/-- Reads a type variable from its `T` on. -/
def typeVar (s : Text) : Except Stop (JavaType × Rest s) := do
  let (_, ⟨s₁, _⟩) ← expect 'T' s
  let (name, ⟨s₂, _⟩) ← identifier ";<>:/.[" s₁
  let (_, ⟨s₃, _⟩) ← expect ';' s₂
  return (.var name, ⟨s₃, by omega⟩)

/-- The letters of primitive types. -/
def baseLetters : Text := "BCDFIJSZ"

mutual

/-- Reads a type. -/
def javaType (s : Text) : Except Stop (JavaType × Rest s) :=
  match s with
  | [] => .error (.reference, [])
  | c :: rest =>
    if c ∈ baseLetters then .ok (.base c, ⟨rest, by simp⟩) else referenceType (c :: rest)
termination_by (s.length, 2)

/-- Reads a class type, type variable or array. -/
def referenceType (s : Text) : Except Stop (JavaType × Rest s) :=
  match s with
  | [] => .error (.reference, [])
  | c :: rest =>
    if c = Text.byte 'L' then do
      let (type, s₁) ← classType (c :: rest)
      return (.class type, s₁)
    else if c = Text.byte 'T' then typeVar (c :: rest)
    else if c = 91 then do
      let (component, ⟨s₁, _⟩) ← javaType rest
      return (.array component, ⟨s₁, by simp only [List.length_cons]; omega⟩)
    else .error (.reference, c :: rest)
termination_by (s.length, 1)

/-- Reads a class type from its `L` to its `;`. -/
def classType (s : Text) : Except Stop (ClassType × Rest s) := do
  let (_, ⟨s₁, _⟩) ← expect 'L' s
  let (name, ⟨s₂, _⟩) ← identifier "<.;" s₁
  let (args, ⟨s₃, _⟩) ← typeArgs s₂
  let (type, ⟨s₄, _⟩) ← memberTypes (.top name args) s₃
  let (_, ⟨s₅, _⟩) ← expect ';' s₄
  return (type, ⟨s₅, by omega⟩)
termination_by (s.length, 0)

/-- Reads the member names that follow an outer type. -/
def memberTypes (outer : ClassType) (s : Text) : Except Stop (ClassType × Remainder s) :=
  match s with
  | [] => .ok (outer, ⟨[], by simp⟩)
  | c :: rest =>
    if c = 46 then do
      let (name, ⟨s₁, _⟩) ← identifier "<.;/" rest
      let (args, ⟨s₂, _⟩) ← typeArgs s₁
      let (type, ⟨s₃, _⟩) ← memberTypes (.inner outer name args) s₂
      return (type, ⟨s₃, by simp only [List.length_cons]; omega⟩)
    else .ok (outer, ⟨c :: rest, by simp⟩)
termination_by (s.length, 0)

/-- Reads an argument list, if there is one; it must not be empty. -/
def typeArgs (s : Text) : Except Stop (List TypeArg × Remainder s) :=
  match s with
  | [] => .ok ([], ⟨[], by simp⟩)
  | c :: rest =>
    if c = 60 then do
      let (args, ⟨s₁, _⟩) ← argsUntilClose rest
      if args.isEmpty then .error (.noTypeArguments, s₁)
      else .ok (args, ⟨s₁, by simp only [List.length_cons]; omega⟩)
    else .ok ([], ⟨c :: rest, by simp⟩)
termination_by (s.length, 0)

/-- Reads arguments up to the closing bracket. -/
def argsUntilClose (s : Text) : Except Stop (List TypeArg × Rest s) :=
  match s with
  | [] => .error (.reference, [])
  | c :: rest =>
    if c = 62 then .ok ([], ⟨rest, by simp⟩)
    else do
      let (arg, ⟨s₁, _⟩) ← typeArg (c :: rest)
      let (args, ⟨s₂, _⟩) ← argsUntilClose s₁
      return (arg :: args, ⟨s₂, by omega⟩)
termination_by (s.length, 3)

/-- Reads an argument. -/
def typeArg (s : Text) : Except Stop (TypeArg × Rest s) :=
  match s with
  | [] => .error (.reference, [])
  | c :: rest =>
    if c = 42 then .ok (.any, ⟨rest, by simp⟩)
    else if c = 43 then do
      let (type, ⟨s₁, _⟩) ← referenceType rest
      return (.extends type, ⟨s₁, by simp only [List.length_cons]; omega⟩)
    else if c = 45 then do
      let (type, ⟨s₁, _⟩) ← referenceType rest
      return (.super type, ⟨s₁, by simp only [List.length_cons]; omega⟩)
    else do
      let (type, s₁) ← referenceType (c :: rest)
      return (.exact type, s₁)
termination_by (s.length, 2)

end

/-- Reads the class bound of a type parameter, if there is one. -/
def classBound (s : Text) : Except Stop (Option JavaType × Remainder s) :=
  match s with
  | [] => .ok (none, ⟨[], by simp⟩)
  | c :: rest =>
    if c = Text.byte 'L' || c = Text.byte 'T' || c = 91 then do
      let (bound, ⟨s₁, _⟩) ← referenceType (c :: rest)
      return (some bound, ⟨s₁, by omega⟩)
    else .ok (none, ⟨c :: rest, by simp⟩)

/-- Reads the interface bounds of a type parameter, each after a colon. -/
def interfaceBounds (s : Text) : Except Stop (List JavaType × Remainder s) :=
  match s with
  | [] => .ok ([], ⟨[], by simp⟩)
  | c :: rest =>
    if c = 58 then do
      let (bound, ⟨s₁, _⟩) ← referenceType rest
      let (bounds, ⟨s₂, _⟩) ← interfaceBounds s₁
      return (bound :: bounds, ⟨s₂, by simp only [List.length_cons]; omega⟩)
    else .ok ([], ⟨c :: rest, by simp⟩)
termination_by s.length

/-- Reads one type parameter. -/
def typeParam (s : Text) : Except Stop (TypeParam × Rest s) := do
  let (name, ⟨s₁, _⟩) ← identifier ":<>;/.[" s
  let (_, ⟨s₂, _⟩) ← expect ':' s₁
  let (classBound, ⟨s₃, _⟩) ← classBound s₂
  let (interfaceBounds, ⟨s₄, _⟩) ← interfaceBounds s₃
  return (⟨name, classBound, interfaceBounds⟩, ⟨s₄, by omega⟩)

/-- Reads type parameters up to the closing bracket. -/
def paramsUntilClose (s : Text) : Except Stop (List TypeParam × Rest s) :=
  match s with
  | [] => .error (.identifier, [])
  | c :: rest =>
    if c = 62 then .ok ([], ⟨rest, by simp⟩)
    else do
      let (param, ⟨s₁, _⟩) ← typeParam (c :: rest)
      let (params, ⟨s₂, _⟩) ← paramsUntilClose s₁
      return (param :: params, ⟨s₂, by omega⟩)
termination_by s.length
decreasing_by assumption

/-- Reads a type parameter list, if there is one; it must not be empty. -/
def typeParams (s : Text) : Except Stop (List TypeParam × Remainder s) :=
  match s with
  | [] => .ok ([], ⟨[], by simp⟩)
  | c :: rest =>
    if c = 60 then do
      let (params, ⟨s₁, _⟩) ← paramsUntilClose rest
      if params.isEmpty then .error (.noTypeParameters, s₁)
      else .ok (params, ⟨s₁, by simp only [List.length_cons]; omega⟩)
    else .ok ([], ⟨c :: rest, by simp⟩)

/-- Reads class types to the end of the text. -/
def classTypes (s : Text) : Except Stop (List ClassType × Remainder s) :=
  match s with
  | [] => .ok ([], ⟨[], by simp⟩)
  | c :: rest => do
    let (type, ⟨s₁, _⟩) ← classType (c :: rest)
    let (types, ⟨s₂, _⟩) ← classTypes s₁
    return (type :: types, ⟨s₂, by omega⟩)
termination_by s.length
decreasing_by assumption

/-- Reads types up to the closing parenthesis. -/
def typesUntilClose (s : Text) : Except Stop (List JavaType × Remainder s) :=
  if s.head? = some 41 then .ok ([], ⟨s, Nat.le_refl _⟩)
  else do
    let (type, ⟨s₁, _⟩) ← javaType s
    let (types, ⟨s₂, _⟩) ← typesUntilClose s₁
    return (type :: types, ⟨s₂, by omega⟩)
termination_by s.length

/-- Reads the type of a result, which may be `V` for none. -/
def resultType (s : Text) : Except Stop (JavaType × Rest s) :=
  match s with
  | [] => .error (.reference, [])
  | c :: rest =>
    if c = Text.byte 'V' then .ok (.base c, ⟨rest, by simp⟩) else javaType (c :: rest)

/-- Reads the type of what is thrown: a type variable or a class. -/
def thrownType (s : Text) : Except Stop (JavaType × Rest s) :=
  if s.head? = some (Text.byte 'T') then typeVar s
  else do
    let (type, s₁) ← classType s
    return (.class type, s₁)

/-- Reads the thrown types, each after a caret. -/
def thrownTypes (s : Text) : Except Stop (List JavaType × Remainder s) :=
  match s with
  | [] => .ok ([], ⟨[], by simp⟩)
  | c :: rest =>
    if c = 94 then do
      let (type, ⟨s₁, _⟩) ← thrownType rest
      let (types, ⟨s₂, _⟩) ← thrownTypes s₁
      return (type :: types, ⟨s₂, by simp only [List.length_cons]; omega⟩)
    else .ok ([], ⟨c :: rest, by simp⟩)
termination_by s.length

/-- Reads a class signature off the front of a text. -/
def classSig (s : Text) : Except Stop (ClassSig × Rest s) := do
  let (typeParams, ⟨s₁, _⟩) ← typeParams s
  let (superclass, ⟨s₂, _⟩) ← classType s₁
  let (interfaces, ⟨s₃, _⟩) ← classTypes s₂
  return (⟨typeParams, superclass, interfaces⟩, ⟨s₃, by omega⟩)

/-- Reads a method signature off the front of a text. -/
def methodSig (s : Text) : Except Stop (MethodSig × Rest s) := do
  let (typeParams, ⟨s₁, _⟩) ← typeParams s
  let (_, ⟨s₂, _⟩) ← expect '(' s₁
  let (params, ⟨s₃, _⟩) ← typesUntilClose s₂
  let (_, ⟨s₄, _⟩) ← expect ')' s₃
  let (result, ⟨s₅, _⟩) ← resultType s₄
  let (throws, ⟨s₆, _⟩) ← thrownTypes s₅
  return (⟨typeParams, params, result, throws⟩, ⟨s₆, by omega⟩)

/-- Runs a reader on a whole text, which it must take to the end. -/
def complete {α : Type} (read : (s : Text) → Except Stop (α × Rest s)) (s : Text) :
    Except SignatureError α :=
  match read s with
  | .ok (value, ⟨[], _⟩) => .ok value
  | .ok (_, ⟨rest, _⟩) => .error ⟨s, s.length - rest.length, .trailing⟩
  | .error (problem, rest) => .error ⟨s, s.length - rest.length, problem⟩

/-- Reads a type, as on fields, record components and local variables. -/
def parseType : Text → Except SignatureError JavaType := complete javaType

/-- Reads a class signature. -/
def parseClass : Text → Except SignatureError ClassSig := complete classSig

/-- Reads a method signature. -/
def parseMethod : Text → Except SignatureError MethodSig := complete methodSig

end JvmClass.Signature
