import JvmClass.Build.CodeDraft

/-!
# Fields and methods under construction

A draft of a member collects its flags, attributes and body. A draft that is written
at once encodes a body when it arrives; otherwise the body is kept for whoever takes
the member.
-/

namespace JvmClass

/-- A field under construction. -/
structure FieldDraft where
  /-- Whether the field is written as soon as it is complete. -/
  writes : Bool
  /-- The field that it is made from. -/
  source : Option FieldModel
  name : Utf8Entry
  descriptor : Utf8Entry
  flags : AccessFlags
  attributes : Array Attribute
deriving Inhabited

/-- An action on a field. -/
abbrev FieldM (σ : Type) := Drafting σ FieldDraft

/-- Where elements of a field go. -/
abbrev FieldOutlet (σ : Type) := Outlet σ FieldDraft FieldElement

/-- A transform of fields. -/
abbrev FieldTransform (σ : Type) := Transform σ FieldDraft FieldElement

instance : Draft FieldDraft FieldElement where
  level := .field
  collects d := !d.writes
  take
    | .flags f => modify fun d => { d with flags := f }
    | .attribute a => modify fun d => { d with attributes := d.attributes.push a }
  collects_take e _ _ := by cases e <;> rfl
  pool_take e _ _ _ := by cases e <;> rfl

namespace FieldDraft

variable {σ : Type}

/-- A draft of a new field. -/
def start (writes : Bool) (name descriptor : Utf8Entry) (flags : AccessFlags) : FieldDraft :=
  { writes, source := none, name, descriptor, flags, attributes := #[] }

/-- A draft of a field made from another. -/
def ofModel (writes : Bool) (f : FieldModel) : FieldDraft :=
  { writes, source := some f, name := f.name, descriptor := f.descriptor, flags := f.flags
    attributes := #[] }

/-- The collected field. -/
def collected (d : FieldDraft) : BuiltField :=
  { flags := d.flags, name := d.name, descriptor := d.descriptor
    attributes := d.attributes.toList }

/-- The field as a class file holds it. -/
def finish (d : FieldDraft) : Build σ (Except Error Bytes) := do
  if let some e ← Build.error? then return .error e
  Emit.finish do
    let name ← Emit.refUtf8 (some d.name)
    let descriptor ← Emit.refUtf8 (some d.descriptor)
    let table ← Emit.itemTable
      (Emit.attributeItems none (fun _ => throw .outOfBounds) (d.attributes.toList.map some))
    return u2 d.flags.bits.toNat ++ name ++ descriptor ++ table

end FieldDraft

/-- Walks a field through a transform into this one. -/
def FieldOutlet.replay {σ : Type} (o : FieldOutlet σ) (source : FieldModel)
    (t : Option (FieldTransform σ)) : FieldM σ Unit := do
  if (← Drafting.session Build.error?).isSome then return
  Drafting.session (Build.failOn (← (Transform.run source.traversal t o).run))

/-- An element of a method under construction. -/
inductive MethodPart where
  | attribute (a : Attribute)
  /-- A body that is already encoded. -/
  | encoded (body : Bytes)
  /-- A body to be written later. -/
  | code (c : BuiltCode)
deriving Inhabited

/-- A method under construction. -/
structure MethodDraft where
  /-- Whether the method is written as soon as it is complete. -/
  writes : Bool
  /-- The method that it is made from. -/
  source : Option MethodModel
  name : Utf8Entry
  descriptor : Utf8Entry
  flags : AccessFlags
  parts : Array MethodPart
deriving Inhabited

/-- An action on a method. -/
abbrev MethodM (σ : Type) := Drafting σ MethodDraft

namespace MethodDraft

variable {σ : Type}

/-- A draft of a new method. -/
def start (writes : Bool) (name descriptor : Utf8Entry) (flags : AccessFlags) : MethodDraft :=
  { writes, source := none, name, descriptor, flags, parts := #[] }

/-- A draft of a method made from another. -/
def ofModel (writes : Bool) (m : MethodModel) : MethodDraft :=
  { writes, source := some m, name := m.name, descriptor := m.descriptor, flags := m.flags
    parts := #[] }

/-- The parsed descriptor. -/
def parsed (d : MethodDraft) : Except Error MethodDescriptor :=
  (MethodDescriptor.parse d.descriptor.text).mapError fun e =>
    .misuse (.methodDescriptor d.name.text e)

/-- Adds a part. -/
def add (p : MethodPart) : MethodM σ Unit := modify fun d => { d with parts := d.parts.push p }

/-- Adds an encoded body, or records the error instead. -/
def addEncoded (outcome : Except Error Bytes) : MethodM σ Unit :=
  match outcome with
  | .ok body => add (.encoded body)
  | .error e => Drafting.session (Build.fail e)

/-- Takes a body that a builder put together. -/
def takeCode (c : BuiltCode) : MethodM σ Unit := do
  let d ← get
  if d.writes then
    match d.parsed with
    | .error e => Drafting.session (Build.fail e)
    | .ok descriptor =>
      addEncoded (← Drafting.session (CodeDraft.encode d.flags.isStatic descriptor (.built c)))
  else add (.code c)

/-- Whatever becomes of an encoded body, the draft is written as before. -/
theorem writes_addEncoded (outcome : Except Error Bytes) (d : MethodDraft) (s : Session σ) :
    ((addEncoded outcome : MethodM σ Unit) d s).1.2.writes = d.writes := by
  cases outcome <;> rfl

/-- A method that takes a body goes on to be written, or not. -/
theorem writes_takeCode (c : BuiltCode) (d : MethodDraft) (s : Session σ) :
    ((takeCode c : MethodM σ Unit) d s).1.2.writes = d.writes := by
  change ((if d.writes then _ else _ : MethodM σ Unit) d s).1.2.writes = _
  split
  · cases d.parsed with
    | error e => rfl
    | ok descriptor => exact writes_addEncoded _ _ _
  · rfl

/-- A body that is kept for later asks nothing of the pool. -/
theorem pool_takeCode (c : BuiltCode) (d : MethodDraft) (s : Session σ) (kept : d.writes = false) :
    ((takeCode c : MethodM σ Unit) d s).2.pool = s.pool := by
  change ((if d.writes then _ else _ : MethodM σ Unit) d s).2.pool = _
  rw [if_neg (by simp [kept])]
  rfl

instance : Draft MethodDraft MethodElement where
  level := .method
  collects d := !d.writes
  take
    | .flags f => modify fun d => { d with flags := f }
    | .code c => takeCode c
    | .attribute a => add (.attribute a)
  collects_take e d s := by
    cases e with
    | flags f => rfl
    | code c => exact congrArg (!·) (writes_takeCode c d s)
    | «attribute» a => rfl
  pool_take e d s collects := by
    cases e with
    | flags f => rfl
    | code c => exact pool_takeCode c d s (by simpa using collects)
    | «attribute» a => rfl

/-- The collected method. -/
def collected (d : MethodDraft) : BuiltMethod :=
  { flags := d.flags, name := d.name, descriptor := d.descriptor
    elements := d.parts.toList.filterMap fun
      | .attribute a => some (.attribute a)
      | .code c => some (.code c)
      | .encoded _ => none }

/-- A body of an input, encoded for the pool under construction. -/
def encodeInput (c : InputCode) : Emit σ Bytes := do
  let descriptor ← liftM c.method.methodDescriptor
  liftM (← ExceptT.lift (StateT.lift
    (CodeDraft.encode c.method.flags.isStatic descriptor (.input c))))

/-- A part as the attribute table takes it. -/
def item (p : MethodPart) : List (Option (Emit.Item σ)) :=
  match p with
  | .attribute a => Emit.attributeItems none encodeInput [some a]
  | .encoded body =>
    [some { name := "Code", repeatable := false, write := Emit.named "Code" (return body) }]
  | .code _ => []

/-- The method as a class file holds it. -/
def finish (d : MethodDraft) : Build σ (Except Error Bytes) := do
  if let some e ← Build.error? then return .error e
  Emit.finish do
    let name ← Emit.refUtf8 (some d.name)
    let descriptor ← Emit.refUtf8 (some d.descriptor)
    let table ← Emit.itemTable (d.parts.toList.flatMap item)
    return u2 d.flags.bits.toNat ++ name ++ descriptor ++ table

end MethodDraft

/-- Where elements of a method go. -/
abbrev MethodOutlet (σ : Type) := Outlet σ MethodDraft MethodElement

/-- A transform of methods. -/
abbrev MethodTransform (σ : Type) := Transform σ MethodDraft MethodElement

namespace MethodOutlet

variable {σ τ : Type}

/-- Whether a body is collected before it is handed on. -/
def collectsCode (o : MethodOutlet σ) (d : MethodDraft) : Bool :=
  match o with
  | .terminal => !d.writes
  | .stage _ => true

/-- Adds a body that `fill` fills in, made from another if there is one. -/
def withCode (o : MethodOutlet σ) (source : Option CodeModel)
    (fill : CodeDraft → Build σ (Except Error Unit × CodeDraft)) : MethodM σ Unit := do
  if (← Drafting.session Build.error?).isSome then return
  let d ← get
  match d.parsed with
  | .error e => Drafting.session (Build.fail e)
  | .ok descriptor =>
    let static := d.flags.isStatic
    if o.collectsCode d then
      let parent := d.source.map fun m => m.name.text
      let (outcome, code) ← Drafting.session (fill (.collecting static descriptor source parent))
      match outcome with
      | .error e => Drafting.session (Build.fail e)
      | .ok () => o.emit (.code code.collected)
    else
      let (outcome, code) ← Drafting.session (fill (.writing static descriptor source))
      match outcome with
      | .error e => Drafting.session (Build.fail e)
      | .ok () => MethodDraft.addEncoded (← Drafting.session code.finish)

/-- Adds a body that a handler fills in. -/
def code (o : MethodOutlet σ) (handler : CodeOutlet σ → ExceptT Error (CodeM σ) Unit) :
    MethodM σ Unit :=
  o.withCode none fun d => (handler .terminal).run.run d

/-- Adds a body that is another one, transformed. -/
def transformCode (o : MethodOutlet σ) (source : CodeModel) (t : Option (CodeTransform σ)) :
    MethodM σ Unit :=
  o.withCode (some source) fun d => (Transform.run source.traversal t .terminal).run.run d

/-- Adds a body that is another one, changed by a transform with a value of its own. -/
def transformCodeWith (o : MethodOutlet σ) (source : CodeModel) (own : τ)
    (t : CodeTransform (σ × τ)) : MethodM σ Unit :=
  o.withCode (some source) fun d => do
    let (outcome, _) ← Build.beside own
      ((Transform.run source.traversal (some t) .terminal).run.run d)
    return outcome

/-- Walks a method through a transform into this one. -/
def replay (o : MethodOutlet σ) (source : MethodModel) (t : Option (MethodTransform σ)) :
    MethodM σ Unit := do
  if (← Drafting.session Build.error?).isSome then return
  Drafting.session (Build.failOn (← (Transform.run source.traversal t o).run))

end MethodOutlet

/-- Transforms the body of a method. -/
def MethodTransform.code {σ : Type} (t : Option (CodeTransform σ)) : MethodTransform σ :=
  .ofAccept fun o e => ExceptT.lift do
    match e.code? with
    | some c => MethodOutlet.transformCode o c t
    | none => o.emit e

end JvmClass
