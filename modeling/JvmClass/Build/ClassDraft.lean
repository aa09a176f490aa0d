import JvmClass.Build.MemberDraft

/-!
# Classes under construction

A draft of a class writes members as they arrive and keeps the header and the
attributes until the end, when the class file is put together. The pool comes last of
all, because everything else adds to it.
-/

namespace JvmClass

/-- A class under construction. -/
structure ClassDraft where
  /-- The class that it is made from. -/
  source : Option ClassFile
  this : ClassEntry
  flags : AccessFlags
  major : Int
  minor : Int
  super : Option ClassEntry
  interfaces : List (Option ClassEntry)
  /-- The members written so far. -/
  fields : Array Bytes
  methods : Array Bytes
  attributes : Array Attribute
deriving Inhabited

/-- An action on a class. -/
abbrev ClassM (σ : Type) := Drafting σ ClassDraft

namespace ClassDraft

variable {σ : Type}

/-- The version of a class that nothing else is said of. -/
def defaultMajor : Int := 52

/-- A draft of a class with the given name. -/
def start (this : ClassEntry) (source : Option ClassFile) : ClassDraft :=
  { source, this, flags := .public, major := defaultMajor, minor := 0, super := none
    interfaces := [], fields := #[], methods := #[], attributes := #[] }

/-- Adds a written field, or records the error instead. -/
def addField (outcome : Except Error Bytes) : ClassM σ Unit :=
  match outcome with
  | .ok bytes => modify fun d => { d with fields := d.fields.push bytes }
  | .error e => Drafting.session (Build.fail e)

/-- Adds a written method, or records the error instead. -/
def addMethod (outcome : Except Error Bytes) : ClassM σ Unit :=
  match outcome with
  | .ok bytes => modify fun d => { d with methods := d.methods.push bytes }
  | .error e => Drafting.session (Build.fail e)

/-- The bytes of a member of an input, if they still hold: the pool keeps the constants
of the input and the options leave nothing out. -/
def copied? (m : InputMember) : Build σ (Option (Except Error Bytes)) := do
  let s ← get
  match s.pool.parent with
  | some parent =>
    if parent.origin = m.input.origin && s.options.copiesVerbatim then
      return some (m.input.slice m.span.start (m.span.stop - m.span.start))
    return none
  | none => return none

/-- A field, written anew. -/
def writeField (f : FieldModel) : Build σ (Except Error Bytes) := do
  let copy : ExceptT Error (FieldM σ) Unit := Transform.run f.traversal (some .pass) .terminal
  let (outcome, d) ← copy.run.run (.ofModel true f)
  match outcome with
  | .error e => return .error e
  | .ok () => d.finish

/-- A method, written anew. -/
def writeMethod (m : MethodModel) : Build σ (Except Error Bytes) := do
  let copy : ExceptT Error (MethodM σ) Unit := Transform.run m.traversal (some .pass) .terminal
  let (outcome, d) ← copy.run.run (.ofModel true m)
  match outcome with
  | .error e => return .error e
  | .ok () => d.finish

/-- Takes a field. -/
def takeField (f : FieldModel) : ClassM σ Unit := do
  let copied ← match f with
    | .input m => Drafting.session (copied? m)
    | .built _ => pure none
  match copied with
  | some outcome => addField outcome
  | none => addField (← Drafting.session (writeField f))

/-- Takes a method. -/
def takeMethod (m : MethodModel) : ClassM σ Unit := do
  let copied ← match m with
    | .input m => Drafting.session (copied? m)
    | .built _ => pure none
  match copied with
  | some outcome => addMethod outcome
  | none => addMethod (← Drafting.session (writeMethod m))

instance : Draft ClassDraft ClassElement where
  level := .class
  collects _ := false
  take
    | .flags f => modify fun d => { d with flags := f }
    | .version major minor => modify fun d => { d with major, minor }
    | .superclass c => modify fun d => { d with super := c }
    | .interfaces cs => modify fun d => { d with interfaces := cs }
    | .field f => takeField f
    | .method m => takeMethod m
    | .attribute a => modify fun d => { d with attributes := d.attributes.push a }
  collects_take _ _ _ := rfl
  pool_take _ _ _ := nofun

/-- The class attributes with their count, the table of bootstrap methods last. -/
def attributeTable (d : ClassDraft) : Emit σ Bytes := do
  let attributes ← Emit.items
    (Emit.attributeItems none (fun _ => throw .outOfBounds) (d.attributes.toList.map some))
  if (← Emit.interning PoolBuilder.rowCount) = 0 then
    return u2 d.attributes.size ++ attributes
  let name ← Emit.refText Lookup.bootstrapMethods
  let rows ← Emit.sized (fun n => .overflow n) (← getThe (Session σ)).pool.encodeRows
  return u2 (d.attributes.size + 1) ++ attributes ++ name ++ rows

/-- Flags, names and interfaces. -/
def header (d : ClassDraft) : Emit σ Bytes := do
  let this ← Emit.refClass (some d.this)
  let super ← Emit.optionalClass d.super
  let interfaces ← Emit.counted Emit.refClass d.interfaces
  return u2 d.flags.bits.toNat ++ this ++ super ++ interfaces

/-- The largest number of fields or of methods. -/
def maxMembers : Nat := 65535

/-- The class file. -/
def finish (d : ClassDraft) : Build σ (Except Error Bytes) := do
  if let some e ← Build.error? then return .error e
  if maxMembers < d.fields.size || maxMembers < d.methods.size then
    return .error (.misuse (.members d.fields.size d.methods.size))
  match ← Emit.finish d.attributeTable with
  | .error e => return .error e
  | .ok attributes =>
    match ← Emit.finish d.header with
    | .error e => return .error e
    | .ok header =>
      let pool := (← get).pool
      if let some e := pool.error then return .error e
      return .ok (u4 magic ++ u2 d.minor ++ u2 d.major ++ pool.encode ++ header
        ++ u2 d.fields.size ++ d.fields.toList.flatten
        ++ u2 d.methods.size ++ d.methods.toList.flatten ++ attributes)

end ClassDraft

/-- Where elements of a class go. -/
abbrev ClassOutlet (σ : Type) := Outlet σ ClassDraft ClassElement

/-- A transform of classes. -/
abbrev ClassTransform (σ : Type) := Transform σ ClassDraft ClassElement

namespace ClassOutlet

variable {σ : Type}

/-- Whether members are written as soon as they are complete. -/
def writes : ClassOutlet σ → Bool
  | .terminal => true
  | .stage _ => false

/-- Adds a field that `fill` fills in. -/
def withField (o : ClassOutlet σ) (draft : FieldDraft) (fill : ExceptT Error (FieldM σ) Unit) :
    ClassM σ Unit := do
  let (outcome, d) ← Drafting.session (fill.run.run draft)
  match outcome with
  | .error e => Drafting.session (Build.fail e)
  | .ok () =>
    if draft.writes then ClassDraft.addField (← Drafting.session d.finish)
    else o.emit (.field (.built d.collected))

/-- Adds a method that `fill` fills in. -/
def withMethod (o : ClassOutlet σ) (draft : MethodDraft) (fill : ExceptT Error (MethodM σ) Unit) :
    ClassM σ Unit := do
  let (outcome, d) ← Drafting.session (fill.run.run draft)
  match outcome with
  | .error e => Drafting.session (Build.fail e)
  | .ok () =>
    if draft.writes then ClassDraft.addMethod (← Drafting.session d.finish)
    else o.emit (.method (.built d.collected))

/-- Acts unless something has failed. -/
def unlessFailed (act : ClassM σ Unit) : ClassM σ Unit := do
  if (← Drafting.session Build.error?).isSome then return
  act

/-- Adds a field that a handler fills in. -/
def field (o : ClassOutlet σ) (name descriptor : Text) (flags : AccessFlags)
    (handler : FieldOutlet σ → ExceptT Error (FieldM σ) Unit) : ClassM σ Unit :=
  unlessFailed do
    let name ← Drafting.session (Build.interning (PoolBuilder.utf8 name))
    let descriptor ← Drafting.session (Build.interning (PoolBuilder.utf8 descriptor))
    withField o (.start (writes o) name descriptor flags) (handler .terminal)

/-- Adds a method that a handler fills in. -/
def method (o : ClassOutlet σ) (name descriptor : Text) (flags : AccessFlags)
    (handler : MethodOutlet σ → ExceptT Error (MethodM σ) Unit) : ClassM σ Unit :=
  unlessFailed do
    let name ← Drafting.session (Build.interning (PoolBuilder.utf8 name))
    let descriptor ← Drafting.session (Build.interning (PoolBuilder.utf8 descriptor))
    withMethod o (.start (writes o) name descriptor flags) (handler .terminal)

/-- Adds a field that is another one, transformed. -/
def transformField (o : ClassOutlet σ) (f : FieldModel) (t : Option (FieldTransform σ)) :
    ClassM σ Unit :=
  unlessFailed (withField o (.ofModel (writes o) f) (Transform.run f.traversal t .terminal))

/-- Adds a method that is another one, transformed. -/
def transformMethod (o : ClassOutlet σ) (m : MethodModel) (t : Option (MethodTransform σ)) :
    ClassM σ Unit :=
  unlessFailed (withMethod o (.ofModel (writes o) m) (Transform.run m.traversal t .terminal))

/-- Walks a class through a transform into this one. -/
def replay (o : ClassOutlet σ) (c : ClassFile) (t : Option (ClassTransform σ)) : ClassM σ Unit :=
  unlessFailed do
    Drafting.session (Build.failOn (← (Transform.run c.traversal t o).run))

end ClassOutlet

namespace ClassTransform

variable {σ : Type}

/-- Transforms the methods that `which` holds of. -/
def methods (which : MethodModel → Bool) (t : Option (MethodTransform σ)) : ClassTransform σ :=
  .ofAccept fun o e => ExceptT.lift do
    match e with
    | .method m => if which m then ClassOutlet.transformMethod o m t else o.emit e
    | _ => o.emit e

/-- Transforms the fields that `which` holds of. -/
def fields (which : FieldModel → Bool) (t : Option (FieldTransform σ)) : ClassTransform σ :=
  .ofAccept fun o e => ExceptT.lift do
    match e with
    | .field f => if which f then ClassOutlet.transformField o f t else o.emit e
    | _ => o.emit e

/-- Transforms the bodies of the methods that `which` holds of. -/
def bodies (which : MethodModel → Bool) (t : Option (CodeTransform σ)) : ClassTransform σ :=
  methods which (some (.code t))

end ClassTransform

namespace ClassFile

variable {σ : Type}

/-- Puts a class together in a session: fills it in and finishes it. An error that cannot
be kept back is the outcome, whatever became of the class. -/
def assemble (draft : Build σ ClassDraft) (fill : ExceptT Error (ClassM σ) Unit) :
    Build σ (Except Error Bytes) := do
  let (outcome, d) ← fill.run.run (← draft)
  let outcome ← match outcome with
    | .error e => pure (.error e)
    | .ok () => d.finish
  match ← Build.abort? with
  | some e => return .error e
  | none => return outcome

/-- Builds a class of the given name. An empty name of a superclass leaves the class
without one. -/
def build (this super : Text) (options : Options)
    (configure : ClassOutlet σ → ExceptT Error (ClassM σ) Unit) (user : σ) :
    Except Error Bytes × σ :=
  let draft : Build σ ClassDraft := do
    let this ← Build.interning (PoolBuilder.class_ this)
    let d := ClassDraft.start this none
    if super.isEmpty then return d
    return { d with super := some (← Build.interning (PoolBuilder.class_ super)) }
  let (outcome, s) := assemble draft (configure .terminal) (Build.start options .empty user)
  (outcome, s.user)

/-- Transforms a class, under a new name if there is one. Unless the class was read
without pool sharing, the result starts from its constants. -/
def rebuild (c : ClassFile) (newName : Option Text) (t : Option (ClassTransform σ)) (user : σ) :
    Except Error Bytes × σ :=
  let pool : PoolBuilder :=
    if c.options.has .noPoolSharing then .empty else .ofParent c.input
  let draft : Build σ ClassDraft := Build.interning do
    let this ← match newName with
      | some name => PoolBuilder.class_ name
      | none => pure c.this
    return .start (← PoolBuilder.adoptClass this) (some c)
  let (outcome, s) := assemble draft (Transform.run c.traversal t .terminal)
    (Build.start c.options pool user)
  (outcome, s.user)

/-- Transforms a class. -/
def transform (c : ClassFile) (t : Option (ClassTransform σ)) (user : σ) :
    Except Error Bytes × σ :=
  c.rebuild none t user

/-- Transforms a class under a new name. -/
def transformAs (c : ClassFile) (newName : Text) (t : Option (ClassTransform σ)) (user : σ) :
    Except Error Bytes × σ :=
  if newName.isEmpty then (.error (.misuse .emptyClassName), user)
  else c.rebuild (some newName) t user

end ClassFile

end JvmClass
