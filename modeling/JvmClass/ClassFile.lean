import JvmClass.Code.Reader

/-!
# Class files

A class file is parsed up to its header: version, flags, names, and where the
members lie. Attributes and code bodies are decoded when they are asked for, so
they can still turn out malformed.
-/

namespace JvmClass

/-- A parsed class file. -/
structure ClassFile where
  input : Input
  this : ClassEntry
  super : Option ClassEntry
  interfaces : List ClassEntry
  fields : List InputMember
  methods : List InputMember
deriving Inhabited

namespace InputMember

/-- The member that lies at a span. -/
def read (i : Input) (className : Text) (span : MemberSpan) : Except Error InputMember := do
  let p := span.start
  let name ← i.pool.refer Entry.utf8? (p + 2) (← Layout.covered (i.cursor.u2? (p + 2)))
  let descriptor ← i.pool.refer Entry.utf8? (p + 4) (← Layout.covered (i.cursor.u2? (p + 4)))
  let flags ← Layout.covered (i.cursor.u2? p)
  return { input := i, className, span, flags := .ofInt flags, name, descriptor }

/-- The attributes of a field. -/
def fieldAttributes (f : InputMember) : Except Error (List Attribute) :=
  Attribute.table { input := f.input, holder := .field, method := none, code := none }
    f.span.attributes f.span.stop

/-- The attributes of a method, its body among them. -/
def methodAttributes (m : InputMember) : Except Error (List Attribute) :=
  Attribute.table { input := m.input, holder := .method, method := some m, code := none }
    m.span.attributes m.span.stop

/-- The member with its input in another state. -/
def withInput (m : InputMember) (i : Input) : InputMember := { m with input := i }

/-- The first body among attributes. -/
def firstCode? (as : List Attribute) : Option InputCode :=
  as.findSome? fun a =>
    match a.body with
    | .code c => some c
    | _ => none

/-- The body of a method, if it has one. -/
def code? (m : InputMember) : Except Error (Option InputCode) := do
  return firstCode? (← m.methodAttributes)

/-- The parsed descriptor of a method. -/
def methodDescriptor (m : InputMember) : Except Error MethodDescriptor :=
  (MethodDescriptor.parse m.descriptor.text).mapError fun e =>
    .malformed (m.span.start + 4) .methodDescriptor (some (.descriptor e))

/-- A field by name and descriptor. -/
def fieldText (m : InputMember) : Text := "field " ++ m.name.text ++ ":" ++ m.descriptor.text

/-- A method by name and descriptor. -/
def methodText (m : InputMember) : Text := "method " ++ m.name.text ++ m.descriptor.text

end InputMember

namespace ClassFile

/-- The header of a scanned class file. -/
def ofInput (i : Input) : Except Error ClassFile := do
  let l := i.layout
  let p := l.poolEnd + 2
  let this ← i.pool.refer Entry.class? p l.thisIndex
  let super ← if l.superIndex = 0 then pure none
    else some <$> i.pool.refer Entry.class? (p + 2) l.superIndex
  let interfaces ← l.interfaces.zipIdx.mapM fun (index, n) =>
    i.pool.refer Entry.class? (p + 6 + 2 * n : Nat) index
  let fields ← l.fields.mapM (InputMember.read i this.internalName)
  let methods ← l.methods.mapM (InputMember.read i this.internalName)
  return { input := i, this, super, interfaces, fields, methods }

/-- Parses a class file. The number tells this input from others that are in use
together with it. -/
def parse (number : Nat) (bytes : Array UInt8) (options : Options) : Except Error ClassFile := do
  let layout ← Layout.scan bytes options
  Input.query { layout, pool := .ofLayout layout number } ofInput

/-- The class with its input in another state. -/
def withInput (c : ClassFile) (i : Input) : ClassFile :=
  { c with
    input := i
    fields := c.fields.map (·.withInput i)
    methods := c.methods.map (·.withInput i) }

/-- The class after a first search for its bootstrap table. -/
def settle (c : ClassFile) (search : TableSearch) : ClassFile :=
  c.withInput (c.input.settle search)

/-- The class after a use of it. -/
def settledBy {α : Type} (c : ClassFile) (use : ClassFile → Except Error α) : ClassFile :=
  c.withInput (c.input.settledBy fun i => use (c.withInput i))

/-- What a use of the class gives. -/
def query {α : Type} (c : ClassFile) (use : ClassFile → Except Error α) : Except Error α :=
  use (c.settledBy use)

def flags (c : ClassFile) : AccessFlags := c.input.layout.flags

def major (c : ClassFile) : Nat := c.input.layout.major

def minor (c : ClassFile) : Nat := c.input.layout.minor

def pool (c : ClassFile) : Pool := c.input.pool

def options (c : ClassFile) : Options := c.input.options

/-- The attributes of the class, without the table of bootstrap methods. -/
def attributes (c : ClassFile) : Except Error (List Attribute) :=
  Attribute.table { input := c.input, holder := .class, method := none, code := none }
    c.input.layout.attributes c.input.cursor.size

/-- The class by name. -/
def text (c : ClassFile) : Text := "class " ++ c.this.internalName

end ClassFile

end JvmClass
