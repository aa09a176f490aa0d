import JvmClass.Constant.Lookup
import JvmClass.Descriptor.Method

/-!
# An input and what lies in it

An input is a scanned class file with its constants. Members and code bodies of an
input are handles: they say where something lies and carry what their header says;
the rest is decoded when it is asked for, and can still turn out malformed.

An input whose pool is unsettled is settled by the first use that searches for the
bootstrap table.
-/

namespace JvmClass

/-- A scanned class file. -/
structure Input where
  layout : Layout
  pool : Pool
deriving Inhabited

namespace Input

def cursor (i : Input) : Cursor := i.layout.cursor

def options (i : Input) : Options := i.layout.options

def origin (i : Input) : Origin := i.pool.origin

/-- The input after a first search for its bootstrap table. -/
def settle (i : Input) (search : TableSearch) : Input :=
  { i with pool := .afterSearch i.layout i.origin search }

/-- The input after a use of it. -/
def settledBy {α : Type} (i : Input) (use : Input → Except Error α) : Input :=
  if i.pool.unsettled then
    match use i with
    | .ok _ => i
    | .error e =>
      match e.search? with
      | some (_, search) => i.settle search
      | none => i
  else i

/-- What a use of the input gives. -/
def query {α : Type} (i : Input) (use : Input → Except Error α) : Except Error α :=
  use (i.settledBy use)

/-- The bytes of a region that an earlier check has covered. -/
def slice (i : Input) (offset length : Nat) : Except Error Bytes :=
  Layout.covered (i.cursor.slice? offset length)

end Input

/-- A field or method of an input. -/
structure InputMember where
  input : Input
  /-- Internal name of the class that declares the member. -/
  className : Text
  span : MemberSpan
  flags : AccessFlags
  name : Utf8Entry
  descriptor : Utf8Entry
deriving Inhabited

/-- A code body of an input: where its parts lie. -/
structure InputCode where
  method : InputMember
  /-- Offset and length of the whole attribute body. -/
  offset : Nat
  length : Nat
  maxStack : Nat
  maxLocals : Nat
  codeStart : Nat
  codeLength : Nat
  /-- Offset of the exception table. -/
  exceptions : Nat
  /-- Offset of the table of nested attributes. -/
  attributes : Nat
deriving Inhabited

namespace InputCode

def input (c : InputCode) : Input := c.method.input

/-- The instructions, undecoded. -/
def bytes (c : InputCode) : Bytes :=
  (c.input.cursor.slice? c.codeStart c.codeLength).getD []

end InputCode

end JvmClass
