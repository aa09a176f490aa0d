import JvmClass.Attribute.Reader
import JvmClass.Code.Element

/-!
# Decoding code bodies

A body is decoded into the handlers and scopes, then the instructions with their
labels and line numbers, then stack maps and other attributes. A label stands
before an instruction exactly when something in the body refers to its offset;
such an offset has to be the start of an instruction or the end of the body.
-/

namespace JvmClass.InputCode

open Layout (covered)

/-- The label of an offset. -/
def label (c : InputCode) (offset : Nat) : Label := .decoded c.input.origin c.offset offset

def cursor (c : InputCode) : Cursor := c.input.cursor

/-- Row `n` of the exception table. -/
def readCatch (c : InputCode) (n : Nat) : Except Error Catch := do
  let p := c.exceptions + 2 + 8 * n
  let start ← covered (c.cursor.u2? p)
  let stop ← covered (c.cursor.u2? (p + 2))
  let handler ← covered (c.cursor.u2? (p + 4))
  if stop ≤ start || c.codeLength < stop || c.codeLength ≤ handler then
    throw (.flaw p (.exceptionRange start stop handler c.codeLength))
  let type ← covered (c.cursor.u2? (p + 6))
  return {
    start := some (c.label start)
    stop := some (c.label stop)
    handler := some (c.label handler)
    type := ← if type = 0 then pure none
      else some <$> c.input.pool.refer Entry.class? (p + 6) type }

/-- A line number table as pairs of offset and line. -/
def readLines (c : InputCode) (env : Envelope) : Except Error (List (Nat × Nat)) := do
  let n ← covered (c.cursor.u2? env.offset)
  if env.length ≠ 2 + 4 * n then throw (.flaw env.offset (.lineTable n env.length))
  (List.range n).mapM fun i => do
    let p := env.offset + 2 + 4 * i
    let offset ← covered (c.cursor.u2? p)
    if c.codeLength ≤ offset then throw (.flaw p (.lineOffset offset c.codeLength))
    return (offset, ← covered (c.cursor.u2? (p + 2)))

/-- A table of local variable scopes. -/
def readScopes (c : InputCode) (env : Envelope) : Except Error (List LocalScope) := do
  let n ← covered (c.cursor.u2? env.offset)
  if env.length ≠ 2 + 10 * n then
    throw (.flaw env.offset (.localTable env.name.text n env.length))
  (List.range n).mapM fun i => do
    let p := env.offset + 2 + 10 * i
    let start ← covered (c.cursor.u2? p)
    let length ← covered (c.cursor.u2? (p + 2))
    if c.codeLength < start + length then
      throw (.flaw p (.localRange start (start + length) c.codeLength))
    let name ← c.input.pool.refer Entry.utf8? (p + 4) (← covered (c.cursor.u2? (p + 4)))
    let type ← c.input.pool.refer Entry.utf8? (p + 6) (← covered (c.cursor.u2? (p + 6)))
    return {
      slot := ← covered (c.cursor.u2? (p + 8))
      name := some name
      type := some type
      start := some (c.label start)
      stop := some (c.label (start + length)) }

/-- What the nested attributes of a body hold. -/
structure Nested where
  lines : List (Nat × Nat) := []
  /-- Scopes of local variables and of their generic types. -/
  scopes : List CodeElement := []
  frames : List Attribute := []
  others : List Attribute := []

/-- Adds what one nested attribute holds. -/
def readNested (c : InputCode) (env : Envelope) (n : Nested) : Except Error Nested := do
  let options := c.input.options
  let name := env.name.text
  if name = "LineNumberTable" then
    if options.dropsLineNumbers then return n
    return { n with lines := n.lines ++ (← c.readLines env) }
  if name = "LocalVariableTable" then
    if options.has .dropDebugInfo then return n
    return { n with scopes := n.scopes ++ (← c.readScopes env).map .localVariable }
  if name = "LocalVariableTypeTable" then
    if options.has .dropDebugInfo then return n
    return { n with scopes := n.scopes ++ (← c.readScopes env).map .localVariableType }
  let ctx : Attribute.Context :=
    { input := c.input, holder := .code, method := some c.method, code := some c }
  let a ← Attribute.decode ctx (Attribute.maxNesting - 1) env
  match a.body with
  | .stackMapTable _ => return { n with frames := n.frames ++ [a] }
  | .unknown .. =>
    if options.has .dropUnknownAttributes then return n
    return { n with others := n.others ++ [a] }
  | _ => return { n with others := n.others ++ [a] }

/-- The nested attributes from `p` on, added to what the ones before held. -/
def readNestedFrom (c : InputCode) (held : Nested) (p : Nat) : Nat → Except Error Nested
  | 0 => return held
  | left + 1 => do
    let name ← c.input.pool.refer Entry.utf8? p (← covered (c.cursor.u2? p))
    let length ← covered (c.cursor.u4? (p + 2))
    let held ← c.readNested ⟨name, p + 6, length⟩ held
    c.readNestedFrom held (p + 6 + length) left

/-- The branch target that lies `delta` bytes from the instruction at `offset`. -/
def readTarget (c : InputCode) (offset : Nat) (delta : Int) : Except Error Label :=
  let target := offset + delta
  if target < 0 || c.codeLength ≤ target then
    .error (.flaw (c.codeStart + offset) (.branch offset target c.codeLength))
  else .ok (c.label target.toNat)

/-- The instruction after a widening prefix. -/
def readWide (c : InputCode) (offset : Nat) : Except Error (Instruction × Nat) := do
  let p := c.codeStart + offset
  if c.codeLength < offset + 4 then throw (.flaw p (.pastCode ⟨Opcode.wide⟩ offset))
  let op : Opcode := ⟨(← covered (c.cursor.u1? (p + 1))).toUInt8⟩
  let slot ← covered (c.cursor.u2? (p + 2))
  if op = Opcode.iinc then
    if c.codeLength < offset + 6 then throw (.flaw p (.pastCode op offset))
    return (.increment slot (← covered (c.cursor.s2? (p + 4))), 6)
  if Opcode.iload.byte ≤ op.byte && op.byte ≤ Opcode.aload.byte then return (.load op slot, 4)
  if Opcode.istore.byte ≤ op.byte && op.byte ≤ Opcode.astore.byte then return (.store op slot, 4)
  if op = Opcode.ret then return (.discontinued op none slot, 4)
  throw (.flaw p (.widened op))

/-- The cases of a table switch, whose targets stand from `p` on. -/
def readTableCases (c : InputCode) (offset : Nat) (low : Int) (p n : Nat) :
    Except Error (List SwitchCase) :=
  (List.range n).mapM fun (i : Nat) => do
    let target ← c.readTarget offset (← covered (c.cursor.s4? (p + 4 * i)))
    return ⟨low + i, some target⟩

/-- The cases of a lookup switch, whose rows stand from `p` on. -/
def readLookupCases (c : InputCode) (offset : Nat) (p n : Nat) : Except Error (List SwitchCase) :=
  (List.range n).mapM fun (i : Nat) => do
    let target ← c.readTarget offset (← covered (c.cursor.s4? (p + 8 * i + 4)))
    return ⟨← covered (c.cursor.s4? (p + 8 * i)), some target⟩

/-- Bytes of padding that bring what follows an opcode at `offset` to a multiple of
four. -/
def padding (offset : Nat) : Nat := (4 - (offset + 1) % 4) % 4

/-- A switch. -/
def readSwitch (c : InputCode) (op : Opcode) (offset : Nat) : Except Error (Instruction × Nat) := do
  let p := c.codeStart + offset
  let q := p + 1 + padding offset
  let fixed := 1 + padding offset + 8 + if op = Opcode.tableswitch then 4 else 0
  if c.codeLength < offset + fixed then throw (.flaw p (.pastCode op offset))
  let fallback ← c.readTarget offset (← covered (c.cursor.s4? q))
  if op = Opcode.tableswitch then
    let low ← covered (c.cursor.s4? (q + 4))
    let high ← covered (c.cursor.s4? (q + 8))
    if high < low then throw (.flaw p (.tableBounds low high))
    let n := (high - low + 1).toNat
    if c.codeLength < offset + fixed + 4 * n then throw (.flaw p (.pastCode op offset))
    let cases ← c.readTableCases offset low (q + 12) n
    return (.tableSwitch low high (some fallback) cases, fixed + 4 * n)
  let pairs ← covered (c.cursor.s4? (q + 4))
  if pairs < 0 then throw (.flaw p (.lookupPairs pairs))
  let n := pairs.toNat
  if c.codeLength < offset + fixed + 8 * n then throw (.flaw p (.pastCode op offset))
  let cases ← c.readLookupCases offset (q + 8) n
  return (.lookupSwitch (some fallback) cases, fixed + 8 * n)

/-- An instruction that pushes a constant. -/
def readConstant (c : InputCode) (op : Opcode) (size p : Nat) :
    Except Error (Instruction × Nat) := do
  if op = Opcode.bipush then return (.constant op (← covered (c.cursor.s1? (p + 1))) none, 2)
  if op = Opcode.sipush then return (.constant op (← covered (c.cursor.s2? (p + 1))) none, 3)
  if op = Opcode.ldc || op = Opcode.ldcW || op = Opcode.ldc2W then
    let index ← covered (if op = Opcode.ldc then c.cursor.u1? (p + 1) else c.cursor.u2? (p + 1))
    let e ← c.input.pool.refer Entry.loadable? (p + 1) index
    if e.kind.isWide ≠ (op = Opcode.ldc2W) then throw (.flaw p (.loads op e.tag))
    return (.constant op 0 (some e), size)
  return (.constant op 0 none, 1)

/-- The instruction at an offset of the body, with its length. -/
def readInstruction (c : InputCode) (offset : Nat) : Except Error (Instruction × Nat) := do
  let p := c.codeStart + offset
  let byte ← covered (c.cursor.u1? p)
  let op : Opcode := ⟨byte.toUInt8⟩
  if op.byte = Opcode.wide then return ← c.readWide offset
  match op.info? with
  | none => throw (.flaw p (.opcode op.byte offset))
  | some info =>
    if 0 < info.size && c.codeLength < offset + info.size then
      throw (.flaw p (.pastCode op offset))
    let refer {α : Type} (want : Entry → Option α) : Except Error α := do
      c.input.pool.refer want (p + 1) (← covered (c.cursor.u2? (p + 1)))
    let jump (long : Opcode) : Except Error Label := do
      c.readTarget offset
        (← covered (if op = long then c.cursor.s4? (p + 1) else c.cursor.s2? (p + 1)))
    let slot : Except Error Int := do
      if info.size = 1 then return op.implicitSlot?.getD 0
      return ← covered (c.cursor.u1? (p + 1))
    match info.shape with
    | .load => return (.load op (← slot), info.size)
    | .store => return (.store op (← slot), info.size)
    | .increment =>
      return (.increment (← covered (c.cursor.u1? (p + 1))) (← covered (c.cursor.s1? (p + 2))), 3)
    | .branch => return (.branch op (some (← jump Opcode.gotoW)), info.size)
    | .tableSwitch | .lookupSwitch => c.readSwitch op offset
    | .constant => c.readConstant op info.size p
    | .field => return (.field op (some (← refer Entry.field?)), 3)
    | .invoke =>
      let m ← refer Entry.member?
      if m.kind = .field || (op = Opcode.invokeinterface && m.kind ≠ .interfaceMethod) then
        throw (.flaw p (.invokes op m.tag))
      return (.invoke op (some m), info.size)
    | .invokeDynamic => return (.invokeDynamic (some (← refer Entry.callSite?)), 5)
    | .newObject => return (.newObject (some (← refer Entry.class?)), 3)
    | .newReferenceArray => return (.newReferenceArray (some (← refer Entry.class?)), 3)
    | .typeCheck => return (.typeCheck op (some (← refer Entry.class?)), 3)
    | .newMultiArray =>
      let type ← refer Entry.class?
      return (.newMultiArray (some type) (← covered (c.cursor.u1? (p + 3))), 4)
    | .newPrimitiveArray =>
      let code ← covered (c.cursor.u1? (p + 1))
      match Opcode.arrayKind? code with
      | some k => return (.newPrimitiveArray k, 2)
      | none => throw (.flaw p (.arrayCode code))
    | .discontinued =>
      if op = Opcode.ret then
        return (.discontinued op none (← covered (c.cursor.u1? (p + 1))), 2)
      return (.discontinued op (some (← jump Opcode.jsrW)) 0, info.size)
    | _ =>
      match Instruction.ofOpcode? op with
      | some i => return (i, 1)
      | none => throw .outOfBounds

/-- The instructions from `offset` on with their offsets, onto those decoded so far.
Every instruction has at least one byte, so the length of the body is fuel enough. -/
def readInstructionsFrom (c : InputCode) (done : List (Nat × Instruction)) (offset : Nat) :
    (fuel : Nat) → Except Error (List (Nat × Instruction))
  | 0 => .ok done.reverse
  | fuel + 1 =>
    if c.codeLength ≤ offset then .ok done.reverse
    else
      match c.readInstruction offset with
      | .error e => .error e
      | .ok (i, size) => c.readInstructionsFrom ((offset, i) :: done) (offset + size) fuel

/-- The labels that the rows of a body refer to, apart from those of instructions. -/
def rowLabels (catches : List Catch) (nested : Nested) : List (Option Label) :=
  catches.flatMap Catch.labels
    ++ nested.scopes.flatMap (fun
      | .localVariable s | .localVariableType s => s.labels
      | _ => [])
    ++ nested.frames.flatMap fun a =>
      match a.body with
      | .stackMapTable frames => frames.flatMap StackMapFrame.labels
      | _ => []

/-- Which of the offsets up to `size` are in a list. -/
def marks (size : Nat) (offsets : List Nat) : Array Bool :=
  offsets.foldl (fun m o => m.setIfInBounds o true) (Array.replicate (size + 1) false)

/-- Whether an offset is marked. -/
def marked (m : Array Bool) (offset : Nat) : Bool := m[offset]?.getD false

/-- The lines of each offset, in the order of the table. -/
def linesByOffset (size : Nat) (lines : List (Nat × Nat)) : Array (List Nat) :=
  lines.reverse.foldl (fun m (offset, line) => m.modify offset (line :: ·))
    (Array.replicate (size + 1) [])

/-- The body as elements. -/
def elements (c : InputCode) : Except Error (List CodeElement) := do
  let catches ← (List.range (← covered (c.cursor.u2? c.exceptions))).mapM c.readCatch
  let nested ← c.readNestedFrom {} (c.attributes + 2) (← covered (c.cursor.u2? c.attributes))
  let instructions ← c.readInstructionsFrom [] 0 c.codeLength
  let labels := rowLabels catches nested ++ instructions.flatMap fun (_, i) => i.labels
  let labelled := marks c.codeLength (labels.filterMap fun l => l.bind Label.offset?)
  let starts := marks c.codeLength (instructions.map (·.1))
  let lines := linesByOffset c.codeLength nested.lines
  let linesAt (offset : Nat) : List Nat := lines[offset]?.getD []
  let inside := List.range c.codeLength
  if let some o := inside.find? fun o => marked labelled o && !marked starts o then
    throw (.flaw (c.codeStart + o) (.targetBoundary o))
  if let some o := inside.find? fun o => !(linesAt o).isEmpty && !marked starts o then
    throw (.flaw (c.codeStart + o) (.lineBoundary o))
  let labelAt (o : Nat) : List CodeElement :=
    if marked labelled o then [.label (some (c.label o))] else []
  return catches.map .handler
    ++ nested.scopes
    ++ instructions.flatMap (fun (o, i) =>
      labelAt o ++ (linesAt o).map (fun n => .line n) ++ [.instruction i])
    ++ labelAt c.codeLength
    ++ (if c.input.options.has .dropStackMaps then [] else nested.frames.map .attribute)
    ++ nested.others.map .attribute

end JvmClass.InputCode
