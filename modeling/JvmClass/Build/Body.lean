import JvmClass.Attribute.Writer
import JvmClass.Build.Model
import JvmClass.Code.Cell
import JvmClass.Code.StackTracker

/-!
# Writing bodies

A body writer encodes instructions as they arrive and collects everything else. When
the body is complete it resolves the labels, works out the stack depth and writes the
tables.
-/

namespace JvmClass

/-- A body being written. -/
structure BodyWriter where
  cells : Array Cell
  /-- The number of bytes that the cells take. -/
  size : Nat
  /-- Where the labels bound so far stand. -/
  bound : Std.HashMap Label Nat
  /-- The labels and instructions, for following the stack. -/
  flow : Array CodeElement
  catches : Array Catch
  /-- Offsets and lines. -/
  lines : Array (Nat × Int)
  /-- Scopes of local variables, with the descriptors of their types. -/
  scopes : Array LocalScope
  /-- Scopes of local variables, with their generic types. -/
  typeScopes : Array LocalScope
  attributes : Array Attribute
  maxLocals : Nat
deriving Inhabited

namespace BodyWriter

variable {σ : Type}

/-- Nothing written, for a method that starts with some local slots in use. -/
def start (locals : Nat) : BodyWriter := { (default : BodyWriter) with maxLocals := locals }

/-- Sees to it that there is room for a value in a local slot. -/
def useLocal (slot : Int) (k : Kind) (w : BodyWriter) : BodyWriter :=
  let stop := slot + k.slots
  if w.maxLocals < stop then { w with maxLocals := stop.toNat } else w

/-- Binds a label to an offset. -/
def bindAt (l : Label) (offset : Nat) (w : BodyWriter) : BodyWriter :=
  { w with bound := w.bound.insert l offset }

/-- Appends an instruction with the cells that encode it. -/
def append (i : Instruction) (cells : List Cell) (w : BodyWriter) : BodyWriter :=
  { w with
    cells := w.cells ++ cells
    size := w.size + cells.foldr (fun c n => c.width + n) 0
    flow := w.flow.push (.instruction i) }

/-- Appends an instruction. -/
def instruction (i : Instruction) (w : BodyWriter) : ExceptT Error Interning BodyWriter := do
  let cells ← Cell.ofInstruction w.size i
  let w := match i.localUse? with
    | some (slot, k) => w.useLocal slot k
    | none => w
  return w.append i cells

/-- Binds a label to the present position. -/
def label (l : Option Label) (w : BodyWriter) : Except Error BodyWriter :=
  match l with
  | none => .error (.misuse .bindsMissingLabel)
  | some l =>
    if w.bound.contains l then .error (.misuse .boundTwice)
    else
      let size := w.size
      let w := w.bindAt l size
      .ok { w with flow := w.flow.push (.label (some l)) }

/-- Takes the scope of a local variable. -/
def variable_ (s : LocalScope) (w : BodyWriter) : BodyWriter :=
  let w := { w with scopes := w.scopes.push s }
  match s.type with
  | some type => w.useLocal s.slot (Kind.ofDescriptor type.text)
  | none => w

/-- Whether the options leave an attribute of a body out. -/
def leavesOut (options : Options) (a : Attribute) : Bool :=
  match a.body with
  | .stackMapTable _ => options.has .dropStackMaps
  | .unknown .. => options.has .dropUnknownAttributes
  | _ => false

/-- Takes an element. -/
def put (options : Options) (e : CodeElement) (w : BodyWriter) :
    ExceptT Error Interning BodyWriter :=
  match e with
  | .instruction i => w.instruction i
  | .label l => liftM (w.label l)
  | .handler c => return { w with catches := w.catches.push c }
  | .line n =>
    if options.dropsLineNumbers then return w
    else
      let size := w.size
      return { w with lines := w.lines.push (size, n) }
  | .localVariable s => return if options.has .dropDebugInfo then w else w.variable_ s
  | .localVariableType s =>
    if options.has .dropDebugInfo then return w
    else return { w with typeScopes := w.typeScopes.push s }
  | .attribute a =>
    if leavesOut options a then return w
    else return { w with attributes := w.attributes.push a }

/-- Where a label stands. -/
def offset (w : BodyWriter) : Option Label → Except Error Nat
  | none => .error (.misuse (.unresolvedLabel true))
  | some l =>
    match w.bound[l]? with
    | some offset => .ok offset
    | none => .error (.misuse (.unresolvedLabel false))

/-- The encoded instructions. -/
def code (w : BodyWriter) : Except Error Bytes := do
  let parts ← w.cells.toList.mapM (Cell.resolve w.offset)
  return parts.flatten

/-- The stack depth that following the body gives. Handlers count from the start,
wherever they were declared. -/
def trackedStack? (w : BodyWriter) : Option Nat :=
  let elements := w.catches.toList.map .handler ++ w.flow.toList
  match elements.foldlM StackTracker.track (StackTracker.start []) with
  | .ok t => t.maxStack?
  | .error _ => none

/-- The stack depth to write: the computed one, unless the declared one is asked for or
nothing else is known. -/
def maxStack (options : Options) (declared : Option Nat) (w : BodyWriter) : Except Error Nat :=
  match (if options.has .keepMaxStack then declared else none) <|> w.trackedStack? <|> declared with
  | some n => .ok n
  | none => .error (.misuse .stackUnknown)

/-- The handlers that cover some code, with the offsets of their range. -/
def handlers (w : BodyWriter) : Except Error (List (Nat × Nat × Nat × Option ClassEntry)) := do
  let rows ← w.catches.toList.mapM fun c => do
    let start ← w.offset c.start
    let stop ← w.offset c.stop
    let handler ← w.offset c.handler
    if stop < start then throw (.misuse (.catchRange start stop))
    return (start, stop, handler, c.type)
  return rows.filter fun (start, stop, _, _) => start ≠ stop

/-- The exception table. -/
def exceptionTable (w : BodyWriter) : Emit σ Bytes := do
  let rows ← liftM w.handlers
  Emit.counted
    (fun (start, stop, handler, type) => do
      return u2 start ++ u2 stop ++ u2 handler ++ (← Emit.optionalClass type)) rows

/-- The table of line numbers. -/
def lineTable (w : BodyWriter) : Emit σ Bytes := do
  let name ← Emit.refText "LineNumberTable"
  let rows ← Emit.counted (fun (offset, line) => return u2 offset ++ u2 line) w.lines.toList
  return name ++ (← Emit.sized (fun n => .overflow n) rows)

/-- A row of a table of scopes. -/
def scopeRow (w : BodyWriter) (s : LocalScope) : Emit σ Bytes := do
  let start ← liftM (w.offset s.start)
  let stop ← liftM (w.offset s.stop)
  if stop < start then
    throw (.misuse (.localRange ((s.name.map (·.text)).getD "<nil>") start stop))
  let name ← Emit.refUtf8 s.name
  let type ← Emit.refUtf8 s.type
  return u2 start ++ u2 (stop - start) ++ name ++ type ++ u2 s.slot

/-- A table of scopes. -/
def scopeTable (w : BodyWriter) (name : Text) (scopes : Array LocalScope) : Emit σ Bytes := do
  let name ← Emit.refText name
  let rows ← Emit.counted w.scopeRow scopes.toList
  return name ++ (← Emit.sized (fun n => .overflow n) rows)

/-- What a table writes, nothing when it would be empty. -/
def unlessEmpty {α : Type} (rows : Array α) (table : Emit σ Bytes) : Emit σ Bytes :=
  if rows.isEmpty then return [] else table

/-- The attributes of the body with their count. -/
def attributeTable (w : BodyWriter) : Emit σ Bytes := do
  let tables := [!w.lines.isEmpty, !w.scopes.isEmpty, !w.typeScopes.isEmpty].count true
  let n ← Emit.count (w.attributes.size + tables)
  let lines ← unlessEmpty w.lines w.lineTable
  let scopes ← unlessEmpty w.scopes (w.scopeTable "LocalVariableTable" w.scopes)
  let types ← unlessEmpty w.typeScopes (w.scopeTable "LocalVariableTypeTable" w.typeScopes)
  let rest ← Emit.items
    (Emit.attributeItems (some w.offset) (fun _ => throw .outOfBounds)
      (w.attributes.toList.map some))
  return n ++ lines ++ scopes ++ types ++ rest

/-- The longest body. -/
def maxSize : Nat := 65535

/-- The body of the attribute that holds the code. `stop` is a label for the end, which
stands there unless it was bound elsewhere. -/
def finish (declared : Option Nat) (stop : Option Label) (w : BodyWriter) :
    Build σ (Except Error Bytes) := do
  if let some e ← Build.error? then return .error e
  if w.size = 0 then return .error (.misuse .emptyBody)
  if maxSize < w.size then return .error (.misuse (.bodyLength w.size))
  let w := match stop with
    | some l => if w.bound.contains l then w else w.bindAt l w.size
    | none => w
  let options ← Build.options
  Emit.finish do
    let code ← liftM w.code
    let maxStack ← liftM (w.maxStack options declared)
    let exceptions ← w.exceptionTable
    let attributes ← w.attributeTable
    return u2 maxStack ++ u2 w.maxLocals ++ u4 code.length ++ code ++ exceptions ++ attributes

end BodyWriter

end JvmClass
