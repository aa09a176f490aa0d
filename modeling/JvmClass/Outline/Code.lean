import JvmClass.Build.Model
import JvmClass.Code.StackTracker
import JvmClass.Outline.Attribute

/-!
# Outlines of code bodies

A body is outlined element by element. An instruction's row starts with its shape and
its mnemonic, and ends with the kinds that the mnemonic implies.
-/

namespace JvmClass

namespace Outline

/-- The cases of a switch. -/
def switchCases (cs : List SwitchCase) : Naming Data := do
  return .list (← cs.mapM fun c => do return .list [.number c.value, ← label c.target])

/-- An instruction. -/
def instruction (i : Instruction) : Naming Data :=
  let op : Data := .text i.op.name
  match i with
  | .load _ slot => return .row "load" [op, .number slot]
  | .store _ slot => return .row "store" [op, .number slot]
  | .increment slot delta => return .row "iinc" [.number slot, .number delta]
  | .branch _ t => return .row "branch" [op, ← label t]
  | .lookupSwitch d cs => do
    let d ← label d
    return .row "lookupswitch" [d, ← switchCases cs]
  | .tableSwitch low high d cs => do
    let d ← label d
    return .row "tableswitch" [.number low, .number high, d, ← switchCases cs]
  | .return o => return .row "return" [op, kind o.kind]
  | .throw => return .row "throw" []
  | .field _ f => return .row "field" [op, member f]
  | .invoke _ m => return .row "invoke" [op, member m]
  | .invokeDynamic s => return .row "invokedynamic" [callSite s]
  | .newObject c => return .row "new" [class_ c]
  | .newPrimitiveArray k => return .row "newarray" [kind k]
  | .newReferenceArray c => return .row "anewarray" [class_ c]
  | .newMultiArray c n => return .row "multianewarray" [class_ c, .number n]
  | .arrayLoad o => return .row "arrayload" [op, kind o.kind]
  | .arrayStore o => return .row "arraystore" [op, kind o.kind]
  | .typeCheck _ c => return .row "typecheck" [op, class_ c]
  | .convert o => return .row "convert" [op, kind o.source, kind o.kind]
  | .operator o => return .row "operator" [op, kind o.kind]
  | .constant o v e =>
    return .row "constant" [op, .number v, loadable e, kind (Instruction.constantKind o e)]
  | .stack _ => return .row "stack" [op]
  | .monitor _ => return .row "monitor" [op]
  | .nop => return .row "nop" []
  | .discontinued _ t slot => return .row "discontinued" [op, ← label t, .number slot]

/-- The scope of a local variable. -/
def localScope (name : String) (s : LocalScope) : Naming Data := do
  let start ← label s.start
  let stop ← label s.stop
  return .row name [.number s.slot, utf8 s.name, utf8 s.type, start, stop]

/-- An attribute of a body. There are no bodies inside bodies. -/
def innerAttribute (a : Attribute) : Naming Data := attributeBody (fun _ => .null) a.body

/-- An element of a body. -/
def codeElement : CodeElement → Naming Data
  | .instruction i => instruction i
  | .label l => return .row "label" [← label l]
  | .handler c => do
    let start ← label c.start
    let stop ← label c.stop
    let handler ← label c.handler
    return .row "catch" [start, stop, handler, class_ c.type]
  | .line n => return .row "line" [.number n]
  | .localVariable s => localScope "local" s
  | .localVariableType s => localScope "localtype" s
  | .attribute a => return .row "attr" [← innerAttribute a]

/-- The elements of a body, with labels numbered from the start. -/
def codeElements (es : List CodeElement) : Data := .list ((es.mapM codeElement).run {}).1

/-- A body of an input. -/
def inputCode (c : InputCode) : Data :=
  .fields
    [("maxStack", .ofNat c.maxStack), ("maxLocals", .ofNat c.maxLocals),
      ("length", .ofNat c.codeLength), ("bytes", .ofBytes c.bytes),
      ("parent", .text c.method.name.text), ("elements", .orError codeElements c.elements)]

/-- Attributes, each with labels of its own. -/
def attributes (as : List Attribute) : Data :=
  .listOf (fun a => ((attributeBody inputCode a.body).run {}).1) as

end Outline

/-- The body of a method: what it belongs to and its elements. -/
def CodeModel.outline (c : CodeModel) : Data :=
  .list [.orNull .text c.parent, .orError Outline.codeElements c.elements]

/-- What a tracker knows: the kinds on the stack, the greatest depth, and whether that
is certain. -/
def StackTracker.outline (t : StackTracker) : Data :=
  .list [.orNull (.listOf Outline.kind) t.stack?, .ofNat t.max, .bool t.maxKnown]

end JvmClass
