import JvmClass.Script.Attribute

/-!
# Code elements in scripts

A code element is given in the form in which an outline shows it, with names for
labels. Kinds that the mnemonic implies are left out.
-/

namespace JvmClass

namespace Libraries

open Script

variable (libs : Libraries)

/-- The cases of a switch. -/
def switchCases (d : Data) : Step CodeDraft (List SwitchCase) :=
  Step.each d fun r => do
    return ⟨signed 32 (← Step.read (r.item 0).int), ← Step.label (r.item 1)⟩

/-- The scope of a local variable. -/
def localScope (d : Data) : Step CodeDraft LocalScope := do
  let slot ← Step.slot (d.item 1)
  let name ← libs.utf8 (d.item 2)
  let type ← libs.utf8 (d.item 3)
  let start ← Step.label (d.item 4)
  return { slot, name, type, start, stop := ← Step.label (d.item 5) }

/-- The handler of exceptions of a class. -/
def handler (d : Data) : Step CodeDraft Catch := do
  let start ← Step.label (d.item 1)
  let stop ← Step.label (d.item 2)
  let handler ← Step.label (d.item 3)
  return { start, stop, handler, type := ← libs.class_ (d.item 4) }

/-- The instruction that data describes, or none when it describes something else. -/
def instruction? (d : Data) : Step CodeDraft (Option Instruction) := do
  let op : Step CodeDraft Opcode := Step.read (d.item 1).opcode
  let n (i : Nat) : Step CodeDraft Int := Step.read (d.item i).int
  let member : Step CodeDraft (Option MemberEntry) := libs.entryAs Entry.member? (d.item 2)
  match ← Step.read (d.item 0).name with
  | "load" => return some (.load (← op) (← Step.slot (d.item 2)))
  | "store" => return some (.store (← op) (← Step.slot (d.item 2)))
  | "iinc" => return some (.increment (← Step.slot (d.item 1)) (← n 2))
  | "branch" => return some (.branch (← op) (← Step.label (d.item 2)))
  | "lookupswitch" =>
    let fallback ← Step.label (d.item 1)
    return some (.lookupSwitch fallback (← switchCases (d.item 2)))
  | "tableswitch" =>
    let fallback ← Step.label (d.item 3)
    return some
      (.tableSwitch (signed 32 (← n 1)) (signed 32 (← n 2)) fallback (← switchCases (d.item 4)))
  | "return" => return some (.return (← op))
  | "throw" => return some .throw
  | "field" => return some (.field (← op) (← member))
  | "invoke" => return some (.invoke (← op) (← member))
  | "invokedynamic" => return some (.invokeDynamic (← libs.entryAs Entry.callSite? (d.item 1)))
  | "new" => return some (.newObject (← libs.class_ (d.item 1)))
  | "newarray" => return some (.newPrimitiveArray (← Step.read (d.item 1).kind))
  | "anewarray" => return some (.newReferenceArray (← libs.class_ (d.item 1)))
  | "multianewarray" => return some (.newMultiArray (← libs.class_ (d.item 1)) (← n 2))
  | "arrayload" => return some (.arrayLoad (← op))
  | "arraystore" => return some (.arrayStore (← op))
  | "typecheck" => return some (.typeCheck (← op) (← libs.class_ (d.item 2)))
  | "convert" => return some (.convert (← op))
  | "operator" => return some (.operator (← op))
  | "constant" =>
    return some (.constant (← op) (← n 2) (← libs.entryAs Entry.loadable? (d.item 3)))
  | "stack" => return some (.stack (← op))
  | "monitor" => return some (.monitor (← op))
  | "nop" => return some .nop
  | "discontinued" =>
    return some (.discontinued (← op) (← Step.label (d.item 2)) (← Step.slot (d.item 3)))
  | _ => return none

/-- The code element that data describes. -/
def codeElement (d : Data) : Step CodeDraft CodeElement := do
  match ← Step.read (d.item 0).name with
  | "label" => return .label (← Step.label (d.item 1))
  | "catch" => return .handler (← libs.handler d)
  | "line" => return .line (← Step.read (d.item 1).int)
  | "local" => return .localVariable (← libs.localScope d)
  | "localtype" => return .localVariableType (← libs.localScope d)
  | "attr" => return .attribute (← libs.attributeOf (d.item 1))
  | _ =>
    match ← libs.instruction? d with
    | some i => return .instruction i
    | none => Step.read (Data.unexpected "code element")

/-- The code element that data describes; `null` describes none. -/
def codeElement? (d : Data) : Step CodeDraft (Option CodeElement) := do
  if d.isNull then return none
  return some (← libs.codeElement d)

end Libraries

end JvmClass
