import JvmClass.Outline.ClassFile
import JvmClass.Script.Code

/-!
# Transforms in scripts

Most transforms exist for classes, fields, methods and bodies alike. They are made
here from what differs between the four: the kinds of elements, the steps that can be
run, and how classes are renamed.
-/

namespace JvmClass

/-- A table of new names, as a record. -/
def RenameTable.read (d : Data) : Except Error RenameTable :=
  match d with
  | .record fs => fs.mapM fun (key, value) => do return (key, ← value.string)
  | _ => Data.unexpected "record"

/-- A renaming from a table of names, which also stand for packages when `packages`
says so. Without a table nothing is renamed. -/
def Renaming.read (table packages : Data) : Except Error Renaming := do
  if table.isNull then return .identity
  let table ← RenameTable.read table
  if ← packages.truth then return .ofPackages table
  return .ofTable table

namespace Script

/-- The value read, or a default value when there is none. -/
def orDefault {α : Type} [Inhabited α] (r : Except Error α) : α := r.toOption.getD default

/-- A transform of a script; it can come to nothing. -/
abbrev Made (δ ε : Type) := Option (Transform Journal δ ε)

/-- What tells the transforms of one sort of thing from those of another. -/
structure TransformOps (δ ε : Type) where
  kind : ε → Text
  step : Outlet Journal δ ε → Data → Step δ Unit
  rename : Renaming → Transform Journal δ ε
  /-- A transform inside another. -/
  inner : Data → StateM Journal (Made δ ε)
  /-- A transform that is special to one sort of thing. -/
  special : String → Data → StateM Journal (Made δ ε)

variable {δ ε : Type} [Draft δ ε]

/-- Passes an element on. -/
def forward (o : Outlet Journal δ ε) (e : ε) : Handler δ Unit := ExceptT.lift (o.emit e)

/-- Logs the kind of every element, and the end. -/
def logging (kind : ε → Text) (tag : Data) : Transform Journal δ ε :=
  .leaf
    (fun o e => do
      keeping (Journal.write (.list [tag, Outline.elementKind (kind e)]))
      forward o e)
    fun _ => keeping (Journal.write (.list [tag, .word "end"]))

/-- Counts elements in a counter of the journal, and logs the count at the end. -/
def counting (tag : Data) (counter : Nat) : Transform Journal δ ε :=
  .leaf
    (fun o e => do
      keeping (modify fun j => { j with counters := j.counters.modify counter (· + 1) })
      forward o e)
    fun _ => keeping do
      let n := (← get).counters[counter]?.getD 0
      Journal.write (.list [tag, .ofNat n])

/-- The transform that data describes; `null` describes none. -/
def TransformOps.make (ops : TransformOps δ ε) (d : Data) : StateM Journal (Made δ ε) := do
  if d.isNull then return none
  let kinds := orDefault (d.item 1).strings
  let matched (e : ε) : Bool := kinds.contains (ops.kind e) || kinds.contains ("*" : Text)
  let steps (i : Nat) (o : Outlet Journal δ ε) : Handler δ Unit :=
    runSteps (ops.step o) (orDefault (d.item i).items)
  let name := orDefault (d.item 0).name
  match name with
  | "pass" => return some .pass
  | "end" => return some (.endHandler (steps 1))
  | "drop" => return some (.dropping matched)
  | "chain" => return Transform.chainAll (← (orDefault (d.item 1).items).mapM ops.inner)
  | "stateful" => return some (.stateful (ops.inner (d.item 1)))
  | "remap" => return (Renaming.read (d.item 1) (d.item 2)).toOption.map ops.rename
  | "log" => return some (logging ops.kind (d.item 1))
  | "count" =>
    let counter := (← get).counters.size
    modify fun j => { j with counters := j.counters.push 0 }
    return some (counting (d.item 1) counter)
  | "dup" =>
    return some (.ofAccept fun o e => do
      forward o e
      if matched e then forward o e)
  | "insert" =>
    return some (.ofAccept fun o e => do
      if matched e then steps 2 o
      forward o e)
  | "replace" => return some (.ofAccept fun o e => if matched e then steps 2 o else forward o e)
  | "fail" =>
    let message := orDefault (d.item 2).string
    return some (.ofAccept fun o e => do
      if matched e then throw (.raised message)
      forward o e)
  | "failend" =>
    let message := orDefault (d.item 1).string
    return some (.leaf forward fun _ => throw (.raised message))
  | _ => ops.special name d

end Script

end JvmClass
