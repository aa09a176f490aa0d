import JvmClass.Options
import JvmClass.Path
import JvmClass.Renaming
import JvmClass.Toml.Parser

/-!
# Project files

A project file says how classes are to be read, what to rename, and where to put what comes
out. Keys are taken without regard to case, and keys that mean nothing are passed over. New
names are checked; a name that ends in a slash stands for a package and can only become
another package.
-/

namespace JvmClass

/-- A rename that a project file must not ask for. -/
inductive RenameFault where
  /-- One of the two names is a package and the other is not. -/
  | mixed (old new : Text)
  | emptyOld (old : Text)
  | emptyNew (old new : Text)
  | badOld (old name : Text)
  | badNew (old new name : Text)
  | gapInOld (old name : Text)
  | gapInNew (old new name : Text)
deriving DecidableEq, Repr

/-- The wording of a fault. -/
def RenameFault.message : RenameFault → Text
  | .mixed old new => both old new ++ ": a package prefix must map to a package prefix"
  | .emptyOld old => single old ++ ": empty class name"
  | .emptyNew old new => both old new ++ ": empty class name"
  | .badOld old name => single old ++ ": " ++ name.quoted ++ " is not an internal class name"
  | .badNew old new name =>
    both old new ++ ": " ++ name.quoted ++ " is not an internal class name"
  | .gapInOld old name => single old ++ ": " ++ name.quoted ++ " has an empty package segment"
  | .gapInNew old new name =>
    both old new ++ ": " ++ name.quoted ++ " has an empty package segment"
where
  single (old : Text) : Text := "remap " ++ old.quoted
  both (old new : Text) : Text := "remap " ++ old.quoted ++ " = " ++ new.quoted

/-- What can be wrong with a name of a class. -/
inductive NameFault where
  | empty
  /-- It has a character that no internal name has. -/
  | bad
  /-- It has nothing before, after or between slashes. -/
  | gap
deriving DecidableEq, Repr

namespace InternalName

/-- A name without the slash that marks it as a package. -/
def withoutMark (isPackage : Bool) (name : Text) : Text :=
  if isPackage && name.endsWith [47] then name.dropLast else name

/-- What is wrong with a name, if anything. -/
def fault? (name : Text) : Option NameFault :=
  if name.isEmpty then some .empty
  else if name.any fun c => (".;[<>" : Text).contains c then some .bad
  else if name.startsWith [47] || name.endsWith [47] || Text.containsText [47, 47] name then
    some .gap
  else none

end InternalName

/-- What is wrong with a rename, if anything. -/
def RenameFault.of? (old new : Text) : Option RenameFault :=
  let isPackage := RenameTable.isPackage old
  if isPackage != RenameTable.isPackage new then some (.mixed old new)
  else
    let oldName := InternalName.withoutMark isPackage old
    let newName := InternalName.withoutMark isPackage new
    match InternalName.fault? oldName, InternalName.fault? newName with
    | some .empty, _ => some (.emptyOld old)
    | some .bad, _ => some (.badOld old oldName)
    | some .gap, _ => some (.gapInOld old oldName)
    | none, some .empty => some (.emptyNew old new)
    | none, some .bad => some (.badNew old new newName)
    | none, some .gap => some (.gapInNew old new newName)
    | none, none => none

/-- A project file. -/
structure Manifest where
  name : Text
  options : Options
  /-- In the order of the old names. -/
  renames : RenameTable
  /-- Where to put what comes out. -/
  output : Text
  /-- How many classes to work on at a time, if the file says. -/
  jobs : Option Nat
  /-- The folder that the file is in. -/
  folder : Text

/-- A text that is no project file. -/
inductive ManifestError where
  /-- It is no document, or has a value of the wrong type. -/
  | unreadable
  | rename (fault : RenameFault)
deriving DecidableEq, Repr

/-- The wording of an error. -/
def ManifestError.message : ManifestError → Text
  | .unreadable => "toml"
  | .rename fault => fault.message

namespace Manifest

open Toml

/-- What a project file is called. -/
def fileName : Text := "cfx.toml"

/-- A code point in lower case, as far as keys of a project file are concerned. Besides the
capital letters this takes in two letters whose lower case is a plain one. -/
def foldCode (c : Nat) : Nat :=
  if 65 ≤ c && c ≤ 90 then c + 32
  else if c = 0x212A then 107
  else if c = 0x17F then 115
  else c

/-- A key without regard to case. -/
def foldKey (key : Text) : List Nat :=
  key.pieces.map fun
    | .scalar c => foldCode c
    | .stray b => 0x110000 + b.toNat

/-- The values under a key, without regard to case. -/
def values (t : Table) (key : Text) : List Value :=
  (t.filter fun (k, _) => foldKey k = foldKey key).map (·.2)

/-- The last of the values under a key, all of which have to be of one type, or a default
value if there is none. -/
def last? {α : Type} (read : Value → Option α) (otherwise : α) (t : Table) (key : Text) :
    Option α := do
  return ((← (values t key).mapM read).getLast?).getD otherwise

/-- The entries of the tables under a key. -/
def section? (t : Table) (key : Text) : Option Table := do
  return (← (values t key).mapM fun
    | .table entries => some entries
    | _ => none).flatten

/-- The text under a key; a missing one is empty. -/
def text? : Table → Text → Option Text :=
  last? (fun
    | .text s => some s
    | _ => none) []

/-- The number under a key; a missing one is zero. -/
def integer? : Table → Text → Option Int :=
  last? (fun
    | .integer n => some n
    | _ => none) 0

/-- The truth value under a key; a missing one is false. -/
def boolean? : Table → Text → Option Bool :=
  last? (fun
    | .boolean b => some b
    | _ => none) false

/-- The options by the keys that switch them on. -/
def optionKeys : List (String × Options) :=
  [("drop-debug-info", .dropDebugInfo), ("drop-line-numbers", .dropLineNumbers),
    ("drop-unknown-attributes", .dropUnknownAttributes), ("drop-stack-maps", .dropStackMaps),
    ("no-pool-sharing", .noPoolSharing), ("keep-max-stack", .keepMaxStack)]

/-- The options that a table switches on. -/
def options? (t : Table) : Option Options :=
  optionKeys.foldlM (fun o (key, option) => do
    return if ← boolean? t key then o.union option else o) Options.none

/-- The renames of a document, by old name. Anything but a table means none. -/
def renames? (t : Table) : Option RenameTable := do
  let entries := (values t "remap").flatMap fun
    | .table entries => entries
    | _ => []
  let rows ← entries.mapM fun (old, v) =>
    match v with
    | .text new => some (old, new)
    | _ => none
  let table := rows.foldl (fun table (old, new) => RenameTable.put old new table) []
  return table.mergeSort fun a b => Text.ble a.1 b.1

/-- The project file that a document says, before its renames are checked. -/
def ofTable? (t : Table) : Option Manifest := do
  let project ← section? t "project"
  let options ← options? (← section? t "options")
  let renames ← renames? t
  let output ← section? t "output"
  let dir ← text? output "dir"
  let jobs ← integer? output "jobs"
  return {
    name := ← text? project "name"
    options, renames
    output := if dir.isEmpty then "out" else dir
    jobs := if 0 < jobs then some jobs.toNat else none
    folder := [] }

/-- Reads a project file. It is not yet known which folder it is in. -/
def parse (s : Text) : Except ManifestError Manifest :=
  match (Toml.parse? s).bind ofTable? with
  | none => .error .unreadable
  | some m =>
    match m.renames.findSome? fun (old, new) => RenameFault.of? old new with
    | some fault => .error (.rename fault)
    | none => .ok m

/-- Where to put what comes out, seen from where the folder of the file is named. -/
def outputFolder (m : Manifest) : Text :=
  if Path.isAbsolute m.output || m.folder.isEmpty then m.output
  else Path.join m.folder m.output

end Manifest

end JvmClass
