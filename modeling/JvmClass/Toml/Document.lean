import JvmClass.Text
import Std.Data.HashSet

/-!
# Documents of TOML

A document is a table of values under keys. It is put together from headers and
assignments, and each may add to what others have made: a table can come into being only
because something was put into it, and may then still be given a header of its own, once.
-/

namespace JvmClass

namespace Toml

/-- A value of a document. Numbers with a fraction, dates and times stay as they are
spelled. -/
inductive Value where
  | text (t : Text)
  | integer (n : Int)
  | float (spelled : Text)
  | boolean (b : Bool)
  | moment (spelled : Text)
  | array (items : List Value)
  | table (entries : List (Text × Value))
  /-- Tables that share a header, the latest last. -/
  | tables (rows : List (List (Text × Value)))
deriving Inhabited

/-- Values under keys, in the order in which they were made. -/
abbrev Table := List (Text × Value)

/-- A place in a document: the keys on the way to it. -/
abbrev KeyPath := List Text

namespace Table

/-- The table with a value under a key, in place of the one it had. -/
def put (key : Text) (value : Value) : Table → Table
  | [] => [(key, value)]
  | (k, v) :: rest => if k = key then (k, value) :: rest else (k, v) :: put key value rest

/-- The table at a place. Among tables that share a header it is the latest. -/
def at? : KeyPath → Table → Option Table
  | [], t => some t
  | key :: path, t =>
    match t.lookup key with
    | some (.table inner) => at? path inner
    | some (.tables rows) => rows.getLast?.bind (at? path)
    | _ => none

/-- Changes the table at a place. -/
def modifyAt? (change : Table → Option Table) : KeyPath → Table → Option Table
  | [], t => change t
  | key :: path, t =>
    match t.lookup key with
    | some (.table inner) => do
      return t.put key (.table (← modifyAt? change path inner))
    | some (.tables rows) => do
      let last ← modifyAt? change path (← rows.getLast?)
      return t.put key (.tables (rows.dropLast ++ [last]))
    | _ => none

end Table

/-- A document under construction. -/
structure Document where
  root : Table
  /-- Places of tables that exist only because something was put into them. -/
  implied : Std.HashSet KeyPath
  /-- Places of arrays. -/
  arrays : Std.HashSet KeyPath
  /-- The place that assignments refer to. -/
  context : KeyPath

/-- An action on a document; it fails when the document contradicts itself. -/
abbrev Drafts := StateT Document Option

namespace Document

/-- A document that nothing has been put into. -/
def empty : Document := ⟨[], {}, {}, []⟩

/-- Marks a place as implied. -/
def imply (path : KeyPath) : Drafts Unit :=
  modify fun d => { d with implied := d.implied.insert path }

/-- Whether a value takes the place of the one that a key has, which is an error for
`none`. An array is written over what its tables have put there; anything else leaves an
implied table as it is. -/
def overwrites? (d : Document) (path : KeyPath) : Option Bool :=
  if d.implied.contains path then some (d.arrays.contains path) else none

/-- Puts a value under a key of the present table. -/
def assign (key : Text) (value : Value) : Drafts Unit := do
  let d ← get
  let path := d.context ++ [key]
  let table ← Table.at? d.context d.root
  if (table.lookup key).isNone then
    let root ← Table.modifyAt? (fun t => some (t.put key value)) d.context d.root
    set { d with root }
  else
    let implied := d.implied.erase path
    if ← d.overwrites? path then
      let root ← Table.modifyAt? (fun t => some (t.put key value)) d.context d.root
      set { d with root, implied }
    else set { d with implied }

/-- Remembers whether a key of the present table, or the table itself for an empty key,
holds an array. -/
def note (key : Text) (isArray : Bool) : Drafts Unit :=
  modify fun d =>
    let path := d.context ++ (if key.isEmpty then [] else [key])
    let path := if path.isEmpty then [[]] else path
    { d with arrays := if isArray then d.arrays.insert path else d.arrays.erase path }

/-- Makes sure that there are tables on the way to a place, from `done` on. -/
def descend (done : KeyPath) : KeyPath → Drafts Unit
  | [] => return
  | key :: rest => do
    let d ← get
    let path := done ++ [key]
    match (← Table.at? done d.root).lookup key with
    | some (.table _) | some (.tables _) => descend path rest
    | some _ => failure
    | none =>
      let root ← Table.modifyAt? (fun t => some (t.put key (.table []))) done d.root
      set { d with root, implied := d.implied.insert path }
      descend path rest

/-- Makes a table and goes on in it. -/
def enterTable (path : KeyPath) : Drafts Unit := do
  let parent := path.dropLast
  descend [] parent
  modify fun d => { d with context := parent }
  assign (path.getLastD []) (.table [])
  modify fun d => { d with context := path }

/-- One more table under a key. -/
def addRow (key : Text) (t : Table) : Option Table :=
  match t.lookup key with
  | none => some (t.put key (.tables [[]]))
  | some (.tables rows) => some (t.put key (.tables (rows ++ [[]])))
  | some _ => none

/-- Makes one more table under a shared header and goes on in it. -/
def enterRow (path : KeyPath) : Drafts Unit := do
  let parent := path.dropLast
  descend [] parent
  let d ← get
  let root ← Table.modifyAt? (addRow (path.getLastD [])) parent d.root
  set { d with root, context := path }

/-- Goes on in the tables that a dotted key leads through. -/
def enterDotted : KeyPath → Drafts Unit
  | [] => return
  | key :: rest => do
    let path := (← get).context ++ [key]
    imply path
    enterTable path
    enterDotted rest

/-- Does something in another place and comes back. -/
def within {α : Type} (act : Drafts α) : Drafts α := do
  let context := (← get).context
  let a ← act
  modify fun d => { d with context }
  return a

end Document

end Toml

end JvmClass
