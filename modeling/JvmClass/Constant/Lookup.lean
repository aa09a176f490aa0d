import JvmClass.ClassFile.Layout
import JvmClass.Constant.Entry
import JvmClass.ModifiedUtf8

/-!
# Looking constants up

Constants are decoded when they are asked for, together with what they refer to,
and remembered. A lookup that succeeds does so whatever was looked up before,
and a lookup that fails leaves nothing behind. A constant that is met again while
it is being decoded refers to itself, through however many others; that is an
error, so every lookup ends.

One error does depend on what was looked up before. The search for the bootstrap table
reads the names of the class attributes, and a constant that needs the table can stand
where a name should. If the search began with that constant it refers to itself, else
it finds no rows; either way there is no table from then on. The pool of such an input
is unsettled until something searches for the table.
-/

namespace JvmClass

/-- An attribute's name and where its body lies. -/
structure Envelope where
  name : Utf8Entry
  offset : Nat
  length : Nat
deriving Inhabited

/-- What has been decoded so far. -/
structure Memo where
  entries : Array (Option Entry)
  /-- Offsets of the bootstrap rows, once the table has been looked for. -/
  table : Option (Except Error (Array Nat))
  rows : Array (Option BootstrapRow)
deriving Inhabited

/-- A lookup: it may fail, and remembers what it decodes either way. -/
abbrev Lookup := ExceptT Error (StateM Memo)

/-- A way to get the entry of an index. -/
abbrev EntryAt := Nat → Lookup Entry

namespace Lookup

/-- A read that the scan of the layout has covered. -/
def covered {α : Type} (o : Option α) : Lookup α := liftM (Layout.covered o)

/-- The entry of index `i`, which the two bytes at `offset` gave, as what `want` takes
it for. -/
def refer {α : Type} (entry : EntryAt) (want : Entry → Option α) (offset i : Nat) : Lookup α :=
  ExceptT.adapt (fun e => Error.malformed offset (.reference i) (some e)) do
    let e ← entry i
    match want e with
    | some a => return a
    | none => throw (.wrongKind (some (i, e.tag)))

/-- The entry whose index stands at `p`, for a constant that starts at `offset`. -/
def referAt {α : Type} (l : Layout) (entry : EntryAt) (want : Entry → Option α)
    (offset p : Nat) : Lookup α := do
  refer entry want offset (← covered (l.cursor.u2? p))

/-- The attribute envelopes of a table of `n` rows at `p`, onto those read so far. -/
def envelopesFrom (l : Layout) (entry : EntryAt) (done : List Envelope) (p : Nat) :
    Nat → Lookup (List Envelope)
  | 0 => return done.reverse
  | n + 1 => do
    let name ← referAt l entry Entry.utf8? p p
    let length ← covered (l.cursor.u4? (p + 2))
    envelopesFrom l entry (⟨name, p + 6, length⟩ :: done) (p + 6 + length) n

/-- The attribute envelopes of the class. -/
def envelopes (l : Layout) (entry : EntryAt) : Lookup (List Envelope) := do
  envelopesFrom l entry [] (l.attributes + 2) (← covered (l.cursor.u2? l.attributes))

/-- A bootstrap row's offset. -/
def scanRow : Scan Nat := do
  let p ← Scan.pos
  Scan.skip 2
  let n ← Scan.u2
  Scan.skip (2 * n)
  return p.toNat

/-- The offsets of the rows of a bootstrap table. -/
def scanTable (l : Layout) (env : Envelope) : Except Error (Array Nat) :=
  match Scan.onWindow l.cursor env.offset (env.offset + env.length) (Scan.counted scanRow) with
  | .error s => .error (.malformed s.pos .bootstrapTable (some s.error))
  | .ok (offsets, d) =>
    if d.remaining ≠ 0 then .error (.flaw d.pos (.bootstrapTrailing d.remaining))
    else .ok offsets.toArray

/-- The name of the attribute that holds the bootstrap methods. -/
def bootstrapMethods : Text := "BootstrapMethods"

/-- Looks for the bootstrap table among the class attributes. While it is looked for
the table counts as empty. -/
def findTable (l : Layout) (entry : EntryAt) : Lookup (Array Nat) := do
  match (← get).table with
  | some (.ok offsets) => return offsets
  | some (.error e) => throw e
  | none =>
    modify fun m => { m with table := some (.ok #[]) }
    let found ← observing do
      match (← envelopes l entry).find? fun env => env.name.text = bootstrapMethods with
      | some env => liftM (scanTable l env)
      | none => return #[]
    modify fun m =>
      { m with
        table := some found
        rows := Array.replicate (match found with | .ok o => o.size | .error _ => 0) none }
    liftM found
where
  /-- The outcome of a lookup as a value. -/
  observing (x : Lookup (Array Nat)) : Lookup (Except Error (Array Nat)) :=
    ExceptT.lift x.run

/-- The loadable entries whose indices stand from `p` on, onto those read so far. -/
def argumentsFrom (l : Layout) (entry : EntryAt) (done : List Loadable) (p : Nat) :
    Nat → Lookup (List Loadable)
  | 0 => return done.reverse
  | n + 1 => do
    let a ← referAt l entry Entry.loadable? p p
    argumentsFrom l entry (a :: done) (p + 2) n

/-- Row `r` of the bootstrap table. -/
def row (l : Layout) (origin : Origin) (entry : EntryAt) (r : Int) : Lookup BootstrapRow := do
  let table ← findTable l entry
  match if r < 0 then none else table[r.toNat]? with
  | none => throw (.flaw 0 (.bootstrapRange r table.size))
  | some p =>
    if let some (some done) := (← get).rows[r.toNat]? then return done
    let handle ← referAt l entry Entry.handle? p p
    let n ← covered (l.cursor.u2? (p + 2))
    let arguments ← argumentsFrom l entry [] (p + 4) n
    let done := BootstrapRow.mk ⟨origin, r.toNat⟩ handle arguments
    modify fun m => { m with rows := m.rows.setIfInBounds r.toNat (some done) }
    return done

/-- A reference to a member. -/
def member (l : Layout) (entry : EntryAt) (place : Place) (kind : MemberKind) (p : Nat) :
    Lookup Entry := do
  let owner ← referAt l entry Entry.class? p (p + 1)
  let nameAndType ← referAt l entry Entry.nameAndType? p (p + 3)
  return .member { place, kind, owner, nameAndType }

/-- A constant that a bootstrap row produces, made by `build`. -/
def produced (l : Layout) (entry : EntryAt) (place : Place) (p : Nat)
    (build : BootstrapRow → NameAndTypeEntry → Entry) : Lookup Entry := do
  let r ← covered (l.cursor.u2? (p + 1))
  let bootstrap ← ExceptT.adapt
    (fun e => Error.malformed p (.bootstrapOf place.index) (some e))
    (row l place.origin entry r)
  let nameAndType ← referAt l entry Entry.nameAndType? p (p + 3)
  return build bootstrap nameAndType

/-- Decodes the constant of `place`, which starts at `p`, getting others from `entry`. -/
def decode (l : Layout) (entry : EntryAt) (place : Place) (p : Nat) : Lookup Entry := do
  let c := l.cursor
  let b ← covered (c.u1? p)
  match Tag.ofByte? b.toUInt8 with
  | none => throw (.flaw p (.unknownTag b place.index))
  | some .utf8 =>
    match ModifiedUtf8.decode? (← covered (c.slice? (p + 3) (← covered (c.u2? (p + 1))))) with
    | some text => return .utf8 ⟨place, text⟩
    | none => throw (.malformed p (.utf8 place.index) (some .encoding))
  | some .integer => return .loadable (.integer place (← covered (c.s4? (p + 1))))
  | some .float => return .loadable (.float place (← covered (c.u4? (p + 1))))
  | some .long => return .loadable (.long place (← covered (c.s8? (p + 1))))
  | some .double => return .loadable (.double place (← covered (c.u8? (p + 1))))
  | some .class =>
    return .loadable (.class ⟨place, ← referAt l entry Entry.utf8? p (p + 1)⟩)
  | some .string =>
    return .loadable (.string place (← referAt l entry Entry.utf8? p (p + 1)))
  | some .methodType =>
    return .loadable (.methodType place (← referAt l entry Entry.utf8? p (p + 1)))
  | some .module => return .module ⟨place, ← referAt l entry Entry.utf8? p (p + 1)⟩
  | some .package => return .package ⟨place, ← referAt l entry Entry.utf8? p (p + 1)⟩
  | some .nameAndType =>
    let name ← referAt l entry Entry.utf8? p (p + 1)
    let type ← referAt l entry Entry.utf8? p (p + 3)
    return .nameAndType { place, name, type }
  | some .fieldRef => member l entry place .field p
  | some .methodRef => member l entry place .method p
  | some .interfaceMethodRef => member l entry place .interfaceMethod p
  | some .methodHandle =>
    let kind : HandleKind := ⟨(← covered (c.u1? (p + 1))).toUInt8⟩
    let target ← referAt l entry Entry.member? p (p + 2)
    if !kind.accepts target.tag then throw (.flaw p (.handleTarget place.index kind target.tag))
    return .loadable (.handle { place, kind, target })
  | some .dynamic => produced l entry place p fun row nt => .loadable (.dynamic place row nt)
  | some .invokeDynamic => produced l entry place p fun row nt => .callSite ⟨place, row, nt⟩

/-- The entry of index `i`, while those in `open_` are being decoded. The number bounds
how deep references can still go; the pool's size is always enough, because every
step opens another index. -/
def entryWithin (l : Layout) (origin : Origin) : Nat → List Nat → Nat → Lookup Entry
  | 0, _, i => throw (.flaw ((l.offsets[i]?.join).getD 0) (.selfReference i))
  | depth + 1, open_, i => do
    match l.offsets[i]?.join with
    | none => throw (.flaw 0 (.notAnEntry i l.size))
    | some p =>
      if let some (some done) := (← get).entries[i]? then return done
      if open_.contains i then throw (.flaw p (.selfReference i))
      let done ← decode l (entryWithin l origin depth (i :: open_)) ⟨origin, i⟩ p
      modify fun m => { m with entries := m.entries.setIfInBounds i (some done) }
      return done

/-- The entry of index `i`. -/
def entry (l : Layout) (origin : Origin) : EntryAt := entryWithin l origin (l.size + 1) []

/-- Nothing decoded yet. -/
def fresh (l : Layout) : Memo := ⟨Array.replicate l.size none, none, #[]⟩

/-- The outcomes of lookups made one after another, the last first. -/
def sweep {α : Type} (look : Nat → Lookup α) :
    List Nat → List (Except Error α) → Memo → List (Except Error α) × Memo
  | [], done, memo => (done.reverse, memo)
  | i :: rest, done, memo =>
    match (look i).run.run memo with
    | (outcome, memo) => sweep look rest (outcome :: done) memo

end Lookup

/-- The constants of an input: what looking each index and each bootstrap row up
gives. -/
structure Pool where
  origin : Origin
  entries : Array (Except Error Entry)
  rows : Except Error (Array (Except Error BootstrapRow))
  /-- Whether the first search for the bootstrap table counts and has yet to be made. -/
  unsettled : Bool
deriving Inhabited

namespace Pool

/-- The outcomes of all lookups, in the order of the indices, after a first one. -/
def sweptAfter {α : Type} (l : Layout) (origin : Origin) (first : Lookup α) : Pool :=
  let (entries, memo) :=
    Lookup.sweep (Lookup.entry l origin) (List.range l.size) [] (first.run.run (Lookup.fresh l)).2
  let (table, memo) := (Lookup.findTable l (Lookup.entry l origin)).run.run memo
  { origin
    entries := entries.toArray
    rows := table.map fun offsets =>
      ((Lookup.sweep (fun r => Lookup.row l origin (Lookup.entry l origin) r)
        (List.range offsets.size) [] memo).1).toArray
    unsettled := false }

/-- Whether the search for the bootstrap table comes to a constant that needs the table. -/
def searchIsCircular (l : Layout) (origin : Origin) : Bool :=
  match ((Lookup.findTable l (Lookup.entry l origin)).run.run (Lookup.fresh l)).1 with
  | .ok _ => false
  | .error e => e.lacksRow

/-- The pool before any search for the bootstrap table: every lookup that makes one is the
first to do so. -/
def beforeSearch (number : Nat) (p : Pool) : Pool :=
  { p with
    entries := p.entries.mapIdx fun i outcome =>
      match outcome with
      | .ok e => .ok e
      | .error e => .error (if e.lacksRow then .unsettled number (.constant i) else e)
    rows := .error (.unsettled number .table)
    unsettled := true }

/-- The pool of a scanned class file. The number tells the input from others. -/
def ofLayout (l : Layout) (number : Nat) : Pool :=
  let p := sweptAfter l (.input number) (pure ())
  if searchIsCircular l p.origin then p.beforeSearch number else p

/-- The pool of a scanned class file after a first search for its bootstrap table. -/
def afterSearch (l : Layout) (origin : Origin) (search : TableSearch) : Pool :=
  match search with
  | .constant i => sweptAfter l origin (Lookup.entry l origin i)
  | .table => sweptAfter l origin (Lookup.findTable l (Lookup.entry l origin))

/-- One more than the highest index. -/
def size (p : Pool) : Nat := p.entries.size

/-- The entry of an index. -/
def entry (p : Pool) (i : Int) : Except Error Entry :=
  if i < 0 then .error (.flaw 0 (.notAnEntry i p.size))
  else (p.entries[i.toNat]?).getD (.error (.flaw 0 (.notAnEntry i p.size)))

/-- The first error that cannot be kept back when all constants are looked up. -/
def abort? (p : Pool) : Option Error :=
  if p.unsettled then
    p.entries.toList.findSome? fun
      | .ok _ => none
      | .error e => e.abort?
  else none

/-- The number of bootstrap rows, none when the table cannot be read. -/
def rowCount (p : Pool) : Nat :=
  match p.rows with
  | .ok rows => rows.size
  | .error _ => 0

/-- A row of the bootstrap table. -/
def row (p : Pool) (r : Int) : Except Error BootstrapRow := do
  let rows ← p.rows
  let missing := Error.flaw 0 (.bootstrapRange r rows.size)
  if r < 0 then throw missing
  (rows[r.toNat]?).getD (.error missing)

/-- The entry of an index as what `want` takes it for. -/
def entryAs {α : Type} (p : Pool) (want : Entry → Option α) (i : Int) : Except Error α := do
  let e ← p.entry i
  match want e with
  | some a => return a
  | none => throw (.wrongKind (some (i, e.tag)))

/-- The entry that an index standing at `offset` refers to. -/
def refer {α : Type} (p : Pool) (want : Entry → Option α) (offset : Int) (i : Nat) :
    Except Error α :=
  (p.entryAs want i).mapError fun e => .malformed offset (.reference i) (some e)

end Pool

end JvmClass
