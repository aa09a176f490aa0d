import JvmClass.ClassFile
import JvmClass.Constant.PoolBuilder
import JvmClass.Outline.Constant

/-!
# Constants in scripts

A script names a constant by how to intern it. What a constant is made from is given
inside it and interned first, so a script fixes the order of the pool. Constants of
other classes, the libraries of a script, can be named by index.
-/

namespace JvmClass

/-- The classes that a script can refer to by number. -/
structure Libraries where
  /-- The class that is being transformed, under any negative number. -/
  self : Option ClassFile
  classes : Array ClassFile

namespace Libraries

/-- A library by number. -/
def get (l : Libraries) (k : Int) : Except Error ClassFile :=
  match if k < 0 then l.self else l.classes[k.toNat]? with
  | some c => .ok c
  | none => Data.unexpected "library"

/-- The libraries after a first search for the bootstrap table of one of them, by the
number of its input. -/
def settle (l : Libraries) (input : Nat) (search : TableSearch) : Libraries :=
  match input with
  | 0 => { l with self := l.self.map (·.settle search) }
  | k + 1 => { l with classes := l.classes.modify k (·.settle search) }

/-- Makes use of libraries. As long as `settles` finds that the use has to start over
with a search done, it does. -/
def settlingIn {α : Type} (settles : α → Option (Nat × TableSearch)) (use : Libraries → α) :
    Nat → Libraries → α
  | 0, l => use l
  | n + 1, l =>
    let outcome := use l
    match settles outcome with
    | some (input, search) => settlingIn settles use n (l.settle input search)
    | none => outcome

/-- What a use of libraries comes to. Each class is settled at most once. -/
def settling {α : Type} (l : Libraries) (settles : α → Option (Nat × TableSearch))
    (use : Libraries → α) : α :=
  settlingIn settles use (l.classes.size + 1) l

/-- Libraries as pairs of bytes and options, numbered in order. -/
def read (self : Option ClassFile) (d : Data) : Except Error Libraries := do
  let classes ← (← d.items).zipIdx.mapM fun (row, i) => do
    ClassFile.parse (i + 1) (← (row.item 0).bytes) (← (row.item 1).options)
  return ⟨self, classes.toArray⟩

end Libraries

namespace Script

/-- Interning what a script says. -/
abbrev Spec := ExceptT Error Interning

/-- What has to be there. -/
def needed {α : Type} {m : Type → Type} [Monad m] (o : Option α) : ExceptT Error m α :=
  match o with
  | some a => pure a
  | none => throw .outOfBounds

/-- Data that is nested deeper than its own depth, which cannot be. -/
def tooDeep : Error := .raised "data is nested too deeply"

/-- Interns a constant and makes an entry of it. -/
def intern {α : Type} (entry : α → Entry) (act : Interning α) : Spec (Option Entry) := do
  return some (entry (← ExceptT.lift act))

/-- The entry of a class. -/
def classEntry (e : ClassEntry) : Entry := .loadable (.class e)

mutual

/-- The constant that data names; `null` names none. -/
def entryWith (libs : Libraries) (fuel : Nat) (d : Data) : Spec (Option Entry) := do
  match fuel with
  | 0 => throw tooDeep
  | fuel + 1 =>
    if d.isNull then return none
    let s (i : Nat) : Spec Text := liftM (d.item i).string
    let n (i : Nat) : Spec Int := liftM (d.item i).int
    let inner {α : Type} (pick : Entry → Option α) (i : Nat) : Spec α := do
      needed ((← entryWith libs fuel (d.item i)).bind pick)
    let member (kind : MemberKind) : Spec (Option Entry) := do
      let owner ← inner Entry.class? 1
      intern .member (PoolBuilder.member kind owner (← s 2) (← s 3))
    match ← liftM (d.item 0).name with
    | "utf8" => intern .utf8 (PoolBuilder.utf8 (← s 1))
    | "int" => intern .loadable (PoolBuilder.integer (signed 32 (← n 1)))
    | "float" => intern .loadable (PoolBuilder.float (unsigned 32 (← n 1)))
    | "long" =>
      let v ← liftM (d.item 1).decimal
      intern .loadable (PoolBuilder.long (signed 64 v))
    | "double" => intern .loadable (PoolBuilder.double (← liftM (d.item 1).hexNat))
    | "class" => intern classEntry (PoolBuilder.class_ (← s 1))
    | "classof" => intern classEntry (PoolBuilder.classOf (← inner Entry.utf8? 1))
    | "classfor" => intern classEntry (PoolBuilder.classFor ⟨← s 1⟩)
    | "string" => intern .loadable (PoolBuilder.string (← s 1))
    | "nat" => intern .nameAndType (PoolBuilder.nameAndType (← s 1) (← s 2))
    | "natof" =>
      let name ← inner Entry.utf8? 1
      intern .nameAndType (PoolBuilder.nameAndTypeOf name (← inner Entry.utf8? 2))
    | "field" => member .field
    | "method" => member .method
    | "imethod" => member .interfaceMethod
    | "handle" =>
      let kind : HandleKind := ⟨(unsigned 8 (← n 1)).toUInt8⟩
      let target ← inner Entry.member? 2
      intern (fun e => .loadable (.handle e)) (PoolBuilder.handle kind target)
    | "mtype" => intern .loadable (PoolBuilder.methodType (← s 1))
    | "dyn" =>
      let row ← rowWith libs fuel (d.item 1)
      let nt ← ExceptT.lift (PoolBuilder.nameAndType (← s 2) (← s 3))
      intern .loadable (PoolBuilder.dynamic row nt)
    | "indy" =>
      let row ← rowWith libs fuel (d.item 1)
      let nt ← ExceptT.lift (PoolBuilder.nameAndType (← s 2) (← s 3))
      intern .callSite (PoolBuilder.callSite row nt)
    | "module" => intern .module (PoolBuilder.module (← s 1))
    | "package" => intern .package (PoolBuilder.package (← s 1))
    | "lib" =>
      let c ← liftM (libs.get (← n 1))
      return some (← liftM (c.pool.entry (← n 2)))
    | _ => liftM (Data.unexpected "constant" : Except Error (Option Entry))

/-- The row of the bootstrap table that data names. -/
def rowWith (libs : Libraries) (fuel : Nat) (d : Data) : Spec BootstrapRow := do
  match fuel with
  | 0 => throw tooDeep
  | fuel + 1 =>
    match d.item 0 with
    | .text _ =>
      let c ← liftM (libs.get (← liftM (d.item 1).int))
      liftM (c.pool.row (← liftM (d.item 2).int))
    | handle =>
      let handle ← needed ((← entryWith libs fuel handle).bind Entry.handle?)
      let arguments ← (← liftM (d.item 1).items).mapM fun d => do
        needed ((← entryWith libs fuel d).bind Entry.loadable?)
      ExceptT.lift (PoolBuilder.bootstrap handle arguments)

end

/-- The constant that data names; `null` names none. -/
def entry (libs : Libraries) (d : Data) : Spec (Option Entry) := entryWith libs (d.depth + 1) d

/-- The row of the bootstrap table that data names. -/
def row (libs : Libraries) (d : Data) : Spec BootstrapRow := rowWith libs (d.depth + 1) d

/-- A row of the bootstrap table by index and text. -/
def rowValue (r : BootstrapRow) : Data := .list [.ofNat r.index, .text r.text]

/-- The value of one step on a pool. -/
def poolValue (libs : Libraries) (d : Data) : Spec Data := do
  match ← liftM (d.item 0).name with
  | "bsm" => rowValue <$> row libs (d.item 1)
  | "get" =>
    let i ← liftM (d.item 1).int
    let outcome := (← get).entry i
    if let .error e := outcome then
      if let some e := e.abort? then throw e
    return .orError Entry.slot outcome
  | "getbsm" =>
    let i ← liftM (d.item 1).int
    return .orError rowValue (← ExceptT.lift (PoolBuilder.row i))
  | "bulk" =>
    let start ← liftM (d.item 1).int
    let n ← liftM (d.item 2).nat
    for i in [0:n] do
      let _ ← ExceptT.lift (PoolBuilder.integer (signed 32 (start + i)))
    return .null
  | "dump" =>
    let rows ← ExceptT.lift PoolBuilder.rowCount
    let p ← get
    return Outline.pool p.size rows p.entry fun i => (PoolBuilder.row i p).1
  | _ => return .orNull Entry.slot (← entry libs d)

/-- One step on a pool: its value, and the size and error of the pool after it. -/
def poolStep (libs : Libraries) (d : Data) : Spec Data := do
  let value ← poolValue libs d
  let p ← get
  return .list [value, .ofNat p.size, .ofError? p.error]

/-- Steps on a pool, one row for each. -/
def poolSteps (libs : Libraries) (d : Data) : Spec Data := do
  return .list (← (← liftM d.items).mapM (poolStep libs))

/-- Steps on a pool of their own. -/
def runPool (libs : Libraries) (d : Data) : Except Error Data :=
  ((poolSteps libs d).run.run .empty).1

end Script

end JvmClass
