import JvmClass.Command.Inspect
import JvmClass.Renaming.Transform

/-!
# The command that renames classes

`remap` renames classes in files, folders and archives and writes them under the output
folder. A class goes where its new name says. An archive keeps its name, and what is no
class in it stays as it is; if one of its classes fails, it is not written at all.
-/

namespace JvmClass

/-- What the command line says. -/
structure RemapRequest where
  config : Text
  output : Text
  /-- How many classes to work on at a time; zero leaves it open. -/
  jobs : Int
  renames : RenameTable
deriving Repr

namespace RemapRequest

/-- The options of the command. -/
def specs : List (OptionSpec RemapRequest) :=
  [.text "config" fun value r => { r with config := value },
    .text "o" fun value r => { r with output := value },
    .valued "j" fun value r => do
      return { r with jobs := ← (Numeral.read value).mapError .number },
    .valued "map" fun value r => do return { r with renames := ← RenameTable.add value r.renames }]

/-- A request that asks for nothing. -/
def empty : RemapRequest := ⟨[], [], 0, []⟩

end RemapRequest

/-- What to rename, how to read classes, and where to put them. -/
structure RemapPlan where
  table : RenameTable
  options : Options
  folder : Text

namespace RemapPlan

/-- The plan that a request and a project file make together. The request wins. -/
def of (request : RemapRequest) (manifest : Option Manifest) : RemapPlan :=
  let renames := (manifest.map (·.renames)).getD []
  let folder : Text := (manifest.map (·.outputFolder)).getD ("out" : Text)
  { table := request.renames.foldl (fun table (old, new) => table.put old new) renames
    options := (manifest.map (·.options)).getD .none
    folder := if request.output.isEmpty then folder else request.output }

/-- The class under its new name: the path that goes with the name, and the bytes. -/
def apply (plan : RemapPlan) (s : ClassSource) : Except Error (Text × Bytes) := do
  let r := Renaming.ofPackages plan.table
  let c ← s.parse plan.options
  let bytes ← c.query r.classFile
  let name ← r.internalName c.this.internalName
  return (name ++ ".class", bytes)

end RemapPlan

namespace ArchiveEntry

/-- The folders of an archive that hold classes for one version each. -/
def versions : Text := "META-INF/versions/"

/-- The part of a name that says which version a class is for. It is empty for a class
that is for all. -/
def versionFolder (name : Text) : Text :=
  match Text.dropFront? versions name with
  | none => []
  | some rest =>
    match Text.cut? Path.slash rest with
    | none => []
    | some (version, _) => versions ++ version ++ "/"

end ArchiveEntry

namespace Action

/-- The number of classes that were written, and the problems that were met. -/
abbrev RemapTally := Nat × List Problem

/-- Renames one class, and tells what comes out. -/
def remapClass (plan : RemapPlan) (s : ClassSource) : Action (Except Problem (Text × Bytes)) := do
  return (← attempt (plan.apply s)).mapError (.inClass s.name)

/-- Writes a file, with all folders on the way to it. -/
def writeUnder (path : Text) (content : Content) : Action (Option FileError) := do
  match ← change (·.makeFolders (Path.folder path)) with
  | some e => return some e
  | none => change (·.write path content)

/-- Writes classes until one cannot be written. -/
def writeClasses (plan : RemapPlan) : List (Text × Bytes) → Action RemapTally
  | [] => return (0, [])
  | (name, bytes) :: rest => do
    match ← writeUnder (Path.join plan.folder name) (.bytes bytes) with
    | some e => return (0, [.file e])
    | none =>
      let (count, problems) ← writeClasses plan rest
      return (count + 1, problems)

/-- The problems among outcomes. -/
def problems {α : Type} (outcomes : List (Except Problem α)) : List Problem :=
  outcomes.filterMap fun
    | .ok _ => none
    | .error p => some p

/-- Renames classes, and writes those that come out. -/
def remapClasses (plan : RemapPlan) (sources : List ClassSource) : Action RemapTally := do
  let outcomes ← sources.mapM (remapClass plan)
  let (count, unwritten) ← writeClasses plan (outcomes.filterMap Except.toOption)
  return (count, problems outcomes ++ unwritten)

/-- An entry of an archive after renaming. -/
def remapEntry (plan : RemapPlan) (path : Text) (e : ArchiveEntry) :
    Action (Except Problem ArchiveEntry) := do
  if !e.isClass then return .ok e
  return (← remapClass plan (Workspace.entrySource path e)).map fun (name, bytes) =>
    ⟨ArchiveEntry.versionFolder e.name ++ name, bytes⟩

/-- Renames the classes of an archive, and writes it if all come out. -/
def remapArchive (plan : RemapPlan) (path : Text) : Action RemapTally := do
  match (← get).workspace.archive path with
  | .error p => return (0, [p])
  | .ok entries =>
    let outcomes ← entries.mapM (remapEntry plan path)
    match problems outcomes with
    | p :: ps => return (0, p :: ps)
    | [] =>
      let content := Content.archive (outcomes.filterMap Except.toOption)
      let fault ← writeUnder (Path.join plan.folder (Path.base path)) content
      return (entries.countP (·.isClass), (fault.map Problem.file).toList)

/-- Renames the classes that a path leads to. -/
def remapPath (plan : RemapPlan) (path : Text) : Action RemapTally := do
  let w := (← get).workspace
  match w.stat path with
  | .error e => return (0, [.file e])
  | .ok (loc, node) =>
    if Path.isArchive path then remapArchive plan path
    else
      match node with
      | .folder => remapClasses plan (w.classesUnder path loc)
      | .file content => remapClasses plan [⟨path, content.raw⟩]

/-- Renames classes, and tells how many. -/
def remap (arguments : List Text) : Action Unit := do
  let (request, paths) ← options RemapRequest.specs .empty arguments
  if paths.isEmpty then throw .failed
  let plan := RemapPlan.of request (← manifest request.config)
  if plan.table.isEmpty then throw .noRenames
  let tallies ← paths.mapM (remapPath plan)
  let count := tallies.foldr (fun t n => t.1 + n) 0
  printLine ((s!"remapped {count} classes to " : String) ++ plan.folder)
  report (tallies.flatMap (·.2))

end Action

end JvmClass
