import JvmClass.ClassFile
import JvmClass.Command.Arguments
import JvmClass.Manifest
import JvmClass.Workspace

/-!
# What commands are made of

A command is an action on a console: it reads and writes the files of a workspace, prints,
and can fail. What it has printed and written before it fails stays.

Classes come from files, from folders with all below them, and from archives.
-/

namespace JvmClass

/-- What can be wrong with one of the inputs of a command. -/
inductive Problem where
  | file (e : FileError)
  /-- A file that has the name of an archive but is none. -/
  | noArchive (path : Text)
  /-- A folder that has the name of an archive. -/
  | folderForArchive (path : Text)
  /-- A class, by the name of its input or by its own. -/
  | inClass (name : Text) (e : Error)
deriving Repr

/-- The wording of a problem. -/
def Problem.message : Problem → Text
  | .file e => e.message
  | .noArchive path => "open " ++ path ++ ": zip: not a valid zip file"
  | .folderForArchive path => "open " ++ path ++ ": " ++ FileError.message ⟨"read", path, .isFolder⟩
  | .inClass name e => name ++ ": " ++ e.message

/-- How a command fails. -/
inductive CommandError where
  /-- The output of the command tells what is wrong. -/
  | failed
  | arguments (e : ArgumentError)
  | problem (p : Problem)
  | noManifest (path : Text) (e : FileError)
  | badManifest (path : Text) (e : ManifestError)
  | badSummary
  /-- A path that has to give one class gives another number of them. -/
  | classCount (path : Text) (found : Nat)
  | library (e : Error)
  | noRenames
  /-- All problems that were met, of which there is at least one. -/
  | several (ps : List Problem)
deriving Repr

namespace CommandError

/-- Problems as a list with a heading. -/
def listText (ps : List Problem) : Text :=
  let heading : Text :=
    if ps.length = 1 then "1 error occurred:" else s!"{ps.length} errors occurred:"
  let item (p : Problem) : Text := "\n\t* " ++ p.message
  heading ++ ps.flatMap item ++ "\n\n"

/-- The wording of an error. -/
def message : CommandError → Text
  | .failed => "failed"
  | .arguments e => e.message
  | .problem p => p.message
  | .noManifest path e => "cannot read " ++ path ++ ": " ++ e.message
  | .badManifest path e => "parse error in " ++ path ++ ": " ++ e.message
  | .badSummary => "cbor"
  | .classCount path found => path ++ ": want one class, found " ++ Text.ofNat found
  | .library e => e.message
  | .noRenames => "no renames: pass -map or add a [remap] table to " ++ Manifest.fileName
  | .several ps => listText ps

/-- Whether what is wrong has been told already. -/
def isReported : CommandError → Bool
  | .failed => true
  | _ => false

end CommandError

/-- What a command works on: the files, and what it has printed, newest first. -/
structure Console where
  workspace : Workspace
  printed : List Text

/-- All that was printed. -/
def Console.output (c : Console) : Text := c.printed.reverse.flatten

/-- A step of a command. -/
abbrev Action := ExceptT CommandError (StateM Console)

/-- A class that a command is given: the name to call it by, and its bytes. -/
structure ClassSource where
  name : Text
  data : Bytes
deriving DecidableEq, Repr, Inhabited

namespace ClassSource

/-- The class in the bytes of a source. -/
def parse (s : ClassSource) (options : Options) : Except Error ClassFile :=
  ClassFile.parse 0 s.data.toArray options

end ClassSource

/-- Whether a path has the name of an archive. Capitals count as small letters, and the
capital I with a dot counts as an i. -/
def Path.isArchive (path : Text) : Bool :=
  let extension := (Path.extension path).map Numeral.lower
  extension = (".jar" : Text) || extension = (".zip" : Text) || extension = (".z\u0130p" : Text)

/-- Whether an entry of an archive is a class. A description of a module is none. -/
def ArchiveEntry.isClass (e : ArchiveEntry) : Bool :=
  e.name.endsWith ".class" && !e.name.endsWith "module-info.class"

/-- Whether an entry of an archive is a folder. -/
def ArchiveEntry.isFolder (e : ArchiveEntry) : Bool := e.name.endsWith "/"

namespace Action

/-- Prints a text. -/
def print (t : Text) : Action Unit := modify fun c => { c with printed := t :: c.printed }

/-- Prints a line. -/
def printLine (t : Text) : Action Unit := print (t ++ "\n")

/-- The outcome of something that is done with a class. A read outside of a buffer ends the
command; any other error is for the command to deal with. -/
def attempt {α : Type} : Except Error α → Action (Except Error α)
  | .error .outOfBounds => throw (.library .outOfBounds)
  | outcome => return outcome

/-- A value without which the command fails. -/
def require {α : Type} : Except CommandError α → Action α
  | .ok a => return a
  | .error e => throw e

/-- Reads the options of a command. -/
def options {σ : Type} (specs : List (OptionSpec σ)) (s : σ) (arguments : List Text) :
    Action (σ × List Text) :=
  require ((Arguments.read specs s arguments).mapError .arguments)

/-- The bytes of a file. -/
def read (path : Text) : Action Bytes := do
  require (((← get).workspace.read path).mapError fun e => .problem (.file e))

/-- Changes files, and tells whether that went well. -/
def change (act : Workspace → Except FileError Workspace) : Action (Option FileError) := do
  let c ← get
  match act c.workspace with
  | .ok w =>
    set { c with workspace := w }
    return none
  | .error e => return some e

end Action

namespace Workspace

/-- The entries of an archive, without folders. -/
def archive (w : Workspace) (path : Text) : Except Problem (List ArchiveEntry) :=
  match w.find path with
  | .ok (_, .file (.archive entries)) => .ok (entries.filter fun e => !e.isFolder)
  | .ok (_, .file (.bytes _)) => .error (.noArchive path)
  | .ok (_, .folder) => .error (.folderForArchive path)
  | .error fault => .error (.file ⟨"open", path, fault⟩)

/-- The classes in a folder and below it, in the order of their paths. -/
def classesUnder (w : Workspace) (path : Text) (loc : Location) : List ClassSource :=
  let sources := (w.tree.under loc).map fun (rest, content) =>
    ({ name := Path.join path (Text.join [Path.slash] rest), data := content.raw } : ClassSource)
  (sources.filter fun s => s.name.endsWith ".class").mergeSort fun a b => Text.ble a.name b.name

/-- The class in a file. -/
def classIn (w : Workspace) (path : Text) : Except FileError ClassSource := do
  return { name := path, data := ← w.read path }

/-- The source that an entry of an archive is. -/
def entrySource (path : Text) (e : ArchiveEntry) : ClassSource :=
  { name := path ++ "!" ++ e.name, data := e.data }

/-- The classes that a path leads to. -/
def classesAt (w : Workspace) (path : Text) : Except Problem (List ClassSource) := do
  match ← (w.stat path).mapError .file with
  | (loc, .folder) => return w.classesUnder path loc
  | (_, .file _) =>
    if Path.isArchive path then
      return ((← w.archive path).filter (·.isClass)).map (entrySource path)
    else return [← (w.classIn path).mapError .file]

/-- The project file in a folder. -/
def manifestIn (w : Workspace) (folder : Text) : Except CommandError Manifest := do
  let path := Path.join folder Manifest.fileName
  let text ← (w.read path).mapError (.noManifest path)
  let m ← (Manifest.parse text).mapError (.badManifest path)
  return { m with folder := w.absolute folder }

/-- The project file in the current folder or, if it has none, in the nearest folder
above. -/
def nearestManifest (w : Workspace) : Except CommandError (Option Manifest) :=
  let folders := (List.range (w.current.length + 1)).reverse.map fun n =>
    w.pathOf (w.current.take n)
  match folders.find? fun folder => (w.find (Path.join folder Manifest.fileName)).isOk with
  | some folder => (w.manifestIn folder).map some
  | none => .ok none

/-- The project file that a path names: a folder with one in it, or the file itself, under
any name. An empty path stands for the nearest one. -/
def manifest (w : Workspace) (path : Text) : Except CommandError (Option Manifest) := do
  if path.isEmpty then return ← w.nearestManifest
  match ← (w.stat path).mapError fun e => .problem (.file e) with
  | (_, .folder) => return some (← w.manifestIn path)
  | (_, .file _) =>
    if Path.base path = Manifest.fileName then
      return some (← w.manifestIn (Path.folder path))
    let text ← (w.read path).mapError fun e => .problem (.file e)
    let m ← (Manifest.parse text).mapError (.badManifest path)
    return some { m with folder := Path.folder path }

end Workspace

namespace Action

/-- The classes that paths lead to. -/
def classes (paths : List Text) : Action (List ClassSource) := do
  let w := (← get).workspace
  return (← require ((paths.mapM w.classesAt).mapError .problem)).flatten

/-- The project file that a path names, if there is one. -/
def manifest (path : Text) : Action (Option Manifest) := do
  require ((← get).workspace.manifest path)

/-- Decodes classes, and collects the problems with those that do not decode. -/
def decode (options : Options) (sources : List ClassSource) :
    Action (List ClassFile × List Problem) := do
  let outcomes ← sources.mapM fun s => do
    return (s.name, ← attempt (s.parse options))
  return (outcomes.filterMap fun (_, outcome) => outcome.toOption,
    outcomes.filterMap fun (name, outcome) =>
      match outcome with
      | .ok _ => none
      | .error e => some (.inClass name e))

/-- Fails if there are problems. -/
def report (ps : List Problem) : Action Unit :=
  if ps.isEmpty then return else throw (.several ps)

end Action

end JvmClass
