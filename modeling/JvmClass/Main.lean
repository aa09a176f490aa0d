import JvmClass.Command.Invocation

/-!
# The program

Reads the files that a command could look at, runs the command on them, and then writes what
it has changed and printed. All decisions are made elsewhere. An archive is taken as the
bytes it is stored in, so it is not opened.
-/

namespace JvmClass

namespace Program

/-- A text as the system takes it. -/
def native (t : Text) : String := (String.fromUTF8? ⟨t.toArray⟩).getD ""

/-- The files and folders in a folder, or nothing if it is none. -/
def namesIn (path : Text) : IO (Option (List Text)) :=
  try
    let folder ← IO.FS.realPath (native path)
    let entries ← folder.readDir
    return some (entries.toList.map fun e => Text.ofString e.fileName)
  catch _ => return none

/-- The bytes of a file, or nothing if it cannot be read. -/
def bytesOf (path : Text) : IO (Option Bytes) :=
  try
    let bytes ← IO.FS.readBinFile (native path)
    return some bytes.toList
  catch _ => return none

/-- Takes a file, or a folder with all below it, into a tree. -/
partial def load (w : Workspace) (tree : FileTree) (loc : Location) : IO FileTree := do
  let path := w.pathOf loc
  match ← namesIn path with
  | some names =>
    names.foldlM (fun t name => load w t (loc ++ [name])) ((tree.addParents loc).addFolder loc)
  | none =>
    match ← bytesOf path with
    | some bytes => return (tree.addParents loc).addFile loc (.bytes bytes)
    | none => return tree

/-- The location that a path leads to, whatever is there. -/
def locationOf (w : Workspace) (path : Text) : Location :=
  (Path.split (w.absolute path)).filter fun name => !name.isEmpty

/-- The workspace that a command could look at. Its root is that of the system. -/
def snapshot (i : Invocation) : IO Workspace := do
  let current := Path.split (Text.ofString (toString (← IO.currentDir)))
  let empty : Workspace := ⟨.empty, [], current.filter fun name => !name.isEmpty⟩
  let start := (FileTree.empty.addParents empty.current).addFolder empty.current
  let locations := ((i.pathsOf empty).map (locationOf empty)).filter fun loc => !loc.isEmpty
  let tree ← locations.foldlM (load empty) start
  return { empty with tree }

/-- Writes what has changed. -/
def store (before after : Workspace) : IO Unit :=
  (FileTree.changesFrom before.tree after.tree).forM fun (path, content) => do
    let path := Path.slash :: path
    IO.FS.createDirAll (native (Path.folder path))
    IO.FS.writeBinFile (native path) ⟨content.raw.toArray⟩

/-- Says something about the run itself. -/
def complain (t : Text) : IO Unit := do (← IO.getStderr).write ⟨t.toArray⟩

/-- Runs a command, and gives the exit code. -/
def run (i : Invocation) : IO UInt32 := do
  let before ← snapshot i
  let outcome := i.command.run i.arguments before
  store before outcome.workspace
  (← IO.getStdout).write ⟨outcome.output.toArray⟩
  match outcome.result with
  | .ok () => return 0
  | .error e =>
    unless e.isReported do complain ("Error: " ++ e.message ++ "\n")
    return 1

end Program

end JvmClass

/-- Runs the command that the arguments ask for. -/
def main (arguments : List String) : IO UInt32 := do
  match JvmClass.Invocation.read (arguments.map JvmClass.Text.ofString) with
  | .ok i => JvmClass.Program.run i
  | .error e =>
    if let some message := e.message? then JvmClass.Program.complain (message ++ [10])
    JvmClass.Program.complain JvmClass.Invocation.usage
    return 2
