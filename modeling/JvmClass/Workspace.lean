import JvmClass.Path

/-!
# Files

A workspace is a tree of files and folders with a folder that one is in. Nothing outside
the tree exists. A file holds bytes, or it is an archive; how an archive is stored does not
matter here, only which entries it has.
-/

namespace JvmClass

/-- An entry of an archive. -/
structure ArchiveEntry where
  name : Text
  data : Bytes
deriving DecidableEq, Repr, Inhabited

/-- What a file holds. -/
inductive Content where
  | bytes (data : Bytes)
  | archive (entries : List ArchiveEntry)
deriving DecidableEq, Repr, Inhabited

namespace Content

/-- The first bytes of an archive as it is stored. No more is ever looked at when an
archive is taken for something else. -/
def signature (entries : List ArchiveEntry) : Bytes :=
  (if entries.isEmpty then [0x50, 0x4B, 0x05, 0x06] else [0x50, 0x4B, 0x03, 0x04])
    ++ List.replicate 18 0

/-- The bytes of a file. -/
def raw : Content → Bytes
  | .bytes data => data
  | .archive entries => signature entries

end Content

/-- The names on the way from the root of a tree. -/
abbrev Location := List Text

/-- A tree of files and folders. -/
structure FileTree where
  files : List (Location × Content)
  folders : List Location
deriving Inhabited

/-- What can be at a location. -/
inductive FileNode where
  | file (content : Content)
  | folder

namespace FileTree

/-- A tree with nothing in it. -/
def empty : FileTree := ⟨[], []⟩

/-- What is at a location. -/
def node? (t : FileTree) (loc : Location) : Option FileNode :=
  match t.files.lookup loc with
  | some content => some (.file content)
  | none => if loc.isEmpty || t.folders.contains loc then some .folder else none

/-- The tree with one more folder. -/
def addFolder (loc : Location) (t : FileTree) : FileTree :=
  if t.folders.contains loc then t else { t with folders := t.folders ++ [loc] }

/-- Files with a file at a location, in place of the one that was there. -/
def putFile (loc : Location) (content : Content) :
    List (Location × Content) → List (Location × Content)
  | [] => [(loc, content)]
  | file :: rest =>
    if file.1 = loc then (loc, content) :: rest else file :: putFile loc content rest

/-- The tree with a file at a location. -/
def addFile (loc : Location) (content : Content) (t : FileTree) : FileTree :=
  { t with files := putFile loc content t.files }

/-- The tree with all folders on the way to a location. -/
def addParents (loc : Location) (t : FileTree) : FileTree :=
  (List.range loc.length).foldl (fun t n => if n = 0 then t else t.addFolder (loc.take n)) t

/-- The files inside a folder, each by the way to it from there. -/
def under (t : FileTree) (folder : Location) : List (Location × Content) :=
  t.files.filterMap fun (loc, content) =>
    if folder.isPrefixOf loc then some (loc.drop folder.length, content) else none

/-- The files that are new in a tree, or hold something else than before, in the order of
their paths. -/
def changesFrom (before after : FileTree) : List (Text × Content) :=
  let changed := after.files.filter fun (loc, content) =>
    before.files.lookup loc != some content
  let named := changed.map fun (loc, content) => (Text.join [Path.slash] loc, content)
  named.mergeSort fun a b => Text.ble a.1 b.1

end FileTree

/-- Why a file cannot be had. -/
inductive FileFault where
  | missing
  | notFolder
  | isFolder
  | nameTooLong
  | badName
deriving DecidableEq, Repr

/-- The wording of a fault. -/
def FileFault.text : FileFault → String
  | .missing => "no such file or directory"
  | .notFolder => "not a directory"
  | .isFolder => "is a directory"
  | .nameTooLong => "file name too long"
  | .badName => "invalid argument"

/-- What was tried with a path, and why it failed. -/
structure FileError where
  action : String
  path : Text
  fault : FileFault
deriving DecidableEq, Repr

/-- The wording of an error. -/
def FileError.message (e : FileError) : Text := e.action ++ " " ++ e.path ++ ": " ++ e.fault.text

/-- A tree with the absolute path of its root and the folder that one is in. -/
structure Workspace where
  tree : FileTree
  home : Text
  current : Location
deriving Inhabited

namespace Workspace

/-- The longest name and the longest path that there can be. -/
def maxName : Nat := 255
def maxPath : Nat := 4095

/-- One step on the way along a path. -/
def step (t : FileTree) (loc : Location) (element : Text) : Except FileFault Location :=
  match t.node? loc with
  | none => .error .missing
  | some (.file _) => .error .notFolder
  | some .folder =>
    if element.isEmpty || element = ("." : Text) then .ok loc
    else if element = (".." : Text) then
      if loc.isEmpty then .error .missing else .ok loc.dropLast
    else if maxName < element.length then .error .nameTooLong
    else .ok (loc ++ [element])

/-- Where a path leads. There need be nothing at the end of it. -/
def locate (w : Workspace) (path : Text) : Except FileFault Location :=
  if path.contains 0 then .error .badName
  else if maxPath < path.length then .error .nameTooLong
  else if path.isEmpty then .error .missing
  else if Path.isAbsolute path then
    match Text.dropFront? w.home (Path.clean path) with
    | some [] => .ok []
    | some (47 :: rest) => (Path.split rest).foldlM (step w.tree) []
    | _ => .error .missing
  else (Path.split path).foldlM (step w.tree) w.current

/-- What is at the end of a path. -/
def find (w : Workspace) (path : Text) : Except FileFault (Location × FileNode) := do
  let loc ← w.locate path
  match w.tree.node? loc with
  | some node => return (loc, node)
  | none => throw .missing

/-- The absolute path of a location. -/
def pathOf (w : Workspace) (loc : Location) : Text :=
  if w.home.isEmpty && loc.isEmpty then [Path.slash]
  else Text.join [Path.slash] (w.home :: loc)

/-- An absolute path for a path. -/
def absolute (w : Workspace) (path : Text) : Text :=
  if Path.isAbsolute path then Path.clean path else Path.join (w.pathOf w.current) path

/-- What is at the end of a path. -/
def stat (w : Workspace) (path : Text) : Except FileError (Location × FileNode) :=
  (w.find path).mapError (⟨"stat", path, ·⟩)

/-- The bytes of a file. -/
def read (w : Workspace) (path : Text) : Except FileError Bytes :=
  match w.find path with
  | .error fault => .error ⟨"open", path, fault⟩
  | .ok (_, .folder) => .error ⟨"read", path, .isFolder⟩
  | .ok (_, .file content) => .ok content.raw

/-- Writes a file into a folder that exists. -/
def write (w : Workspace) (path : Text) (content : Content) : Except FileError Workspace :=
  match w.locate path with
  | .error fault => .error ⟨"open", path, fault⟩
  | .ok loc =>
    match w.tree.node? loc, w.tree.node? loc.dropLast with
    | some .folder, _ => .error ⟨"open", path, .isFolder⟩
    | _, some .folder => .ok { w with tree := w.tree.addFile loc content }
    | _, some (.file _) => .error ⟨"open", path, .notFolder⟩
    | _, none => .error ⟨"open", path, .missing⟩

/-- Makes a folder inside one that exists. -/
def makeFolder (w : Workspace) (path : Text) : Except FileError Workspace :=
  match w.locate path with
  | .error fault => .error ⟨"mkdir", path, fault⟩
  | .ok loc => .ok { w with tree := w.tree.addFolder loc }

/-- Makes a folder and those on the way to it, if there are none. The fuel is the length of
the path. -/
def makeFoldersWith (fuel : Nat) (w : Workspace) (path : Text) : Except FileError Workspace := do
  match fuel, w.find path with
  | _, .ok (_, .folder) => return w
  | _, .ok (_, .file _) => throw ⟨"mkdir", path, .notFolder⟩
  | 0, .error _ => w.makeFolder path
  | fuel + 1, .error _ =>
    let trimmed := (path.reverse.dropWhile (· = Path.slash)).reverse
    let front := (Path.splitLast trimmed).1
    let w ← if 1 < front.length then makeFoldersWith fuel w front.dropLast else pure w
    w.makeFolder path

/-- Makes a folder and those on the way to it, if there are none. -/
def makeFolders (w : Workspace) (path : Text) : Except FileError Workspace :=
  w.makeFoldersWith path.length path

end Workspace

end JvmClass
