import JvmClass.Command.Action
import JvmClass.LineDiff
import JvmClass.Summary

/-!
# Commands that show classes

`dump` prints listings, `summary` an outline, and `diff` the difference between two
listings.
-/

namespace JvmClass

namespace Summary

/-- A line with a heading, unless there is nothing to put there. -/
def listLine (heading : String) (ts : List Text) : List Text :=
  if ts.isEmpty then [] else [heading ++ Text.join ", " ts]

/-- The line of a field. -/
def fieldLine (f : MemberSummary) : Text :=
  "field " ++ f.name ++ " " ++ f.descriptor ++ " [" ++ AccessFlags.text ⟨f.flags.toUInt16⟩ ++ "]"

/-- The line of a method. The sizes stand there if it has a body. -/
def methodLine (m : MemberSummary) : Text :=
  let sizes : Text :=
    if 0 < m.codeLength then
      s!" code={m.codeLength} stack={m.maxStack} locals={m.maxLocals}"
    else []
  "method " ++ m.name ++ m.descriptor ++ " [" ++ AccessFlags.text ⟨m.flags.toUInt16⟩ ++ "]" ++ sizes

/-- A summary to be read by people. -/
def lines (s : Summary) : List Text :=
  let version : Text := s!" ({s.major}.{s.minor})"
  let superLine : List Text := if s.super.isEmpty then [] else ["  super      " ++ s.super]
  let refLine (r : Text) : Text := "ref " ++ r
  ["class " ++ s.name ++ version, "  flags      " ++ AccessFlags.text ⟨s.flags.toUInt16⟩]
    ++ superLine
    ++ listLine "  interfaces " s.interfaces
    ++ listLine "  attributes " s.attributes
    ++ ["  pool       " ++ Text.ofInt s.poolSize]
    ++ s.fields.map fieldLine
    ++ s.methods.map methodLine
    ++ s.references.map refLine

end Summary

namespace Action

/-- The paths after the options of a command that needs at least one and has no options. -/
def somePaths (arguments : List Text) : Action (List Text) := do
  let (_, paths) ← options ([] : List (OptionSpec Unit)) () arguments
  if paths.isEmpty then throw .failed
  return paths

/-- Prints the listing of a class as far as the class decodes. -/
def printListing (c : ClassFile) : Action (Option Problem) := do
  let lines := (c.settledBy fun c => c.lines.all).lines
  print (Listing.render lines.elements)
  match ← attempt lines.all with
  | .ok _ => return none
  | .error e => return some (.inClass c.this.internalName e)

/-- Prints listings with blank lines between. -/
def printListings : List ClassFile → Action (List Problem)
  | [] => return []
  | c :: rest => do
    let first ← printListing c
    let others ← rest.mapM fun c => do
      print "\n"
      printListing c
    return (first :: others).filterMap id

/-- Prints the listing of every class. -/
def dump (arguments : List Text) : Action Unit := do
  let (config, paths) ← options [.text "config" fun value _ => value] ([] : Text) arguments
  if paths.isEmpty then throw .failed
  let manifest ← manifest config
  let sources ← classes paths
  let (cs, undecoded) ← decode ((manifest.map (·.options)).getD .none) sources
  report (undecoded ++ (← printListings cs))

/-- The summary of the one class that a path leads to. -/
def summaryOfClass (path : Text) : Action Summary := do
  match ← classes [path] with
  | [source] =>
    match ← attempt (source.parse .none) with
    | .error e => throw (.problem (.inClass path e))
    | .ok c => require ((c.query Summary.ofClassFile).mapError .library)
  | sources => throw (.classCount path sources.length)

/-- The summary that a file holds. -/
def storedSummary (path : Text) : Action Summary := do
  match Summary.decode? (← read path) with
  | some s => return s
  | none => throw .badSummary

/-- Prints the summary of a class or stores it. A stored one can be printed again. -/
def summary (arguments : List Text) : Action Unit := do
  let (out, paths) ← options [.text "o" fun value _ => value] ([] : Text) arguments
  let [path] := paths | throw .failed
  let s ← if path.endsWith ".cbor" then storedSummary path else summaryOfClass path
  if out.isEmpty then s.lines.forM printLine
  else
    match ← change (·.write out (.bytes s.encode)) with
    | none => return
    | some e => throw (.problem (.file e))

/-- The listing of the class in a file. -/
def listingAt (path : Text) : Action Text := do
  let source : ClassSource := ⟨path, ← read path⟩
  match ← attempt (do (← source.parse .none).query ClassFile.listing) with
  | .ok listing => return listing
  | .error e => throw (.problem (.inClass path e))

/-- Prints the difference between the listings of two classes, and fails if there is
one. -/
def diff (arguments : List Text) : Action Unit := do
  let (_, paths) ← options ([] : List (OptionSpec Unit)) () arguments
  let [a, b] := paths | throw .failed
  let left ← listingAt a
  let right ← listingAt b
  let difference := LineDiff.unified a left b right
  if !difference.isEmpty then
    print difference
    throw .failed

end Action

end JvmClass
