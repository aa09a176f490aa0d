import JvmClass.Command.Check
import JvmClass.Command.Remap

/-!
# Commands

The commands by name, and what running one in a workspace comes to.
-/

namespace JvmClass

/-- What a user can ask for. -/
inductive Command where
  | dump
  | summary
  | diff
  | remap
  | roundtrip
  | maxstack
deriving DecidableEq, Repr

namespace Command

/-- All commands. -/
def all : List Command := [.dump, .summary, .diff, .remap, .roundtrip, .maxstack]

/-- What a command is called. -/
def name : Command → String
  | .dump => "dump"
  | .summary => "summary"
  | .diff => "diff"
  | .remap => "remap"
  | .roundtrip => "roundtrip"
  | .maxstack => "maxstack"

/-- What a command does, in a few words. -/
def purpose : Command → String
  | .dump => "print a listing of each class"
  | .summary => "write or print the CBOR summary of a class"
  | .diff => "show a unified diff of two class listings"
  | .remap => "rename classes in files, directories and jars"
  | .roundtrip => "check that classes survive decode and re-encode"
  | .maxstack => "compare computed and declared max stack per method"

/-- The command that has a name. -/
def ofName? (name : Text) : Option Command := all.find? fun c => Text.ofString c.name = name

/-- What a command does with its arguments. -/
def action : Command → List Text → Action Unit
  | .dump => Action.dump
  | .summary => Action.summary
  | .diff => Action.diff
  | .remap => Action.remap
  | .roundtrip => Action.roundtrip
  | .maxstack => Action.maxstack

/-- What a run came to. -/
structure Outcome where
  result : Except CommandError Unit
  output : Text
  workspace : Workspace

/-- Runs a command in a workspace. -/
def run (c : Command) (arguments : List Text) (w : Workspace) : Outcome :=
  let (result, console) := (c.action arguments).run.run ⟨w, []⟩
  ⟨result, console.output, console.workspace⟩

end Command

end JvmClass
