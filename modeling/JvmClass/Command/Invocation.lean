import JvmClass.Command

/-!
# Invocations

What is asked of the program as a whole: options that concern every command, the command,
and the arguments that are left for it.
-/

namespace JvmClass

/-- The options before the command. -/
structure Preferences where
  verbosity : Verbosity
  /-- Whether the output is to be free of colours, which it always is. -/
  plain : Bool
deriving DecidableEq, Repr, Inhabited

namespace Preferences

/-- What holds if nothing is said. -/
def standard : Preferences := ⟨⟨0⟩, false⟩

/-- The options before the command. -/
def specs : List (OptionSpec Preferences) :=
  [.switch "v" fun value p => do return { p with verbosity := ← p.verbosity.raise? value },
    .switch "no-color" fun value p => do return { p with plain := ← Verbosity.truth? value }]

end Preferences

/-- What keeps the program from running a command. -/
inductive UsageError where
  | arguments (e : ArgumentError)
  | noCommand
  | unknownCommand (name : Text)
deriving Repr

/-- The wording of an error. A missing command has none. -/
def UsageError.message? : UsageError → Option Text
  | .arguments e => some e.message
  | .noCommand => none
  | .unknownCommand name => some ("Error: unknown command " ++ name.quoted)

/-- A command with its arguments. -/
structure Invocation where
  preferences : Preferences
  command : Command
  arguments : List Text

namespace Invocation

/-- The command that the arguments of the program ask for. -/
def read (arguments : List Text) : Except UsageError Invocation := do
  let (preferences, rest) ←
    (Arguments.read Preferences.specs .standard arguments).mapError .arguments
  match rest with
  | [] => throw .noCommand
  | name :: rest =>
    match Command.ofName? name with
    | none => throw (.unknownCommand name)
    | some command => return ⟨preferences, command, rest⟩

/-- A word with blanks up to a width. -/
def padded (width : Nat) (word : String) : Text :=
  Text.ofString word ++ List.replicate (width - word.length) 32

/-- How the program is to be called. -/
def usage : Text :=
  let line (c : Command) : Text := "  " ++ padded 10 c.name ++ " " ++ c.purpose ++ "\n"
  "Usage: cfx [options] <command> [command options] [paths...]\n\nCommands:\n"
    ++ Command.all.flatMap line
    ++ "\nOptions:\n  -no-color\n    \tDisable colored output\n"
    ++ "  -v\tVerbose output (repeat for more)\n"

/-- The parts of an argument that could be paths: the whole of it, and the value of an
option. -/
def pathsIn (argument : Text) : List Text :=
  match Text.cut? 61 argument with
  | some (_, value) => [argument, value]
  | none => [argument]

/-- The paths that a command could look at: those in its arguments, and the project files
that could be the nearest. -/
def pathsOf (i : Invocation) (w : Workspace) : List Text :=
  let manifests := (List.range (w.current.length + 1)).map fun n =>
    Path.join (w.pathOf (w.current.take n)) Manifest.fileName
  manifests ++ i.arguments.flatMap pathsIn

end Invocation

end JvmClass
