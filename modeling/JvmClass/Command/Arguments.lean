import JvmClass.Renaming
import JvmClass.Text.Quoted

/-!
# Arguments of commands

Options come first, each with one or two dashes and a value, which follows an equals sign
or is the next argument. A switch can stand alone. The first argument that is no option ends
them, and so does a pair of dashes.
-/

namespace JvmClass

/-- Why a text is not the number that an option wants. -/
inductive NumeralFault where
  | malformed
  | range
deriving DecidableEq, Repr

namespace Numeral

/-- The value of a digit in any base up to thirty-six. -/
def digit? (c : UInt8) : Option Nat :=
  if 48 ≤ c && c ≤ 57 then some (c.toNat - 48)
  else if 97 ≤ c && c ≤ 122 then some (c.toNat - 87)
  else if 65 ≤ c && c ≤ 90 then some (c.toNat - 55)
  else none

/-- A letter in lower case. -/
def lower (c : UInt8) : UInt8 := if 65 ≤ c && c ≤ 90 then c + 32 else c

/-- The base that the start of a number tells, and its digits. A lone leading zero means
base eight. -/
def base : Text → Nat × Text
  | 48 :: c :: d :: rest =>
    if lower c = 98 then (2, d :: rest)
    else if lower c = 111 then (8, d :: rest)
    else if lower c = 120 then (16, d :: rest)
    else (8, c :: d :: rest)
  | 48 :: rest => (8, rest)
  | s => (10, s)

/-- The size that digits write. What is too large is out of range whatever follows;
underscores are passed over. -/
def size (base : Nat) : (n : Nat) → Text → Except NumeralFault Nat
  | n, [] => .ok n
  | n, c :: rest =>
    if c = 95 then size base n rest
    else
      match digit? c with
      | none => .error .malformed
      | some d =>
        if base ≤ d then .error .malformed
        else if 0x10000000000000000 ≤ n * base + d then .error .range
        else size base (n * base + d) rest

/-- The characters of a number that matter for its underscores. -/
inductive Seen where
  | start
  | digit
  | underscore
  | other
deriving DecidableEq

/-- Takes one more character into account, unless an underscore is out of place. -/
def see (hex : Bool) (seen : Seen) (c : UInt8) : Option Seen :=
  if (48 ≤ c && c ≤ 57) || (hex && 97 ≤ lower c && lower c ≤ 102) then some .digit
  else if c = 95 then (if seen = .digit then some .underscore else none)
  else if seen = .underscore then none
  else some .other

/-- Whether underscores stand only between digits, where a base counts as a digit. -/
def underscoresOk (s : Text) : Bool :=
  let (hex, seen, rest) := match s with
    | 48 :: c :: rest =>
      if lower c = 98 || lower c = 111 || lower c = 120 then (lower c == 120, Seen.digit, rest)
      else (false, Seen.start, s)
    | s => (false, Seen.start, s)
  (rest.foldlM (see hex) seen).any (· ≠ .underscore)

/-- The number that a text writes, which has to fit into 64 bits. -/
def read (s : Text) : Except NumeralFault Int := do
  let (negative, body) := match s with
    | 45 :: rest => (true, rest)
    | 43 :: rest => (false, rest)
    | s => (false, s)
  if body.isEmpty then throw .malformed
  let (b, digits) := base body
  let n ← size b 0 digits
  if body.contains 95 && !underscoresOk body then throw .malformed
  if negative then (if 0x8000000000000000 < n then throw .range else return -n)
  else if 0x8000000000000000 ≤ n then throw .range else return n

end Numeral

/-- Why an option does not take a value. -/
inductive ValueFault where
  | number (fault : NumeralFault)
  /-- It is no truth value. -/
  | truth
  /-- It is no pair of names. -/
  | rename (value : Text)
deriving DecidableEq, Repr

/-- The wording of a fault. -/
def ValueFault.message : ValueFault → Text
  | .number .malformed | .truth => "parse error"
  | .number .range => "value out of range"
  | .rename value => "want old=new, got " ++ value.quoted

/-- Arguments that a command cannot take. -/
inductive ArgumentError where
  | badSyntax (argument : Text)
  | unknown (name : Text)
  | noValue (name : Text)
  | badValue (value name : Text) (fault : ValueFault)
  | badSwitch (value name : Text) (fault : ValueFault)
  /-- Help was asked for. -/
  | help
deriving DecidableEq, Repr

/-- The wording of an error. -/
def ArgumentError.message : ArgumentError → Text
  | .badSyntax argument => "bad flag syntax: " ++ argument
  | .unknown name => "flag provided but not defined: -" ++ name
  | .noValue name => "flag needs an argument: -" ++ name
  | .badValue value name fault =>
    "invalid value " ++ value.quoted ++ " for flag -" ++ name ++ ": " ++ fault.message
  | .badSwitch value name fault =>
    "invalid boolean value " ++ value.quoted ++ " for -" ++ name ++ ": " ++ fault.message
  | .help => "flag: help requested"

/-- An option: its name, whether it can stand alone, and what a value of it changes. -/
structure OptionSpec (σ : Type) where
  name : String
  isSwitch : Bool
  set : Text → σ → Except ValueFault σ

namespace OptionSpec

variable {σ : Type}

/-- An option that needs a value. -/
def valued (name : String) (set : Text → σ → Except ValueFault σ) : OptionSpec σ :=
  ⟨name, false, set⟩

/-- An option that takes any text. -/
def text (name : String) (set : Text → σ → σ) : OptionSpec σ :=
  valued name fun value s => .ok (set value s)

/-- An option that can stand alone, which means that it is true. -/
def switch (name : String) (set : Text → σ → Option σ) : OptionSpec σ :=
  ⟨name, true, fun value s =>
    match set value s with
    | some s => .ok s
    | none => .error .truth⟩

/-- The value that an option has without one. -/
def alone (o : OptionSpec σ) : Option Text := if o.isSwitch then some "true" else none

/-- Sets an option. -/
def apply (o : OptionSpec σ) (value : Text) (s : σ) : Except ArgumentError σ :=
  (o.set value s).mapError fun fault =>
    if o.isSwitch then .badSwitch value o.name fault else .badValue value o.name fault

end OptionSpec

namespace Arguments

variable {σ : Type}

/-- Splits an option at its equals sign, which cannot come first. -/
def splitValue (s : Text) : Text × Option Text :=
  match s with
  | [] => ([], none)
  | c :: rest =>
    match Text.cut? 61 rest with
    | some (name, value) => (c :: name, some value)
    | none => (s, none)

/-- An argument that starts with a dash, without its dashes. -/
def option? : Text → Option Text
  | 45 :: 45 :: name => some name
  | 45 :: c :: name => some (c :: name)
  | _ => none

/-- Reads options, and gives what is left of the arguments. -/
def read (specs : List (OptionSpec σ)) (s : σ) :
    List Text → Except ArgumentError (σ × List Text)
  | [] => .ok (s, [])
  | argument :: rest =>
    match option? argument with
    | none => .ok (s, argument :: rest)
    | some body =>
      if argument = [45, 45] then .ok (s, rest)
      else if body.isEmpty || body.head? == some 45 || body.head? == some 61 then
        .error (.badSyntax argument)
      else
        let (name, value) := splitValue body
        match specs.find? fun o => Text.ofString o.name = name with
        | none =>
          if name = ("help" : Text) || name = ("h" : Text) then .error .help
          else .error (.unknown name)
        | some o =>
          match value <|> o.alone, rest with
          | some value, rest => do read specs (← o.apply value s) rest
          | none, value :: rest => do read specs (← o.apply value s) rest
          | none, [] => .error (.noValue name)

end Arguments

namespace RenameTable

/-- The pair of names that an option gives as one text. -/
def pair? (s : Text) : Option (Text × Text) :=
  match Text.cut? 61 s with
  | some (old, new) => if old.isEmpty || new.isEmpty then none else some (old, new)
  | none => none

/-- Adds the pair of names that an option gives. -/
def add (s : Text) (table : RenameTable) : Except ValueFault RenameTable :=
  match pair? s with
  | some (old, new) => .ok (table.put old new)
  | none => .error (.rename s)

/-- The pairs of a table in order, with commas between. -/
def text (table : RenameTable) : Text :=
  Text.join "," (Text.sort (table.map fun (old, new) => old ++ "=" ++ new))

end RenameTable

/-- How much a program is to say: how often it was asked for more. -/
structure Verbosity where
  count : Nat
deriving DecidableEq, Repr, Inhabited

namespace Verbosity

/-- The truth value that a text spells. -/
def truth? (s : Text) : Option Bool :=
  if ["1", "t", "T", "TRUE", "true", "True"].any fun w => Text.ofString w = s then some true
  else if ["0", "f", "F", "FALSE", "false", "False"].any fun w => Text.ofString w = s then
    some false
  else none

/-- Says more if a text is true. -/
def raise? (s : Text) (v : Verbosity) : Option Verbosity := do
  return if ← truth? s then ⟨v.count + 1⟩ else v

end Verbosity

end JvmClass
