import JvmClass.Build.ClassDraft
import JvmClass.Build.Follower
import JvmClass.Command.Inspect

/-!
# Commands that check classes

`roundtrip` builds each class anew and compares the listings, and `maxstack` follows the
operand stack through each body and compares its depth with what the class says.
-/

namespace JvmClass

/-- Why a class could not be compared with itself built anew. -/
inductive RebuildError where
  | library (e : Error)
  /-- What was built does not decode. -/
  | unreadable (e : Error)
deriving Repr

/-- The wording of an error. -/
def RebuildError.message : RebuildError → Text
  | .library e => e.message
  | .unreadable e => "re-encoded class does not decode: " ++ e.message

/-- The library's error inside an error. -/
def RebuildError.cause : RebuildError → Error
  | .library e => e
  | .unreadable e => e

namespace ClassSource

/-- The ways to build a class anew that have to keep its listing: from its own pool, and
with a new one. -/
def rebuildOptions : List Options :=
  [.keepMaxStack, Options.noPoolSharing.union .keepMaxStack]

/-- The listing of the class after it was built anew. -/
def rebuiltListing (s : ClassSource) (options : Options) : Except RebuildError Text := do
  let c ← (s.parse options).mapError .library
  let bytes ← (c.query fun c => (c.transform (some .pass) ()).1).mapError .library
  let back ← (ClassFile.parse 0 bytes.toArray .none).mapError .unreadable
  (back.query ClassFile.listing).mapError .library

/-- The difference that building a class anew makes to a listing. -/
def rebuildDifference (s : ClassSource) (listing : Text) (options : Options) :
    Except RebuildError Text := do
  return LineDiff.unified s.name listing (s.name ++ " (rebuilt)") (← s.rebuiltListing options)

/-- The first difference that building the class anew makes to its listing, if any. -/
def roundtrip (s : ClassSource) : Except RebuildError Text := do
  let listing ← (do (← s.parse .none).query ClassFile.listing).mapError .library
  rebuildOptions.foldlM (fun difference options =>
    if difference.isEmpty then s.rebuildDifference listing options else return difference) []

end ClassSource

/-- The depth of the operand stack in the methods of a class that have a name and a
descriptor, and whether it is certain. -/
def ClassFile.stackDepth (c : ClassFile) (name descriptor : Text) : Except Error StackTracker :=
  let which (m : MethodModel) : Bool := m.name.text = name && m.descriptor.text = descriptor
  let (outcome, tracker) := c.transform
    (some (.bodies which (some (StackTracker.transform .whole)))) (StackTracker.start [])
  outcome.map fun _ => tracker

/-- How a declared depth of the stack compares with the computed one. -/
inductive DepthVerdict where
  | ok
  | unknown
  | mismatch
deriving DecidableEq, Repr

namespace DepthVerdict

/-- The word for a verdict. -/
def word : DepthVerdict → String
  | .ok => "ok"
  | .unknown => "unknown"
  | .mismatch => "mismatch"

/-- Compares a declared depth with what a tracker has found. -/
def of (declared : Nat) (tracker : StackTracker) : DepthVerdict :=
  match tracker.maxStack? with
  | none => .unknown
  | some depth => if depth = declared then .ok else .mismatch

end DepthVerdict

namespace Action

/-- Checks one class, and tells whether it stays as it is. -/
def roundtripClass (s : ClassSource) : Action Bool := do
  match s.roundtrip with
  | .error e =>
    let _ ← attempt (.error e.cause : Except Error Unit)
    printLine ("FAIL " ++ s.name ++ ": " ++ e.message)
    return false
  | .ok [] =>
    printLine ("ok " ++ s.name)
    return true
  | .ok difference =>
    printLine ("DIFF " ++ s.name)
    print difference
    return false

/-- Checks that classes keep their listings when they are built anew. -/
def roundtrip (arguments : List Text) : Action Unit := do
  let sources ← classes (← somePaths arguments)
  let outcomes ← sources.mapM roundtripClass
  let failures := outcomes.count false
  if 0 < failures then
    printLine s!"{failures} of {sources.length} classes failed"
    throw .failed

/-- Compares the depth of the stack in a method with what it should be. A method without a
body has none. -/
def checkDepth (c : ClassFile) (m : InputMember) : Action DepthVerdict := do
  let code ← require ((m.input.query fun i => (m.withInput i).code?).mapError .library)
  let some code := code | return .ok
  let name := c.this.internalName ++ "." ++ m.name.text ++ m.descriptor.text
  match ← attempt (c.query fun c => c.stackDepth m.name.text m.descriptor.text) with
  | .error e => throw (.problem (.inClass name e))
  | .ok tracker =>
    let verdict := DepthVerdict.of code.maxStack tracker
    printLine (verdict.word ++ " " ++ name
      ++ s!" declared={code.maxStack} computed={tracker.max}")
    return verdict

/-- Compares the depth of the stack in every method with what it should be. -/
def maxstack (arguments : List Text) : Action Unit := do
  let sources ← classes (← somePaths arguments)
  let (cs, undecoded) ← decode .none sources
  let verdicts ← cs.mapM fun c => c.methods.mapM (checkDepth c)
  report undecoded
  if verdicts.flatten.contains .mismatch then throw .failed

end Action

end JvmClass
