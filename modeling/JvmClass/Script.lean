import JvmClass.Script.Steps

/-!
# Scripts

A script builds a class or transforms one, as data says. Its outcome is the class file
or the error that it ended with, beside the journal it kept.
-/

namespace JvmClass

namespace Script

/-- What a run ended with, and what it kept. -/
structure Outcome where
  result : Except Error Bytes
  journal : Journal

namespace Outcome

/-- The fields of the journal. -/
def journalFields (o : Outcome) : List (String × Data) :=
  let trackers := o.journal.trackers.toList
  ("log", .list o.journal.log.toList) ::
    (if trackers.isEmpty then [] else [("trackers", .listOf StackTracker.outline trackers)])

/-- The search that the run has to start over with, if any. -/
def search? (o : Outcome) : Option (Nat × TableSearch) :=
  match o.result with
  | .ok _ => none
  | .error e => e.search?

/-- The outcome with views of the class file, which is read back for them. A run that
cannot go on has no outline. -/
def outline (o : Outcome) (views : List String) : Except Error Data := do
  match o.result with
  | .error .outOfBounds => throw .outOfBounds
  | .error e => return .fields (e.outlineFields ++ o.journalFields)
  | .ok bytes =>
    let class_ := ("class", Data.ofBytes bytes)
    match ClassFile.parse 0 bytes.toArray .none with
    | .error e => return .fields (class_ :: ("reparse", e.outline) :: o.journalFields)
    | .ok c => return .fields (class_ :: (← c.views views) ++ o.journalFields)

end Outcome

/-- Builds a class by steps. -/
def build (libs : Libraries) (this super : Text) (options : Options) (steps : Data) :
    Except Error Outcome := do
  let fuel := steps.depth + 1
  let items ← steps.items
  return libs.settling Outcome.search? fun libs =>
    let (result, journal) := ClassFile.build this super options
      (fun o => runSteps (classStep libs fuel o) items) ({} : Journal)
    { result, journal }

/-- Transforms a class once, under a new name if one is given. -/
def transformOnce (libs : Libraries) (c : ClassFile) (newName : Option Text) (d : Data)
    (journal : Journal) : Outcome :=
  let (t, journal) := (classTransform libs (d.depth + 1) d).run journal
  let (result, journal) := match newName with
    | none => c.transform t journal
    | some name => c.transformAs name t journal
  { result, journal }

/-- Transforms a class; `again` makes the transform anew and runs it a second time on
the same class, if the first run succeeded. -/
def transform (libs : Libraries) (c : ClassFile) (newName : Option Text) (again : Bool)
    (d : Data) : Outcome :=
  { libs with self := some c }.settling Outcome.search? fun libs =>
    let c := libs.self.getD c
    let first := transformOnce libs c newName d {}
    match again, first.result with
    | true, .ok _ => transformOnce libs c newName d first.journal
    | _, _ => first

/-- Feeds code elements to a tracker in the body of a method, and logs what it knows
after each. -/
def trackBody (libs : Libraries) (elements : List Data) (o : CodeOutlet Journal) :
    Handler CodeDraft Unit := do
  let held := Journal.tracker 0
  let stage ← ExceptT.lift ((StackTracker.transform held).bind o)
  runSteps (fun d => do
    match ← libs.codeElement? d with
    | some e => StateT.lift (stage.accept e)
    | none => Step.draft (o.emit? none)
    let t ← StateT.lift held.read
    Step.keep (Journal.write t.outline)) elements
  stage.atEnd

/-- What a tracker knows at first and after each of some code elements. -/
def track (libs : Libraries) (initial : List Kind) (elements : List Data) : Outcome :=
  let start := StackTracker.start initial
  let journal : Journal := { trackers := #[start], log := #[start.outline] }
  libs.settling Outcome.search? fun libs =>
    let (result, journal) := ClassFile.build ("T" : Text) [] .none
      (fun o => ExceptT.lift (ClassOutlet.method o ("m" : Text) ("()V" : Text) .static fun mo =>
        ExceptT.lift (MethodOutlet.code mo (trackBody libs elements)))) journal
    { result, journal }

end Script

end JvmClass
