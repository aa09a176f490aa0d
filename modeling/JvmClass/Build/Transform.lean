import JvmClass.Build.Model
import JvmClass.Build.Session

/-!
# Transforms

A transform sees the elements of a walk one by one and emits elements in their place:
the same, others, more or none. What it emits goes to an outlet: the draft that is
being built, or the next stage of a chain. A chain feeds what its first part emits to
its second as it is emitted, so nothing is collected in between.

A transform is run against one draft. The first error ends the run, whether a
transform raised it or the session recorded it.
-/

namespace JvmClass

/-- An action on something under construction. -/
abbrev Drafting (σ δ : Type) := StateT δ (Build σ)

/-- An action of the session beside what is under construction. -/
def Drafting.session {σ δ α : Type} (act : Build σ α) : Drafting σ δ α := StateT.lift act

/-- Something under construction that takes elements. -/
class Draft (δ : Type) (ε : outParam Type) where
  level : Level
  /-- Whether elements are only collected, to be written later. An error of the pool
  does not stop that. -/
  collects : δ → Bool
  /-- Takes one element. What a caller keeps has no part in it. -/
  take : ε → Drafting Unit δ Unit
  collects_take : ∀ (e : ε) (d : δ) (s : Session Unit), collects (take e d s).1.2 = collects d
  /-- What is only collected asks nothing of the pool. -/
  pool_take : ∀ (e : ε) (d : δ) (s : Session Unit), collects d = true →
    (take e d s).2.pool = s.pool

/-- Hands an element to what is under construction. -/
def Draft.accept {σ δ ε : Type} [Draft δ ε] (e : ε) : Drafting σ δ Unit :=
  fun d => Build.apart (Draft.take e d)

/-- Where emitted elements go. -/
inductive Outlet (σ δ ε : Type) where
  /-- To the draft itself. -/
  | terminal
  /-- To the next stage of a chain. -/
  | stage (consume : ε → ExceptT Error (Drafting σ δ) Unit)

namespace Outlet

variable {σ δ ε : Type} [Draft δ ε]

/-- The error that stops an outlet from taking elements. -/
def stopped? : Outlet σ δ ε → Drafting σ δ (Option Error)
  | .terminal => do
    if Draft.collects (← get) then Drafting.session Build.sessionError?
    else Drafting.session Build.error?
  | .stage _ => Drafting.session Build.error?

/-- Hands an element on. -/
def deliver (o : Outlet σ δ ε) (e : ε) : Drafting σ δ Unit := do
  match o with
  | .terminal => Draft.accept e
  | .stage consume => Drafting.session (Build.failOn (← (consume e).run))

/-- Emits an element, unless something has failed. Leaving it out is a misuse. -/
def emit? (o : Outlet σ δ ε) (e : Option ε) : Drafting σ δ Unit := do
  if (← o.stopped?).isSome then return
  match e with
  | none => Drafting.session (Build.fail (.misuse (.missingElement (Draft.level δ))))
  | some e => o.deliver e

/-- Emits an element, unless something has failed. -/
def emit (o : Outlet σ δ ε) (e : ε) : Drafting σ δ Unit := o.emit? (some e)

end Outlet

/-- A transform of the elements of a walk. -/
inductive Transform (σ δ ε : Type) where
  /-- What to do with each element, and what to do at the end. -/
  | leaf (accept : Outlet σ δ ε → ε → ExceptT Error (Drafting σ δ) Unit)
      (atEnd : Outlet σ δ ε → ExceptT Error (Drafting σ δ) Unit)
  /-- The second sees what the first emits. -/
  | chain (first second : Transform σ δ ε)
  /-- A transform that is made anew for every walk. -/
  | fresh (make : σ → Transform σ δ ε) (prepare : σ → σ)

namespace Transform

variable {σ δ ε : Type}

/-- A transform that is bound to an outlet for one walk. -/
structure Stage (σ δ ε : Type) where
  accept : ε → ExceptT Error (Drafting σ δ) Unit
  atEnd : ExceptT Error (Drafting σ δ) Unit

/-- Binds a transform to an outlet. The last part of a chain comes first, because the
parts before feed it. -/
def bind : Transform σ δ ε → Outlet σ δ ε → Drafting σ δ (Stage σ δ ε)
  | .leaf accept atEnd, o => return ⟨accept o, atEnd o⟩
  | .chain first second, o => do
    let second ← second.bind o
    let first ← first.bind (.stage second.accept)
    return { accept := first.accept, atEnd := do first.atEnd; second.atEnd }
  | .fresh make prepare, o => do
    let user := (← getThe (Session σ)).user
    Drafting.session (Build.onUser (modify prepare))
    (make user).bind o

/-- Fails with the error that has been recorded, if any. -/
def settle : ExceptT Error (Drafting σ δ) Unit := do
  if let some e ← ExceptT.lift (Drafting.session Build.error?) then throw e

/-- Feeds elements one after another, as long as nothing fails. -/
def feed (accept : ε → ExceptT Error (Drafting σ δ) Unit) :
    List ε → ExceptT Error (Drafting σ δ) Unit
  | [] => return
  | e :: rest => do
    accept e
    settle
    feed accept rest

/-- Runs a walk through a transform into an outlet. -/
def run (source : Traversal ε) (t : Option (Transform σ δ ε)) (o : Outlet σ δ ε) :
    ExceptT Error (Drafting σ δ) Unit := do
  match t with
  | none => throw (.misuse .missingTransform)
  | some t =>
    let s ← t.bind o
    feed s.accept source.elements
    if let some e := source.failure then throw e
    s.atEnd
    settle

/-- A transform with nothing to do at the end. -/
def ofAccept (accept : Outlet σ δ ε → ε → ExceptT Error (Drafting σ δ) Unit) :
    Transform σ δ ε :=
  .leaf accept fun _ => return

/-- A transform that cannot be run. -/
def absent : Transform σ δ ε := .leaf (fun _ _ => throw .outOfBounds) fun _ => throw .outOfBounds

/-- A transform that is made anew, by an action on what the caller keeps, for every
walk. -/
def stateful (make : StateM σ (Option (Transform σ δ ε))) : Transform σ δ ε :=
  .fresh (fun user => (make user).1.getD absent) fun user => (make user).2

/-- Transforms after one that comes before them all. -/
def chainAfter : Option (Transform σ δ ε) → List (Option (Transform σ δ ε)) →
    Option (Transform σ δ ε)
  | t, [] => t
  | t, next :: rest => chainAfter (some (.chain (t.getD absent) (next.getD absent))) rest

/-- Transforms one after another; none at all make no transform. -/
def chainAll : List (Option (Transform σ δ ε)) → Option (Transform σ δ ε)
  | [] => none
  | t :: rest => chainAfter t rest

variable [Draft δ ε]

/-- Emits the elements that `drop` does not hold of, and acts at the end. -/
def passing (drop : ε → Bool) (atEnd : Outlet σ δ ε → ExceptT Error (Drafting σ δ) Unit) :
    Transform σ δ ε :=
  .leaf (fun o e => if drop e then pure () else ExceptT.lift (o.emit e)) atEnd

/-- Emits every element unchanged. -/
def pass : Transform σ δ ε := passing (fun _ => false) fun _ => return

/-- Emits every element unchanged and acts at the end. -/
def endHandler (atEnd : Outlet σ δ ε → ExceptT Error (Drafting σ δ) Unit) : Transform σ δ ε :=
  passing (fun _ => false) atEnd

/-- Leaves out the elements that `drop` holds of. -/
def dropping (drop : ε → Bool) : Transform σ δ ε := passing drop fun _ => return

end Transform

end JvmClass
