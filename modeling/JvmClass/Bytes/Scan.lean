import JvmClass.Bytes.Decoder

/-!
# Reading that stops at the first error

Structures are read from a decoder by steps that either move it forward or stop.
A stop carries the first error and the position that the decoder had then, so a
caller can say where a table broke off.
-/

namespace JvmClass

/-- Why and where reading stopped. -/
structure Stop where
  error : Error
  pos : Int
deriving Inhabited

/-- A step of reading in sequence. -/
abbrev Scan := StateT Decoder (Except Stop)

namespace Scan

/-- Stops with an error at the present position. -/
def fail {α : Type} (e : Error) : Scan α := fun d => .error ⟨e, d.pos⟩

/-- A decoder's operation as a step: it stops when the decoder has met an error. -/
def lift {α : Type} (read : Decoder → α × Decoder) : Scan α := fun d =>
  match read d with
  | (a, d) =>
    match d.error with
    | none => .ok (a, d)
    | some e => .error ⟨e, d.pos⟩

/-- An outcome as a step. -/
def ofExcept {α : Type} : Except Error α → Scan α
  | .ok a => pure a
  | .error e => fail e

def u1 : Scan Nat := lift Decoder.u1

def u2 : Scan Nat := lift Decoder.u2

def u4 : Scan Nat := lift Decoder.u4

/-- Moves past `n` bytes. -/
def skip (n : Int) : Scan Unit := lift fun d => ((), d.skip n)

/-- The next `n` bytes. -/
def bytes (n : Int) : Scan Bytes := fun d =>
  match d.bytes n with
  | none => .error ⟨.outOfBounds, d.pos⟩
  | some r => lift (fun _ => r) d

/-- The position of the next read. -/
def pos : Scan Int := fun d => .ok (d.pos, d)

/-- Bytes left in the window. -/
def remaining : Scan Int := fun d => .ok (d.remaining, d)

/-- Reads `n` items onto those already read, which stand in reverse. -/
def timesOnto {α : Type} (item : Scan α) (done : List α) : Nat → Scan (List α)
  | 0 => pure done.reverse
  | n + 1 => fun d =>
    match item d with
    | .ok (a, d) => timesOnto item (a :: done) n d
    | .error s => .error s

/-- Reads `n` items, one after another. -/
def times {α : Type} (n : Nat) (item : Scan α) : Scan (List α) := timesOnto item [] n

/-- A two-byte count and then that many items. -/
def counted {α : Type} (item : Scan α) : Scan (List α) := do
  let n ← u2
  times n item

/-- Runs a step on a window of a buffer. -/
def onWindow {α : Type} (c : Cursor) (start stop : Int) (step : Scan α) :
    Except Stop (α × Decoder) :=
  let d := Decoder.ofWindow c start stop
  match d.error with
  | some e => .error ⟨e, d.pos⟩
  | none => step d

end Scan

end JvmClass
