import JvmClass.Text
import Std.Data.HashMap

/-!
# Aligning two lists of lines

The alignment takes the longest run of lines that both lists have, the earliest of
several, and then aligns what lies before and after it in the same way. Lines that are
very frequent in a long second list do not start a run; they only lengthen one.
-/

namespace JvmClass

namespace LineDiff

/-- A run of lines that both lists have. -/
structure Run where
  left : Nat
  right : Nat
  size : Nat
deriving DecidableEq, Repr, Inhabited

/-- A part of each of the two lists, from a start up to a stop. -/
structure Window where
  leftStart : Nat
  leftStop : Nat
  rightStart : Nat
  rightStop : Nat
deriving DecidableEq, Repr, Inhabited

/-- Where each line stands in a list, in order. -/
def positions (lines : Array Text) : Std.HashMap Text (Array Nat) :=
  lines.zipIdx.foldl (fun m (line, i) => m.alter line fun js => some ((js.getD #[]).push i)) {}

/-- How many lines the second list must have before frequent lines are set apart. -/
def longEnough : Nat := 200

/-- Where lines that can start a run stand in the second list. In a long list these are
the lines that make up no more than about one in a hundred. -/
def starters (lines : Array Text) : Std.HashMap Text (Array Nat) :=
  let all := positions lines
  if longEnough ≤ lines.size then all.filter fun _ js => js.size ≤ lines.size / 100 + 1 else all

/-- Run lengths by where the run ends in the second list. -/
abbrev Ends := Std.HashMap Nat Nat

/-- Takes note that line `i` of the first list is line `j` of the second, where
`before` has the runs that end at the line before `i`. -/
def meet (before : Ends) (i : Nat) (s : Run × Ends) (j : Nat) : Run × Ends :=
  let (best, ends) := s
  let size := (if j = 0 then 0 else before.getD (j - 1) 0) + 1
  let ends := ends.insert j size
  if best.size < size then (⟨i + 1 - size, j + 1 - size, size⟩, ends) else (best, ends)

/-- Takes line `i` of the first list into account. -/
def scan (index : Std.HashMap Text (Array Nat)) (w : Window) (a : Array Text) (s : Run × Ends)
    (i : Nat) : Run × Ends :=
  let (best, before) := s
  let js := (index.getD (a[i]?.getD []) #[]).filter fun j => w.rightStart ≤ j && j < w.rightStop
  js.foldl (meet before i) (best, {})

/-- Lengthens a run to the front, as far as lines agree inside the window. -/
def growBack (a b : Array Text) (w : Window) : (left right size : Nat) → Run
  | left + 1, right + 1, size =>
    if w.leftStart ≤ left && w.rightStart ≤ right && a[left]? == b[right]? then
      growBack a b w left right (size + 1)
    else ⟨left + 1, right + 1, size⟩
  | left, right, size => ⟨left, right, size⟩

/-- Lengthens a run to the back, as far as lines agree inside the window. -/
def growForward (a b : Array Text) (w : Window) (r : Run) : Run :=
  if r.left + r.size < w.leftStop && r.right + r.size < w.rightStop
      && a[r.left + r.size]? == b[r.right + r.size]? then
    growForward a b w { r with size := r.size + 1 }
  else r
termination_by w.leftStop - (r.left + r.size)
decreasing_by simp_all; omega

/-- The longest common run of a window; its size is zero when there is none. -/
def longest (a b : Array Text) (index : Std.HashMap Text (Array Nat)) (w : Window) : Run :=
  let lines := List.range' w.leftStart (w.leftStop - w.leftStart)
  let (best, _) := lines.foldl (scan index w a) (⟨w.leftStart, w.rightStart, 0⟩, {})
  growForward a b w (growBack a b w best.left best.right best.size)

/-- The common runs of a window, in order. -/
def runs (a b : Array Text) (index : Std.HashMap Text (Array Nat)) (w : Window) : List Run :=
  match longest a b index w with
  | ⟨left, right, size⟩ =>
    if 0 < size ∧ w.leftStart ≤ left ∧ left + size ≤ w.leftStop then
      let before := if w.leftStart < left ∧ w.rightStart < right then
        runs a b index { w with leftStop := left, rightStop := right } else []
      let after := if left + size < w.leftStop ∧ right + size < w.rightStop then
        runs a b index { w with leftStart := left + size, rightStart := right + size } else []
      before ++ ⟨left, right, size⟩ :: after
    else []
termination_by w.leftStop - w.leftStart

/-- Joins runs that follow each other without a gap in either list. -/
def joinRuns : List Run → List Run
  | first :: second :: rest =>
    if first.left + first.size = second.left ∧ first.right + first.size = second.right then
      joinRuns ({ first with size := first.size + second.size } :: rest)
    else first :: joinRuns (second :: rest)
  | rs => rs
termination_by rs => rs.length

/-- The common runs of two lists, in order and none next to another. -/
def align (a b : Array Text) : List Run :=
  joinRuns (runs a b (starters b) ⟨0, a.size, 0, b.size⟩)

end LineDiff

end JvmClass
