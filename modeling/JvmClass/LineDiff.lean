import JvmClass.Listing
import JvmClass.LineDiff.Alignment

/-!
# Differences between texts, line by line

A difference is written in the unified format: hunks of changed lines with a few
unchanged lines around them, each under a heading that says where it stands.
-/

namespace JvmClass

namespace LineDiff

/-- A stretch of two texts: lines that both have, or lines of the one in place of lines
of the other. -/
structure Stretch where
  same : Bool
  window : Window
deriving DecidableEq, Repr, Inhabited

/-- How many unchanged lines are shown around a change. -/
def context : Nat := 3

/-- The stretches between and along common runs, from the given positions on. -/
def stretches (left right leftEnd rightEnd : Nat) : List Run → List Stretch
  | [] => between left leftEnd right rightEnd
  | r :: rest =>
    between left r.left right r.right
      ++ ⟨true, r.left, r.left + r.size, r.right, r.right + r.size⟩
      :: stretches (r.left + r.size) (r.right + r.size) leftEnd rightEnd rest
where
  between (leftStart leftStop rightStart rightStop : Nat) : List Stretch :=
    if leftStart < leftStop || rightStart < rightStop then
      [⟨false, leftStart, leftStop, rightStart, rightStop⟩]
    else []

/-- The last lines of a window that serve as context. -/
def Window.lastLines (w : Window) : Window :=
  { w with
    leftStart := max w.leftStart (w.leftStop - context)
    rightStart := max w.rightStart (w.rightStop - context) }

/-- The first lines of a window that serve as context. -/
def Window.firstLines (w : Window) : Window :=
  { w with
    leftStop := min w.leftStop (w.leftStart + context)
    rightStop := min w.rightStop (w.rightStart + context) }

/-- Cuts common lines at the very start down to their last lines. -/
def trimFront : List Stretch → List Stretch
  | ⟨true, w⟩ :: rest => ⟨true, w.lastLines⟩ :: rest
  | ss => ss

/-- Cuts common lines at the very end down to their first lines. -/
def trimBack (ss : List Stretch) : List Stretch :=
  match ss.reverse with
  | ⟨true, w⟩ :: rest => (⟨true, w.firstLines⟩ :: rest).reverse
  | _ => ss

/-- Splits stretches into hunks, at common lines that are too many to show. `hunk` has
the stretches of the current one, the last first. -/
def hunksFrom (hunk : List Stretch) : List Stretch → List (List Stretch)
  | [] => if hunk.all (·.same) then [] else [hunk.reverse]
  | s :: rest =>
    if s.same && 2 * context < s.window.leftStop - s.window.leftStart then
      (⟨true, s.window.firstLines⟩ :: hunk).reverse
        :: hunksFrom [⟨true, s.window.lastLines⟩] rest
    else hunksFrom (s :: hunk) rest

/-- The hunks of the difference of two lists of lines. -/
def hunks (a b : Array Text) : List (List Stretch) :=
  hunksFrom [] (trimBack (trimFront (stretches 0 0 a.size b.size (align a b))))

/-- A range of lines, counted from one: a lone line by its number, others by the first
number and how many. An empty range stands after the line that precedes it. -/
def rangeText (start stop : Nat) : Text :=
  if stop - start = 1 then Text.ofNat (start + 1)
  else if stop - start = 0 then Text.ofNat start ++ ",0"
  else Text.ofNat (start + 1) ++ "," ++ Text.ofNat (stop - start)

/-- Lines with a mark in front. -/
def marked (mark : String) (lines : Array Text) (start stop : Nat) : Text :=
  (lines.extract start stop).toList.flatMap fun line => mark ++ line

/-- The lines of a stretch. -/
def stretchText (a b : Array Text) (s : Stretch) : Text :=
  let w := s.window
  if s.same then marked " " a w.leftStart w.leftStop
  else marked "-" a w.leftStart w.leftStop ++ marked "+" b w.rightStart w.rightStop

/-- A hunk under its heading. -/
def hunkText (a b : Array Text) (hunk : List Stretch) : Text :=
  match hunk.head?, hunk.getLast? with
  | some first, some last =>
    "@@ -" ++ rangeText first.window.leftStart last.window.leftStop
      ++ " +" ++ rangeText first.window.rightStart last.window.rightStop ++ " @@\n"
      ++ hunk.flatMap (stretchText a b)
  | _, _ => []

/-- The lines of a text, each ended. -/
def endedLines (s : Text) : Array Text :=
  ((Text.lines s).map fun line => if line.endsWith [10] then line else line ++ [10]).toArray

/-- The names of the two texts, unless both are empty. -/
def heading (aName bName : Text) : Text :=
  if aName.isEmpty && bName.isEmpty then []
  else "--- " ++ aName ++ "\n+++ " ++ bName ++ "\n"

/-- The difference from one text to another under their names. There is none when the
lines agree. -/
def unified (aName a bName b : Text) : Text :=
  let left := endedLines a
  let right := endedLines b
  match hunks left right with
  | [] => []
  | hs => heading aName bName ++ hs.flatMap (hunkText left right)

end LineDiff

/-- The difference between the listings of two classes. -/
def ClassFile.difference (aName : Text) (a : ClassFile) (bName : Text) (b : ClassFile) :
    Except Error Text := do
  let left ← a.query ClassFile.listing
  let right ← b.query ClassFile.listing
  return LineDiff.unified aName left bName right

end JvmClass
