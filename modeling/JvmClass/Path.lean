import JvmClass.Text

/-!
# Paths

A path names a file by the folders on the way to it, with slashes between. Here paths are
only texts: whether there is such a file does not matter.
-/

namespace JvmClass

namespace Path

/-- The byte that separates the elements of a path. -/
def slash : UInt8 := 47

/-- The pieces of a text between slashes. -/
def split (p : Text) : List Text := p.splitOn slash

/-- Whether a path starts at the root. -/
def isAbsolute (p : Text) : Bool := p.head? == some slash

/-- Adds an element to the elements so far, the last of which comes first. A step up takes
away the element before it. -/
def push (rooted : Bool) (done : List Text) (element : Text) : List Text :=
  if element.isEmpty || element = ("." : Text) then done
  else if element = (".." : Text) then
    match done with
    | [] => if rooted then [] else [element]
    | last :: rest => if last = (".." : Text) then element :: done else rest
  else element :: done

/-- The shortest path that names the same file, as far as texts can tell. -/
def clean (p : Text) : Text :=
  let rooted := isAbsolute p
  let elements := ((split p).foldl (push rooted) []).reverse
  let body := Text.join [slash] elements
  if rooted then slash :: body else if body.isEmpty then "." else body

/-- One path inside another. An empty one counts for nothing. -/
def join (front back : Text) : Text :=
  if front.isEmpty then (if back.isEmpty then [] else clean back)
  else clean (front ++ slash :: back)

/-- The last element of a text, and what stands before it with its slash. -/
def splitLast (p : Text) : Text × Text :=
  let back := (p.reverse.takeWhile (· ≠ slash)).reverse
  (p.take (p.length - back.length), back)

/-- The folder that a path leads to before its last element. -/
def folder (p : Text) : Text := clean (splitLast p).1

/-- The last element of a path. -/
def base (p : Text) : Text :=
  if p.isEmpty then "."
  else
    let trimmed := (p.reverse.dropWhile (· = slash)).reverse
    if trimmed.isEmpty then [slash] else (splitLast trimmed).2

/-- The last element from its last dot on, or nothing. -/
def extension (p : Text) : Text :=
  let name := (splitLast p).2
  let back := (name.reverse.takeWhile (· ≠ 46)).reverse
  if back.length = name.length then [] else 46 :: back

end Path

end JvmClass
