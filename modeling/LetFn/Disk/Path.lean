import LetFn.Text.Bytes

/-!
# Paths

Paths are bytes with slashes between their elements. `clean` shortens a path without looking at
any file: it drops empty elements and `.`, and lets `..` take away the element before it.
-/

namespace LetFn.Path

/-- The slash. -/
def slash : UInt8 := 0x2F

/-- The element that stands for the same directory. -/
def here : Bytes := Text.utf8 "."

/-- The element that stands for the directory above. -/
def up : Bytes := Text.utf8 ".."

/-- The path starts at the root. -/
def isAbsolute (path : Bytes) : Bool := path.head? == some slash

/-- The elements of a path, empty ones included. -/
def elements (path : Bytes) : List Bytes := Text.splitAt slash path

/-- The elements with `/` between them. -/
def ofElements (elements : List Bytes) : Bytes := Text.join [slash] elements

/-- Adds an element to a cleaned path, held last element first. -/
def push (absolute : Bool) (done : List Bytes) (element : Bytes) : List Bytes :=
  if element.isEmpty || element == here then done
  else if element == up then
    match done with
    | [] => if absolute then [] else [up]
    | last :: before => if last == up then up :: last :: before else before
  else element :: done

/-- The shortest path that means the same when there are no links. -/
def clean (path : Bytes) : Bytes :=
  let absolute := isAbsolute path
  let kept := ofElements ((elements path).foldl (push absolute) []).reverse
  if absolute then slash :: kept else if kept.isEmpty then here else kept

/-- The parts that are not empty, as one clean path; nothing when all are empty. -/
def join (parts : List Bytes) : Bytes :=
  match parts.filter (!·.isEmpty) with
  | [] => []
  | parts => clean (ofElements parts)

/-- What a path ends with, from the last dot of its last element on; nothing without a dot. -/
def extension (path : Bytes) : Bytes :=
  let last := (path.reverse.takeWhile (· != slash)).reverse
  if last.contains 0x2E then 0x2E :: (last.reverse.takeWhile (· != 0x2E)).reverse else []

end LetFn.Path
