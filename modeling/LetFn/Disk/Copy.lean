import LetFn.Disk

/-!
# Copies of files

A run of the program asks only for a few files, which can be told before it starts. A copy is what
such a file was found to be, and some copies make up a disk that has nothing else.
-/

namespace LetFn

/-- What a path was found to lead to. -/
structure Copy where
  path : Bytes
  content : Except FileError Bytes
  /-- The absolute path, without links. -/
  canonical : Bytes

/-- The disk that has the copied files. Anything else is not there. -/
def Disk.ofCopies (copies : List Copy) : Disk where
  read path :=
    match copies.find? (·.path == path) with
    | some c => c.content
    | none => .error ⟨.opening, .notFound⟩
  has path :=
    match copies.find? (·.path == path) with
    | some ⟨_, .ok _, _⟩ | some ⟨_, .error ⟨.reading, _⟩, _⟩ => true
    | _ => false
  canonical path := ((copies.find? (·.path == path)).map Copy.canonical).getD path

end LetFn
