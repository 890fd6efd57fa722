import LetFn.Source

/-!
# Disks

The commands ask three things of a file system: what a file holds, whether something is there at
a path, and which path a path stands for once links are resolved. A `Disk` is a file system as
those three answers give it, the same each time it is asked.
-/

namespace LetFn

/-- Why a path is refused. -/
inductive DiskError where
  | notFound
  | notDirectory
  | isDirectory
  | tooManyLinks
  | nameTooLong
  | invalidName
  deriving DecidableEq, Repr

/-- What the error says. -/
def DiskError.message : DiskError → Bytes
  | notFound => Text.utf8 "no such file or directory"
  | notDirectory => Text.utf8 "not a directory"
  | isDirectory => Text.utf8 "is a directory"
  | tooManyLinks => Text.utf8 "too many levels of symbolic links"
  | nameTooLong => Text.utf8 "file name too long"
  | invalidName => Text.utf8 "invalid argument"

/-- What was being done with a file. A directory can be opened but not read. -/
inductive FileVerb where
  | opening
  | reading
  deriving DecidableEq, Repr

/-- The verb as messages have it. -/
def FileVerb.text : FileVerb → Bytes
  | opening => Text.utf8 "open"
  | reading => Text.utf8 "read"

/-- Why the contents of a file cannot be had. -/
structure FileError where
  verb : FileVerb
  cause : DiskError
  deriving DecidableEq, Repr

/-- What the error says about the file at `path`. -/
def FileError.message (e : FileError) (path : Bytes) : Bytes :=
  e.verb.text ++ Text.utf8 " " ++ path ++ Text.utf8 ": " ++ e.cause.message

/-- A file system as its answers give it. -/
structure Disk where
  /-- The contents of the file at a path. -/
  read : Bytes → Except FileError Bytes
  /-- Something is at the path: a file or a directory. -/
  has : Bytes → Bool
  /-- The absolute path, without links where they can be resolved. -/
  canonical : Bytes → Bytes

/-- The lines of the file at a path, if it can be opened. What cannot be read has no lines. -/
def Disk.source (d : Disk) (path : Bytes) : Except FileError Source :=
  match d.read path with
  | .ok text => .ok (.ofText text)
  | .error e =>
    match e.verb with
    | .opening => .error e
    | .reading => .ok (.failed (.unreadable (e.message path)))

end LetFn
