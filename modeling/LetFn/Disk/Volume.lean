import LetFn.Disk
import LetFn.Disk.Path

/-!
# File systems in memory

A volume is a file system as a value: directories, files and links, each at a list of names below
the root. Paths are resolved as an operating system does it, following links wherever they stand,
a limited number of them.
-/

namespace LetFn

/-- What stands at a path. -/
inductive Entry where
  | file (content : Bytes)
  | directory
  | link (target : Bytes)
  deriving DecidableEq, Repr

/-- A file system: what stands at which names below the root. -/
structure Volume where
  entries : List (List Bytes × Entry)
  /-- The directory that relative paths start from. -/
  working : List Bytes

namespace Volume

/-- A volume with nothing but its working directory. -/
def empty (working : List Bytes) : Volume := ⟨[], working⟩

/-- What stands at the names. -/
def entry? (v : Volume) (names : List Bytes) : Option Entry :=
  if names.isEmpty then some .directory else v.entries.lookup names

/-- The volume with an entry put in place of what was there. -/
def put (v : Volume) (names : List Bytes) (entry : Entry) : Volume :=
  { v with entries := (names, entry) :: v.entries.filter (·.1 != names) }

/-- The volume with directories at the names and above them, where nothing stands yet. -/
def putDirectories (v : Volume) (names : List Bytes) : Volume :=
  (List.range (names.length + 1)).foldl
    (fun v n => if (v.entry? (names.take n)).isSome then v else v.put (names.take n) .directory) v

/-- The names of a path below the directory `base`. -/
def names (base : List Bytes) (path : Bytes) : List Bytes :=
  (Path.elements path).foldl (fun at_ e => (Path.push true at_.reverse e).reverse)
    (if Path.isAbsolute path then [] else base)

/-- The volume with an entry at a path, and the directories above it. -/
def add (v : Volume) (path : Bytes) (entry : Entry) : Volume :=
  let names := names v.working path
  (v.putDirectories names.dropLast).put names entry

/-- How many links are followed for one path. -/
def linkLimit : Nat := 40

/-- Where a path leads: to names with an entry, or to names that are free. -/
structure Spot where
  names : List Bytes
  entry : Option Entry

/-- Follows the elements of a path from the directory `base`, with `links` links left to follow. -/
def follow (v : Volume) (links : Nat) (base elements : List Bytes) : Except DiskError Spot :=
  match elements with
  | [] => .ok ⟨base, v.entry? base⟩
  | e :: rest =>
    match v.entry? base with
    | none => .error .notFound
    | some (.file _) | some (.link _) => .error .notDirectory
    | some .directory =>
      if e.isEmpty || e == Path.here then follow v links base rest
      else if e == Path.up then follow v links base.dropLast rest
      else if 255 < e.length then .error .nameTooLong
      else
        match v.entry? (base ++ [e]) with
        | none => if rest.isEmpty then .ok ⟨base ++ [e], none⟩ else .error .notFound
        | some (.link target) =>
          match links with
          | 0 => .error .tooManyLinks
          | links + 1 =>
            follow v links (if Path.isAbsolute target then [] else base)
              (Path.elements target ++ rest)
        | some _ => follow v links (base ++ [e]) rest
termination_by (links, elements.length)

/-- Where a path leads. -/
def resolve (v : Volume) (path : Bytes) : Except DiskError Spot :=
  if path.isEmpty then .error .notFound
  else if path.contains 0 then .error .invalidName
  else if 4096 ≤ path.length then .error .nameTooLong
  else follow v linkLimit (if Path.isAbsolute path then [] else v.working) (Path.elements path)

/-- The contents of the file at a path. -/
def read (v : Volume) (path : Bytes) : Except FileError Bytes :=
  match v.resolve path with
  | .error e => .error ⟨.opening, e⟩
  | .ok spot =>
    match spot.entry with
    | none => .error ⟨.opening, .notFound⟩
    | some (.file content) => .ok content
    | some _ => .error ⟨.reading, .isDirectory⟩

/-- Something is at the path. -/
def has (v : Volume) (path : Bytes) : Bool :=
  match v.resolve path with
  | .ok ⟨_, some _⟩ => true
  | _ => false

/-- The absolute path, cleaned, without links where something is there. -/
def canonical (v : Volume) (path : Bytes) : Bytes :=
  let root : Bytes := [Path.slash]
  let absolute :=
    if Path.isAbsolute path then Path.clean path
    else Path.join [root ++ Path.ofElements v.working, path]
  match v.resolve absolute with
  | .ok ⟨names, some _⟩ => root ++ Path.ofElements names
  | _ => absolute

/-- The volume as a disk. -/
def disk (v : Volume) : Disk := ⟨v.read, v.has, v.canonical⟩

/-- The volume with the contents of the file at a path replaced, or a new file there. Nothing can
be written where a directory stands or no directory is above. -/
def write? (v : Volume) (path content : Bytes) : Option Volume :=
  match v.resolve path with
  | .ok ⟨names, none⟩ | .ok ⟨names, some (.file _)⟩ => some (v.put names (.file content))
  | _ => none

end Volume

end LetFn
