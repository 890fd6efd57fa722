import LetFn.Disk
import LetFn.Disk.Path
import LetFn.Environment
import LetFn.Settings

/-!
# Settings files

`Settings.load` reads the settings in a file, whose path may refer to environment variables, and
refuses what is not valid once the defaults are filled in. `Settings.loadFound` looks for the file
first: where the environment says, else in the working directory, else in the home directory.
Without a file the defaults are the settings.

How the contents of a file are taken apart is not said here: loading is given a `Decoder`, which
knows the formats. What is said about loading holds for every decoder.
-/

namespace LetFn.Settings

/-! ### Formats -/

/-- The formats of settings files. -/
inductive Format where
  | toml
  | yaml
  deriving DecidableEq, Repr

/-- The format of the file at a path, by its extension. -/
def Format.ofPath (path : Bytes) : Format :=
  let extension := Text.lower (Path.extension path)
  if extension = Text.utf8 ".yaml" ∨ extension = Text.utf8 ".yml" then .yaml else .toml

/-- What reads the settings off the contents of a file in a format, unset where the contents do not
give one, or says why the contents make no sense. -/
def Decoder : Type := Format → Bytes → Except Bytes Settings

/-! ### Loading -/

/-- Why there are no settings in a file. -/
inductive LoadFault where
  /-- The file cannot be read. -/
  | unreadable (path : Bytes) (error : FileError)
  /-- The contents are not in the file's format, or a value is not of the kind it should be; the
  detail is what the decoder says. -/
  | malformed (path detail : Bytes)
  /-- The settings are not valid. -/
  | invalid (path : Bytes) (problems : List Problem)
  deriving DecidableEq, Repr

/-- What the fault says, up to the details of a malformed file. -/
def LoadFault.headline : LoadFault → Bytes
  | unreadable path error => Text.utf8 "failed to read config: " ++ error.message path
  | malformed path _ => Text.utf8 "failed to parse config " ++ path ++ Text.utf8 ": "
  | invalid path problems =>
    Text.utf8 "invalid config " ++ path ++ Text.utf8 ": " ++ Problem.messages problems

/-- The details of a malformed file. -/
def LoadFault.detail : LoadFault → Bytes
  | malformed _ detail => detail
  | _ => []

/-- What the fault says. -/
def LoadFault.message (f : LoadFault) : Bytes := f.headline ++ f.detail

/-- The settings in the contents of the file at a path. -/
def ofContent (decode : Decoder) (path content : Bytes) : Except LoadFault Settings :=
  match decode (Format.ofPath path) content with
  | .error detail => .error (.malformed path detail)
  | .ok s => s.withDefaults.validate.mapError (.invalid path)

/-- The settings in the file at a path as it is. -/
def loadAt (decode : Decoder) (disk : Disk) (path : Bytes) : Except LoadFault Settings :=
  match disk.read path with
  | .error e => .error (.unreadable path e)
  | .ok content => ofContent decode path content

/-- The settings in the file at a path, in which variables have their values put in. -/
def load (decode : Decoder) (env : Environment) (disk : Disk) (path : Bytes) :
    Except LoadFault Settings :=
  loadAt decode disk (env.expand path)

/-! ### Finding -/

/-- The variable that names a settings file. -/
def pathVariable : Bytes := Text.utf8 "LUMEN_CONFIG"

/-- The home directory, empty when there is none. -/
def home (env : Environment) : Bytes := env.get (Text.utf8 "HOME")

/-- The places where a settings file is looked for. -/
def places (env : Environment) : List Bytes :=
  ["./lumen.toml", "./lumen.yaml", "./lumen.yml"].map Text.utf8 ++
    if (home env).isEmpty then []
    else [Path.join (home env :: [".config", "lumen", "config.toml"].map Text.utf8)]

/-- The settings file to be used, if there is one. -/
def find? (env : Environment) (disk : Disk) : Option Bytes :=
  let named := env.get pathVariable
  if named.isEmpty then (places env).find? disk.has else some named

/-- The settings in the file to be used, and its path; without a file the path is empty. -/
def loadFound (decode : Decoder) (env : Environment) (disk : Disk) :
    Except LoadFault Settings × Bytes :=
  match find? env disk with
  | some path => (load decode env disk path, path)
  | none => (.ok default, [])

end LetFn.Settings
