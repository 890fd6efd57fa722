import LetFn.Settings.File
import LetFn.Toml.Document
import LetFn.Yaml.Tree

/-!
# Settings in files

A file has its settings in three sections. `Settings.ofToml?` and `Settings.ofYaml?` read them off
a file's contents, leaving unset what is not there; names that mean nothing are left alone. In TOML
the case of names does not matter.

`Decoder.builtin` is the decoder that the program runs with. It reads the part of the two formats
that settings are written in. Nothing is proved about it: loading takes the decoder as it is given.
-/

namespace LetFn.Settings

/-! ### Names -/

/-- A setting. -/
inductive Field where
  | choice (c : Choice)
  | frameWidth
  deriving DecidableEq, Repr

/-- The sections of a file. -/
def sections : List String := ["diagnostics", "output", "log"]

/-- The setting of a key in a section. -/
def Field.ofNames? (header key : String) : Option Field :=
  match header, key with
  | "diagnostics", "color" => some (.choice .color)
  | "diagnostics", "frame_width" => some .frameWidth
  | "output", "format" => some (.choice .outputFormat)
  | "log", "level" => some (.choice .logLevel)
  | "log", "format" => some (.choice .logFormat)
  | _, _ => none

/-- The settings with a word chosen. -/
def choose (s : Settings) (c : Choice) (word : Bytes) : Settings :=
  match c with
  | .color => { s with color := word }
  | .outputFormat => { s with outputFormat := word }
  | .logLevel => { s with logLevel := word }
  | .logFormat => { s with logFormat := word }

/-! ### TOML -/

/-- The character in lower case. Besides `A` to `Z`, two characters have an ASCII letter as their
other case: the long s and the Kelvin sign. -/
def foldChar (c : Char) : Char :=
  if c = '\u017f' then 's' else if c = '\u212a' then 'k' else c.toLower

/-- The name in lower case. -/
def foldName (name : String) : String := String.ofList (name.toList.map foldChar)

/-- Takes over a value for a key in a section. -/
def setFromToml (header : String) (s : Settings) (entry : String × Toml.Value) : Option Settings :=
  match Field.ofNames? header (foldName entry.1), entry.2 with
  | none, _ => some s
  | some (.choice c), .text word => some (s.choose c (Text.utf8 word))
  | some .frameWidth, .integer n => some { s with frameWidth := n }
  | some _, _ => none

/-- Takes over a section. -/
def addFromToml (s : Settings) (entry : String × Toml.Value) : Option Settings :=
  let header := foldName entry.1
  if sections.contains header then
    match entry.2 with
    | .table entries => entries.foldlM (setFromToml header) s
    | _ => none
  else some s

/-- The settings in a TOML document. -/
def ofToml? (content : Bytes) : Option Settings := do
  (← Toml.Table.parse? content).foldlM addFromToml unset

/-! ### YAML -/

/-- What two keys are compared by. -/
def keyImage : Yaml.Tree → Nat × String
  | .scalar text _ => (0, text)
  | .sequence _ => (1, "")
  | .mapping _ => (2, "")

/-- No key comes up twice. -/
def hasDistinctKeys (pairs : List (Yaml.Tree × Yaml.Tree)) : Bool :=
  let images := pairs.map fun p => keyImage p.1
  images.eraseDups.length == images.length

/-- Takes over the pairs of a mapping, each by its name; a key that stands for nothing is left
out. -/
def addPairs (add : Settings → String → Yaml.Tree → Option Settings) (s : Settings)
    (pairs : List (Yaml.Tree × Yaml.Tree)) : Option Settings :=
  if hasDistinctKeys pairs then
    pairs.foldlM (fun s (k, v) =>
      match k with
      | .scalar name _ => if k.isNull then some s else add s name v
      | _ => none) s
  else none

/-- Takes over a value for a key in a section. -/
def setFromYaml (header : String) (s : Settings) (key : String) (v : Yaml.Tree) : Option Settings :=
  match Field.ofNames? header key with
  | none => some s
  | some field =>
    if v.isNull then some s
    else
      match field, v with
      | .choice c, .scalar text _ => some (s.choose c (Text.utf8 text))
      | .frameWidth, .scalar text true =>
        (Yaml.Tree.integerOfText? text).map fun n => { s with frameWidth := n }
      | _, _ => none

/-- Takes over a section. -/
def addFromYaml (s : Settings) (header : String) (v : Yaml.Tree) : Option Settings :=
  if sections.contains header then
    match v with
    | .mapping pairs => addPairs (setFromYaml header) s pairs
    | v => if v.isNull then some s else none
  else some s

/-- The settings in a YAML document. -/
def ofYaml? (content : Bytes) : Option Settings := do
  match ← Yaml.Tree.parse? content with
  | none => some unset
  | some (.mapping pairs) => addPairs addFromYaml unset pairs
  | some v => if v.isNull then some unset else none

/-! ### Both formats -/

/-- The decoder of the program. -/
def Decoder.builtin : Decoder
  | .toml, content =>
    match ofToml? content with
    | some s => .ok s
    | none => .error (Text.utf8 "toml: not a document of settings")
  | .yaml, content =>
    match ofYaml? content with
    | some s => .ok s
    | none => .error (Text.utf8 "yaml: not a document of settings")

end LetFn.Settings
