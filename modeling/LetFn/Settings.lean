import LetFn.Text.Quoted

/-!
# Settings

What a user can set: how reports look, how trees are printed, what the log shows. A setting that
nobody gave is empty, or zero, and takes its default. `Settings.problems` says what is wrong with
given settings; settings without problems are valid.
-/

namespace LetFn

/-- The settings of one run. -/
structure Settings where
  /-- When reports are coloured. -/
  color : Bytes
  /-- The width of the frames in reports. -/
  frameWidth : Int
  /-- How trees are printed. -/
  outputFormat : Bytes
  /-- The least level that is logged. -/
  logLevel : Bytes
  /-- How log records are written. -/
  logFormat : Bytes
  deriving DecidableEq, Repr

namespace Settings

/-! ### Defaults -/

/-- No setting is given. -/
def unset : Settings := ⟨[], 0, [], [], []⟩

/-- A text, or another one when it is empty. -/
def orElse (s : Bytes) (other : String) : Bytes := if s.isEmpty then Text.utf8 other else s

/-- The settings with a default for each that is not given. -/
def withDefaults (s : Settings) : Settings where
  color := orElse s.color "auto"
  frameWidth := if s.frameWidth = 0 then 30 else s.frameWidth
  outputFormat := orElse s.outputFormat "text"
  logLevel := orElse s.logLevel "warn"
  logFormat := orElse s.logFormat "text"

/-- The settings when nothing is given. -/
def default : Settings := unset.withDefaults

/-! ### Validity -/

/-- A setting that is one of a few words. -/
inductive Choice where
  | color
  | outputFormat
  | logLevel
  | logFormat
  deriving DecidableEq, Repr

namespace Choice

/-- The choices in the order in which they are checked. -/
def all : List Choice := [color, outputFormat, logLevel, logFormat]

/-- The section and the key of the setting. -/
def name : Choice → Bytes
  | color => Text.utf8 "diagnostics.color"
  | outputFormat => Text.utf8 "output.format"
  | logLevel => Text.utf8 "log.level"
  | logFormat => Text.utf8 "log.format"

/-- The words to choose from. -/
def allowed : Choice → List Bytes
  | color => ["auto", "always", "never"].map Text.utf8
  | outputFormat => ["text", "json"].map Text.utf8
  | logLevel => ["debug", "info", "warn", "error"].map Text.utf8
  | logFormat => ["text", "json"].map Text.utf8

/-- The word that was chosen. -/
def value (s : Settings) : Choice → Bytes
  | color => s.color
  | outputFormat => s.outputFormat
  | logLevel => s.logLevel
  | logFormat => s.logFormat

end Choice

/-- What can be wrong with settings. -/
inductive Problem where
  /-- The word is not among the allowed ones. -/
  | notAllowed (choice : Choice) (word : Bytes)
  /-- The frame width is below zero. -/
  | negativeWidth (width : Int)
  deriving DecidableEq, Repr

/-- What the problem says. -/
def Problem.message : Problem → Bytes
  | notAllowed choice word =>
    choice.name ++ Text.utf8 ": " ++ Text.quote word ++ Text.utf8 " is not one of " ++
      Text.join (Text.utf8 ", ") choice.allowed
  | negativeWidth width =>
    Text.utf8 "diagnostics.frame_width: must not be negative, got " ++ Text.signed width

/-- What several problems say, one to a line. -/
def Problem.messages (problems : List Problem) : Bytes :=
  Text.join [Text.newline] (problems.map Problem.message)

/-- All that is wrong with the settings. -/
def problems (s : Settings) : List Problem :=
  (Choice.all.filter fun c => !c.allowed.contains (c.value s)).map
      (fun c => .notAllowed c (c.value s)) ++
    if s.frameWidth < 0 then [.negativeWidth s.frameWidth] else []

/-- The settings, if nothing is wrong with them. -/
def validate (s : Settings) : Except (List Problem) Settings :=
  if s.problems.isEmpty then .ok s else .error s.problems

end Settings

end LetFn
