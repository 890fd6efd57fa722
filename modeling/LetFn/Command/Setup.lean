import LetFn.Command.Lookup
import LetFn.Log
import LetFn.Report.Frame
import LetFn.Settings.File

/-!
# Getting ready

Before a command does its work, its command line is read, the settings are loaded, flags take
precedence over them, and the log is opened. `Fault` has everything that can go wrong on the way.
-/

namespace LetFn.Command

/-! ### Faults -/

/-- Why the words do not fit a command. -/
inductive WordsFault where
  /-- The number of words is not the one expected. -/
  | notExactly (expected received : Nat)
  /-- There are more words than expected. -/
  | moreThan (expected received : Nat)
  /-- The command takes no words. -/
  | unwanted (task : Task) (word : Bytes)
  deriving DecidableEq, Repr

/-- What the fault says. -/
def WordsFault.message : WordsFault → Bytes
  | notExactly expected received =>
    Text.utf8 "accepts " ++ Text.decimal expected ++ Text.utf8 " arg(s), received " ++
      Text.decimal received
  | moreThan expected received =>
    Text.utf8 "accepts at most " ++ Text.decimal expected ++ Text.utf8 " arg(s), received " ++
      Text.decimal received
  | unwanted task word =>
    Text.utf8 "unknown command " ++ Text.quote word ++ Text.utf8 " for " ++
      Text.quote (program ++ Text.utf8 " " ++ task.name)

/-- Why there is no input file. -/
inductive InputFault where
  | both
  | neither
  deriving DecidableEq, Repr

/-- What the fault says. -/
def InputFault.message : InputFault → Bytes
  | both => Text.utf8 "give the input file either as argument or with --path, not both"
  | neither => Text.utf8 "no input file"

/-- Why a command cannot begin its work. -/
inductive Fault where
  | unknownTask (word : Bytes)
  | flags (f : FlagFault)
  | words (f : WordsFault)
  | file (f : Settings.LoadFault)
  | settings (problems : List Settings.Problem)
  | log (f : Log.Fault)
  | input (f : InputFault)
  deriving DecidableEq, Repr

/-- What the fault says. -/
def Fault.message : Fault → Bytes
  | unknownTask word =>
    Text.utf8 "unknown command " ++ Text.quote word ++ Text.utf8 " for " ++ Text.quote program ++
      suggestionText (suggestions word)
  | flags f => f.message
  | words f => f.message
  | file f => f.message
  | settings problems => Text.utf8 "invalid settings: " ++ Settings.Problem.messages problems
  | log f => f.message
  | input f => f.message

/-! ### Command lines -/

/-- A command line that was read. -/
structure Request where
  task : Task
  given : Given
  deriving DecidableEq, Repr

/-- The number of words fits the task. -/
def checkWords (task : Task) (words : List Bytes) : Except WordsFault Unit :=
  match task, words with
  | .parse, _ :: _ :: _ => .error (.moreThan 1 words.length)
  | .tokens, [_] | .fmt, [_] => .ok ()
  | .tokens, _ | .fmt, _ => .error (.notExactly 1 words.length)
  | .repl, word :: _ => .error (.unwanted .repl word)
  | _, _ => .ok ()

/-- Reads a command line: the task, then its flags, then its words. Whoever asks for help gets it
whatever the words are. -/
def Request.read (arguments : List Bytes) : Except Fault Request :=
  match findTask arguments with
  | .error word => .error (.unknownTask word)
  | .ok (task, rest) =>
    match Given.read task.flags rest with
    | .error f => .error (.flags f)
    | .ok given =>
      if given.isOn .help then .ok ⟨.help, given⟩
      else
        match checkWords task given.words with
        | .error f => .error (.words f)
        | .ok () => .ok ⟨task, given⟩

/-- The input file: the value of the flag, if it is not empty, or else the first word. -/
def inputPath (flag : Bytes) (words : List Bytes) : Except InputFault Bytes :=
  match flag.isEmpty, words with
  | false, _ :: _ => .error .both
  | false, [] => .ok flag
  | true, word :: _ => .ok word
  | true, [] => .error .neither

/-! ### Settings -/

/-- What a run is given from outside. -/
structure World where
  env : Environment
  disk : Disk
  /-- What log records show as their time. -/
  stamp : Bytes
  /-- The name of the run in the log. -/
  run : Bytes
  /-- Reports go to a terminal. -/
  terminal : Bool
  /-- What reports are painted with. -/
  styles : Report.Styles

/-- The settings of the file that is named, or else found, and its path. -/
def loadSettings (decode : Settings.Decoder) (w : World) (g : Given) :
    Except Settings.LoadFault Settings × Bytes :=
  let path := (g.value? .config).getD []
  if path.isEmpty then Settings.loadFound decode w.env w.disk
  else (Settings.load decode w.env w.disk path, path)

/-- The settings with what the flags say in place of what the file says. -/
def override (g : Given) (s : Settings) : Settings :=
  let s := { s with
    color := (g.value? .color).getD s.color
    logLevel := (g.value? .logLevel).getD s.logLevel }
  if g.isOn .verbose then { s with logLevel := Text.utf8 "debug" } else s

/-- What a command works with. -/
structure Setup where
  settings : Settings
  log : Log.Logger

/-- The setup for the given flags, and what is logged about it. -/
def Setup.make (decode : Settings.Decoder) (w : World) (g : Given) :
    Except Fault (Setup × Bytes) := do
  let (loaded, path) := loadSettings decode w g
  let settings ← loaded.mapError .file
  -- What the file says has been checked by now, so this finds fault with flags only.
  let settings ← (override g settings).validate.mapError .settings
  let log ← (Log.Logger.make settings.logLevel settings.logFormat w.stamp w.run).mapError .log
  let record :=
    if path.isEmpty then log.debug "using default config" []
    else log.debug "loaded config" [(Text.utf8 "path", .text path)]
  return (⟨settings, log⟩, record)

/-- How reports look: painted if that is set, or left to the terminal and there is one. -/
def Setup.look (s : Setup) (w : World) : Report.Look :=
  let painted :=
    s.settings.color = Text.utf8 "always" ∨ (s.settings.color = Text.utf8 "auto" ∧ w.terminal)
  let look : Report.Look := ⟨if painted then some w.styles else none, Report.defaultWidth⟩
  look.withWidth s.settings.frameWidth

end LetFn.Command
