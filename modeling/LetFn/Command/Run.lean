import LetFn.Command.Setup
import LetFn.Failure
import LetFn.Node.Format
import LetFn.Node.Json
import LetFn.Node.Outline
import LetFn.Repl.Dialogue

/-!
# Doing a command's work

`run` does what a command line asks for: it says what is written to the two streams, which status
the run ends with, and which file is to be written. It reads files through the disk of its world
and does nothing else, so it is a function of what it is given.

The work on a source file comes in three steps that `parse` and `fmt` share: open the file, read
it, parse it. The first that fails is reported, and then nothing is printed.
-/

namespace LetFn.Command

open Repl (Output)

/-! ### Reports -/

/-- The report of a failure in a file, and what is logged about it. -/
def report (w : World) (s : Setup) (f : Failure) (path : Bytes) : Bytes :=
  let inFile := f.inFile path
  s.log.debug "diagnostic" [(Text.utf8 "code", .text inFile.code.text),
      (Text.utf8 "path", .text path), (Text.utf8 "loc", .location inFile.loc)] ++
    inFile.report (s.look w) w.disk

/-- The failure of reading the file at a path. -/
def readFailure (w : World) (path : Bytes) (fault : ReadFault) : Failure :=
  let cause :=
    match w.disk.read path with
    | .error e => .ofFileError e path
    | .ok _ => .plain fault.message
  .wrapped (Text.utf8 "read " ++ path) cause

/-! ### Source files -/

/-- Parses the file at a path: the module and what is logged, or the report of what is wrong. -/
def parseFile (w : World) (s : Setup) (path : Bytes) : Except Bytes (Node × Bytes) :=
  match w.disk.source path with
  | .error e => .error (report w s (.ofFileError e path) path)
  | .ok source =>
    match source.metFault, parseLines source.lines with
    | some fault, _ => .error (report w s (readFailure w path fault) path)
    | none, .error f => .error (report w s (.ofParseFault f) path)
    | none, .ok m =>
      let log := s.log.component (Text.utf8 "parse")
      .ok (m, log.debug "parsed" [(Text.utf8 "path", .text path),
        (Text.utf8 "statements", .integer m.stmts.length)])

/-- Prints the tree of a file. -/
def runParse (w : World) (s : Setup) (path format : Bytes) : Output × Nat :=
  match parseFile w s path with
  | .error text => (⟨[], text⟩, 1)
  | .ok (m, log) =>
    if format = Text.utf8 "json" then (⟨m.json, log⟩, 0)
    else if format = Text.utf8 "text" then (⟨m.outline, log⟩, 0)
    else
      (⟨[], log ++ Text.utf8 "error: unknown format " ++ Text.quote format ++ [Text.newline]⟩, 1)

/-- Prints a file in canonical form, or its path if it is not in that form and only to be
checked. -/
def runFmt (w : World) (s : Setup) (path : Bytes) (check : Bool) : Output × Nat :=
  match parseFile w s path with
  | .error text => (⟨[], text⟩, 1)
  | .ok (m, log) =>
    if check then
      match w.disk.read path with
      | .error e => (⟨[], log ++ report w s (.ofFileError e path) path⟩, 1)
      | .ok content =>
        if content = m.format then (⟨[], log⟩, 0) else (⟨path ++ [Text.newline], log⟩, 1)
    else (⟨m.format, log⟩, 0)

/-- A row of the table of tokens. -/
def tokenRow (place token literal : Bytes) : Bytes :=
  Text.padRight 12 place ++ [Text.blank] ++ Text.padRight 10 token ++ [Text.blank] ++ literal ++
    [Text.newline]

/-- The head of the table of tokens. -/
def tokenHead : Bytes :=
  tokenRow (Text.utf8 "POSITION") (Text.utf8 "TOKEN") (Text.utf8 "LITERAL") ++
    tokenRow (Text.times 12 (Text.utf8 "-")) (Text.times 10 (Text.utf8 "-"))
      (Text.times 20 (Text.utf8 "-"))

/-- The row of a token. -/
def rowOfToken (t : Token) : Bytes :=
  let literal := if t.word.isLiteral then Text.quote t.word.literalText else []
  tokenRow t.loc.text t.word.op.spelling literal

/-- Prints the tokens of a file, up to the first line that cannot be read. -/
def runTokens (w : World) (s : Setup) (path : Bytes) : Output × Nat :=
  match w.disk.source path with
  | .error e => (⟨[], report w s (.ofFileError e path) path⟩, 1)
  | .ok source =>
    let (tokens, stream) := (Stream.start source.lines).drain
    let table := tokenHead ++ tokens.flatMap rowOfToken
    match stream.fault, source.fault with
    | some f, _ => (⟨table, report w s (.ofParseFault (.ofLexical f)) path⟩, 1)
    | none, some f => (⟨table, report w s (readFailure w path f) path⟩, 1)
    | none, none =>
      (⟨table, s.log.debug "tokenized" [(Text.utf8 "path", .text path),
        (Text.utf8 "tokens", .integer tokens.length),
        (Text.utf8 "lines", .integer stream.line.toNat)]⟩, 0)

/-! ### The other tasks -/

/-- How the program was built. -/
structure Build where
  compiler : Bytes
  system : Bytes
  machine : Bytes

/-- The version of the program. -/
def versionText (b : Build) : Bytes :=
  Text.unlines [Text.utf8 "lumenc version 0.1.0-dev", Text.utf8 "  Git Commit: development",
    Text.utf8 "  Build Date: unknown", Text.utf8 "  Go Version: " ++ b.compiler,
    Text.utf8 "  OS/Arch:    " ++ b.system ++ Text.utf8 "/" ++ b.machine]

/-- How the program is used. -/
def usageText : Bytes :=
  Text.unlines (["lumenc reads lumen source files and reports their syntax tree.", "", "Commands:",
    "  parse    - parse a file and print its AST", "  tokens   - print the token stream of a file",
    "  fmt      - print a file in canonical form",
    "  repl     - parse statements interactively"].map Text.utf8)

/-- The log of a dialogue. -/
def Setup.dialogueLog (s : Setup) : Log.Logger := s.log.component (Text.utf8 "repl")

/-- Where the history of dialogues is kept. -/
def historyPath (w : World) : Bytes := Repl.History.path (Settings.home w.env)

/-- The history of the dialogues before. -/
def oldHistory (w : World) : Repl.History :=
  match w.disk.read (historyPath w) with
  | .ok text => .ofText text
  | .error _ => []

/-! ### Runs -/

/-- How a run ends. -/
inductive Ending where
  /-- With a status; a status other than zero was explained before. -/
  | status (n : Nat)
  /-- With a fault that is still to be shown. -/
  | fault (f : Fault)
  deriving DecidableEq, Repr

/-- What a run comes to. -/
structure Outcome where
  output : Output
  ending : Ending
  /-- A file to be written, with its contents; nothing happens if it cannot be. -/
  file : Option (Bytes × Bytes)

namespace Outcome

/-- The run ends with a fault, after some log records. -/
def refused (log : Bytes) (f : Fault) : Outcome := ⟨⟨[], log⟩, .fault f, none⟩

/-- The run ends with a status, after some log records and some output. -/
def finished (log : Bytes) (result : Output × Nat) : Outcome :=
  ⟨⟨[], log⟩ ++ result.1, .status result.2, none⟩

/-- The status that the operating system gets. -/
def code (o : Outcome) : Nat :=
  match o.ending with
  | .status n => n
  | .fault _ => 1

/-- What is shown about a fault in the end, up to the details of a malformed file. -/
def headline (f : Fault) : Bytes :=
  Text.utf8 "error: " ++
    match f with
    | .file f => f.headline
    | f => f.message

/-- What is shown about a fault in the end. -/
def complaint (f : Fault) : Bytes := Text.utf8 "error: " ++ f.message ++ [Text.newline]

end Outcome

/-- What an exit status other than zero is called. -/
def statusText? (n : Int) : Option Bytes :=
  if n = 0 then none else some (Text.utf8 "exit status " ++ Text.signed n)

/-- A dialogue over what is typed. -/
def runRepl (w : World) (s : Setup) (typed log : Bytes) : Outcome :=
  let lines := (Repl.TypedLine.ofText typed).map Repl.TypedLine.text
  let (output, history) := (Repl.Dialogue.start (oldHistory w)).run s.dialogueLog lines
  ⟨⟨Repl.Dialogue.banner, log⟩ ++ output, .status 0, some (historyPath w, history.toText)⟩

/-- Does what a request asks for. -/
def Request.perform (decode : Settings.Decoder) (w : World) (b : Build) (typed : Bytes)
    (r : Request) : Outcome :=
  if r.task = .help then ⟨⟨usageText, []⟩, .status 0, none⟩
  else
    match Setup.make decode w r.given with
    | .error f => .refused [] f
    | .ok (s, log) =>
      let path := r.given.words.head?.getD []
      match r.task with
      | .parse =>
        match inputPath ((r.given.value? .path).getD []) r.given.words with
        | .error f => .refused log (.input f)
        | .ok path =>
          .finished log (runParse w s path ((r.given.value? .format).getD s.settings.outputFormat))
      | .tokens => .finished log (runTokens w s path)
      | .fmt => .finished log (runFmt w s path (r.given.isOn .check))
      | .version => .finished log (⟨versionText b, []⟩, 0)
      | .repl => runRepl w s typed log
      | .help => .finished log (.none, 0)

/-- Does what a command line asks for. -/
def run (decode : Settings.Decoder) (w : World) (b : Build) (typed : Bytes)
    (arguments : List Bytes) : Outcome :=
  match Request.read arguments with
  | .error f => .refused [] f
  | .ok r => r.perform decode w b typed

end LetFn.Command
