import LetFn.Command.Needs
import LetFn.Disk.Copy
import LetFn.Log.Stamp
import LetFn.Report.Ansi
import LetFn.Settings.Field
import Std.Time.DateTime.Timestamp

/-!
# The program

All that a command does is a function of its world; here the world is looked at, and what the
function says is written. Only a dialogue goes back and forth, a line at a time.
-/

namespace LetFn

open Command

/-! ### Looking at the world -/

/-- The string with the given bytes, empty when they are not UTF-8. -/
def stringOf (b : Bytes) : String := (String.fromUTF8? (ByteArray.mk b.toArray)).getD ""

/-- Why the operating system refuses a path. -/
def diskErrorOf : IO.Error → DiskError
  | .inappropriateType .. => .notDirectory
  | .invalidArgument .. => .invalidName
  | _ => .notFound

/-- The absolute path of what is not there. -/
def absolute (path : Bytes) : IO Bytes := do
  if Path.isAbsolute path then return Path.clean path
  else return Path.join [(← IO.currentDir).toString.toUTF8.toList, path]

/-- What a path leads to. -/
def copyOf (path : Bytes) : IO Copy := do
  let name := stringOf path
  try
    let real ← IO.FS.realPath name
    let canonical := real.toString.toUTF8.toList
    if ← real.isDir then return ⟨path, .error ⟨.reading, .isDirectory⟩, canonical⟩
    else return ⟨path, .ok (← IO.FS.readBinFile name).toList, canonical⟩
  catch e => return ⟨path, .error ⟨.opening, diskErrorOf e⟩, ← absolute path⟩

/-- The values of variables. -/
def valuesOf (names : List Bytes) : IO (List (Bytes × Bytes)) :=
  names.filterMapM fun name => do
    return (← IO.getEnv (stringOf name)).map fun v => (name, v.toUTF8.toList)

/-- The world that a request is about. -/
def worldOf (r : Request) : IO World := do
  let own ← valuesOf ownVariables
  let others ← valuesOf (r.variables ⟨own⟩)
  let env : Environment := ⟨own ++ others⟩
  let copies ← (r.files env).mapM copyOf
  let now ← Std.Time.Timestamp.now
  let noise ← IO.getRandomBytes 16
  return {
    env := env
    disk := .ofCopies copies
    stamp := Log.stampOfMillis now.toMillisecondsSinceUnixEpoch.val.toNat
    run := Log.runName noise.toList
    terminal := ← (← IO.getStderr).isTty
    styles := .ansi }

/-- What is known about how the program was built. -/
def thisBuild : Build := ⟨Text.utf8 "unknown", Text.utf8 "unknown", Text.utf8 "unknown"⟩

/-! ### Writing -/

/-- Writes to the two streams. -/
def put (o : Repl.Output) : IO Unit := do
  let out ← IO.getStdout
  out.write (ByteArray.mk o.out.toArray)
  out.flush
  (← IO.getStderr).write (ByteArray.mk o.err.toArray)

/-- Writes a file, if it can be written. -/
def putFile (path content : Bytes) : IO Unit :=
  try IO.FS.writeBinFile (stringOf path) (ByteArray.mk content.toArray)
  catch _ => pure ()

/-- Writes what a run comes to, and gives its status. -/
def finish (o : Outcome) : IO UInt32 := do
  put o.output
  if let .fault f := o.ending then put ⟨[], Outcome.complaint f⟩
  if let some (path, content) := o.file then putFile path content
  return UInt32.ofNat o.code

/-! ### Dialogues -/

/-- Reads on until there is a line, the buffer is full or the input ends. -/
partial def fillBuffer (input : IO.FS.Stream) (held : Bytes) : IO Bytes := do
  if held.contains Text.newline || Repl.bufferSize ≤ held.length then return held
  else
    let more ← input.read 1
    if more.isEmpty then return held else fillBuffer input (held ++ more.toList)

/-- Goes on with a dialogue to its end. -/
partial def converse (log : Log.Logger) (d : Repl.Dialogue) (held : Bytes) : IO Repl.History := do
  put ⟨d.prompt, []⟩
  let held ← fillBuffer (← IO.getStdin) held
  if held.isEmpty then
    put ⟨[Text.newline], []⟩
    return d.history
  else
    let (line, held) := Repl.TypedLine.first held
    let (output, next) := d.feed log line.text
    put output
    match next with
    | .ok d => converse log d held
    | .error history => return history

/-- A dialogue at the terminal. -/
def converseIn (w : World) (r : Request) : IO UInt32 := do
  match Setup.make .builtin w r.given with
  | .error f => finish (.refused [] f)
  | .ok (s, log) =>
    put ⟨Repl.Dialogue.banner, log⟩
    let history ← converse s.dialogueLog (.start (oldHistory w)) []
    putFile (historyPath w) history.toText
    return 0

/-- Does what the command line asks for. -/
def start (arguments : List Bytes) : IO UInt32 := do
  match Request.read arguments with
  | .error f => finish (.refused [] f)
  | .ok r =>
    let w ← worldOf r
    if r.task = .repl then converseIn w r else finish (r.perform .builtin w thisBuild [])

end LetFn

/-- Runs the program. -/
def main (arguments : List String) : IO UInt32 :=
  LetFn.start (arguments.map fun s => s.toUTF8.toList)
