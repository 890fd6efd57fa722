import LetFn.Failure
import LetFn.Log
import LetFn.Node.Outline
import LetFn.Repl.History
import LetFn.Repl.Probe

/-!
# Dialogues

A dialogue reads input after input and shows the tree of each, or what is wrong with it. `:quit`
ends it, and so does the end of input. The dialogue is a machine that takes one typed line at a
time: `Dialogue.feed` says what to write and goes on or ends.
-/

namespace LetFn.Repl

/-- What is written, to the two streams. -/
structure Output where
  out : Bytes
  err : Bytes
  deriving DecidableEq, Repr

namespace Output

/-- Nothing is written. -/
def none : Output := ⟨[], []⟩

/-- Something is written, then something else. -/
def append (a b : Output) : Output := ⟨a.out ++ b.out, a.err ++ b.err⟩

instance : Append Output := ⟨append⟩

end Output

/-! ### One input -/

/-- Shows the tree of a source, or what is wrong with it. -/
def evaluate (source : Bytes) : Output × Option ParseFault :=
  match parseText source with
  | .ok m => (⟨m.outline, []⟩, none)
  | .error f => (⟨[], Failure.describe f ++ [Text.newline]⟩, some f)

/-! ### The dialogue -/

/-- A dialogue that waits for a line. -/
structure Dialogue where
  /-- The lines of an input that goes on. -/
  pending : Bytes
  history : History

namespace Dialogue

/-- What a dialogue opens with. -/
def banner : Bytes :=
  Text.utf8 "lumen REPL\nStatements end with ';'. Ctrl+D exits, :quit too.\n"

/-- A dialogue with a history. -/
def start (history : History) : Dialogue := ⟨[], history⟩

/-- The prompt for the next line. -/
def prompt (d : Dialogue) : Bytes := (Prompt.after d.pending).text

/-- The command that ends a dialogue. -/
def quit : Bytes := Text.utf8 ":quit"

/-- Takes an input: what is written, and the dialogue that goes on, or the history it ended
with. -/
def take (log : Log.Logger) (history : History) (source : Bytes) :
    Output × Except History Dialogue :=
  let command := Text.trim source
  if command.isEmpty then (.none, .ok (start history))
  else if command = quit then (.none, .error history)
  else
    let (output, fault) := evaluate source
    let remark :=
      match fault with
      | some f => log.debug "rejected input" [(Text.utf8 "error", .text (Failure.describe f))]
      | none => []
    (output ++ ⟨[], remark⟩, .ok (start (history.add (History.entry source))))

/-- Takes a line. -/
def feed (log : Log.Logger) (d : Dialogue) (line : Bytes) : Output × Except History Dialogue :=
  match probe d.pending line with
  | .more source => (.none, .ok { d with pending := source })
  | .done source => take log d.history source

/-- Goes on with typed lines, up to `:quit` or the end of input. -/
def run (log : Log.Logger) (d : Dialogue) : List Bytes → Output × History
  | [] => (⟨d.prompt ++ [Text.newline], []⟩, d.history)
  | line :: rest =>
    match d.feed log line with
    | (output, .error history) => (⟨d.prompt, []⟩ ++ output, history)
    | (output, .ok next) =>
      let (others, history) := next.run log rest
      (⟨d.prompt, []⟩ ++ output ++ others, history)

end Dialogue

end LetFn.Repl
