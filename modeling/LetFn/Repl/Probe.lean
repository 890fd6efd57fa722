import LetFn.Parse
import LetFn.Text.Utf8

/-!
# Reading input of several lines

A statement may go over several lines, so input is read until the parser has no reason to ask for
more. `probe` decides after each line, and `Reading.start` reads one input from the answers to its
prompts. Input that begins with a colon is a command and never goes on.
-/

namespace LetFn.Repl

/-! ### One line -/

/-- What comes of the lines read so far. -/
inductive Verdict where
  /-- The source ended too early: the next line belongs to it too. -/
  | more (source : Bytes)
  /-- The source is what it is. -/
  | done (source : Bytes)
  deriving DecidableEq, Repr

/-- The source with one more line. -/
def extend (pending line : Bytes) : Bytes :=
  if pending.isEmpty then line else pending ++ [Text.newline] ++ line

/-- The source begins with a colon, white space apart. -/
def isCommand (source : Bytes) : Bool := (Text.trim source).head? == some 0x3A

/-- The source ended too early. -/
def isIncomplete (source : Bytes) : Bool :=
  match parseText source with
  | .ok _ => false
  | .error f => f.cause.isIncomplete

/-- Decides about the lines read so far and one more. -/
def probe (pending line : Bytes) : Verdict :=
  let source := extend pending line
  if !isCommand source && isIncomplete source then .more source else .done source

/-! ### One input -/

/-- What is shown to ask for a line. -/
inductive Prompt where
  | first
  | further
  deriving DecidableEq, Repr

/-- The prompt as it is shown. -/
def Prompt.text : Prompt → Bytes
  | first => Text.utf8 "lumen> "
  | further => Text.utf8 "...... "

/-- The prompt for the line after the lines read so far. -/
def Prompt.after (pending : Bytes) : Prompt := if pending.isEmpty then first else further

/-- What a prompt is answered with; the end of input is the end of the answers. -/
inductive Answer where
  | line (text : Bytes)
  /-- The prompt was broken off. -/
  | interrupted
  deriving DecidableEq, Repr

/-- What reading one input came to. -/
structure Reading where
  /-- The prompts shown. -/
  prompts : List Prompt
  /-- The source read, empty after an interruption; none at the end of input. -/
  source : Option Bytes
  /-- The answers that are left. -/
  rest : List Answer

namespace Reading

/-- Reads on after the lines read so far. -/
def resume (pending : Bytes) : List Answer → Reading
  | [] => ⟨[.after pending], none, []⟩
  | .interrupted :: rest => ⟨[.after pending], some [], rest⟩
  | .line line :: rest =>
    match probe pending line with
    | .done source => ⟨[.after pending], some source, rest⟩
    | .more source =>
      let r := resume source rest
      { r with prompts := .after pending :: r.prompts }

/-- Reads one input. -/
def start (answers : List Answer) : Reading := resume [] answers

/-- Reading an input uses up an answer at least. -/
theorem length_rest_resume {pending source : Bytes} {answers : List Answer}
    (h : (resume pending answers).source = some source) :
    (resume pending answers).rest.length < answers.length := by
  induction answers generalizing pending with
  | nil => simp [resume] at h
  | cons a rest ih =>
    cases a with
    | interrupted => simp [resume]
    | line line =>
      cases hp : probe pending line with
      | done s => simp [resume, hp]
      | more s =>
        simp only [resume, hp] at h ⊢
        have := ih h
        simp only [List.length_cons]
        omega

/-- Reads input after input, up to the end of input. -/
def all (answers : List Answer) : List Reading :=
  match _h : (start answers).source with
  | none => [start answers]
  | some _ => start answers :: all (start answers).rest
termination_by answers.length
decreasing_by exact length_rest_resume _h

end Reading

end LetFn.Repl
