import LetFn.Command.Flag
import LetFn.Text.Utf8

/-!
# Commands and their names

The first word of a command line that is neither a flag nor a flag's value names the command. When
no command has that name, those with a similar one are suggested.
-/

namespace LetFn.Command

/-! ### Names -/

/-- What the program can be asked to do. -/
inductive Task where
  | fmt
  | parse
  | repl
  | tokens
  | version
  /-- To say how it is used. -/
  | help
  deriving DecidableEq, Repr

/-- The name of the program. -/
def program : Bytes := Text.utf8 "lumenc"

namespace Task

/-- The name of the task. -/
def name : Task → Bytes
  | fmt => Text.utf8 "fmt"
  | parse => Text.utf8 "parse"
  | repl => Text.utf8 "repl"
  | tokens => Text.utf8 "tokens"
  | version => Text.utf8 "version"
  | help => Text.utf8 "help"

/-- All tasks. -/
def all : List Task := [fmt, parse, repl, tokens, version, help]

/-- The word for which the shell's completion asks, which is answered with the usage. -/
def completion : Bytes := Text.utf8 "completion"

/-- The task with a name. -/
def named? (word : Bytes) : Option Task :=
  if word = completion then some help else all.find? (·.name == word)

/-- The flags of the task. -/
def flags : Task → List Flag
  | parse => Flag.common ++ [.help, .path, .format]
  | fmt => Flag.common ++ [.help, .check]
  | _ => Flag.common ++ [.help]

end Task

/-! ### Similar names -/

/-- One row of the table of edit distances: those of the beginnings of a word to one byte more of
another, given the row before. `left` is the entry to the left, `corner` the one above that. -/
def distanceRow (b : UInt8) (left corner : Nat) : List (UInt8 × Nat) → List (UInt8 × Nat)
  | [] => []
  | (c, above) :: rest =>
    let here := if b = c then corner else 1 + min corner (min left above)
    (c, here) :: distanceRow b here above rest

/-- How many bytes have to be added, taken away or replaced to make one word of the other. -/
def distance (s t : Bytes) : Nat :=
  let start := t.zipIdx.map fun (c, i) => (c, i + 1)
  let last := s.zipIdx.foldl (fun row (b, i) => distanceRow b (i + 1) i row) start
  (last.getLast?.map Prod.snd).getD s.length

/-- The names that can be suggested. -/
def suggestible : List Bytes :=
  [Task.fmt, .parse, .repl, .tokens, .version].map Task.name ++ [Task.completion]

/-- The greatest distance of names that are taken for similar. -/
def similarity : Nat := 2

/-- The names that a word may stand for: they begin with it or are similar to it. -/
def suggestions (word : Bytes) : List Bytes :=
  suggestible.filter fun name =>
    distance (Text.lower word) name ≤ similarity || (Text.lower word).isPrefixOf name

/-- What a question for the suggested names adds to a message. -/
def suggestionText (names : List Bytes) : Bytes :=
  if names.isEmpty then []
  else
    Text.utf8 "\n\nDid you mean this?\n" ++
      names.flatMap fun name => Text.utf8 "\t" ++ name ++ [Text.newline]

/-! ### Finding the task -/

/-- The word is a flag, of those every command has, whose value is the next word. All other flags
without a value of their own are taken for such, too. -/
def takesNext (word : Bytes) : Bool :=
  !word.contains Given.equals && word.head? == some Given.dash &&
    if word[1]? == some Given.dash then
      !(Flag.named? Flag.common (word.drop 2)).any Flag.isSwitch
    else word.length == 2 && !((word[1]?).bind (Flag.lettered? Flag.common)).any Flag.isSwitch

/-- The words that are neither flags nor values of flags. -/
def plainWords : List Bytes → List Bytes
  | [] => []
  | word :: rest =>
    if word == [Given.dash, Given.dash] then []
    else if takesNext word then
      match rest with
      | _ :: rest => plainWords rest
      | [] => []
    else if word.isEmpty || word.head? == some Given.dash then plainWords rest
    else word :: plainWords rest

/-- The words without the first one that is `name` and neither a flag nor the value of one. -/
def withoutName (name : Bytes) : List Bytes → List Bytes
  | [] => []
  | word :: rest =>
    if word == [Given.dash, Given.dash] then word :: rest
    else if takesNext word then
      match rest with
      | value :: rest => word :: value :: withoutName name rest
      | [] => [word]
    else if word == name then rest
    else word :: withoutName name rest

/-- The task that a command line names and the words that are left for it, or the word that names
none. Without a name the program is asked how it is used. -/
def findTask (words : List Bytes) : Except Bytes (Task × List Bytes) :=
  match plainWords words with
  | [] => .ok (.help, words)
  | word :: _ =>
    match Task.named? word with
    | some task => .ok (task, withoutName word words)
    | none => .error word

end LetFn.Command
