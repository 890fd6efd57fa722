import LetFn.Location
import LetFn.Operator
import LetFn.Snippet

/-!
# Tokens

Each snippet of a line becomes a word, the spelling of an operator or a literal of letters and
digits, and a word with its location is a token. A snippet that is neither, or a byte that is not
ASCII, makes the whole line bad: none of its tokens count.

* `Word.classify?` decides what a snippet is.
* `Token.ofLine` gives the tokens of one line.
* `Lexed.ofLines` gives the tokens of the lines before the first bad one, and its fault.
-/

namespace LetFn

/-- What a token says. -/
inductive Word where
  | literal (text : Bytes)
  | operator (op : Operator)
  deriving DecidableEq, Repr

namespace Word

/-- A text of letters and digits, at least one. -/
def isAlphanumeric (s : Bytes) : Bool := !s.isEmpty && s.all Category.isAlnum

/-- The word a snippet spells: operators first, then literals. -/
def classify? (snippet : Bytes) : Option Word :=
  match Operator.ofSpelling? snippet with
  | some op => some (.operator op)
  | none => if isAlphanumeric snippet then some (.literal snippet) else none

/-- The operator number that the word is filed under. -/
def op : Word → Operator
  | literal _ => .literal
  | operator o => o

/-- The text of a literal; an operator has none. -/
def literalText : Word → Bytes
  | literal s => s
  | operator _ => []

/-- The word is a literal. -/
def isLiteral (w : Word) : Bool := w.op == .literal

/-- The word is the operator `o`. -/
def isOperator (w : Word) (o : Operator) : Bool := o != .literal && w.op == o

/-- The word as messages show it. -/
def describe : Word → Bytes
  | literal s => Text.utf8 "literal " ++ Text.quote s
  | operator o => Text.quote o.spelling

/-- The word as source text spells it. -/
def spelling : Word → Bytes
  | literal s => s
  | operator o => o.spelling

end Word

/-- A word and where it stands. -/
structure Token where
  word : Word
  loc : Location
  deriving DecidableEq, Repr

/-! ### Faults -/

/-- Why a line cannot be made into tokens. -/
inductive LexicalCause where
  /-- The snippet is no word. -/
  | invalid (snippet : Bytes)
  /-- The line cannot be cut into snippets. -/
  | segment (fault : SegmentFault)
  deriving DecidableEq, Repr

/-- What the cause says. -/
def LexicalCause.message : LexicalCause → Bytes
  | .invalid snippet => Text.utf8 "invalid token: " ++ snippet
  | .segment fault => fault.message

/-- A cause and where it was met. -/
structure LexicalFault where
  cause : LexicalCause
  loc : Location
  deriving DecidableEq, Repr

/-! ### Lines -/

namespace Token

/-- The tokens of the snippets of line `line` from index `column` on, or the first snippet that
is no word. -/
def ofSnippets (line : UInt32) (column : Nat) : List Snippet → Except LexicalFault (List Token)
  | [] => .ok []
  | s :: rest =>
    let loc : Location := ⟨line, UInt32.ofNat column⟩
    match Word.classify? s.text with
    | none => .error ⟨.invalid s.text, loc⟩
    | some word => (ofSnippets line (column + 1) rest).map (⟨word, loc⟩ :: ·)

/-- The tokens of a line with the given number. -/
def ofLine (line : UInt32) (text : Bytes) : Except LexicalFault (List Token) :=
  let (snippets, fault) := Snippet.segment text
  match ofSnippets line 0 snippets, fault with
  | .error e, _ => .error e
  | .ok _, some f => .error ⟨.segment f, ⟨line, UInt32.ofNat snippets.length⟩⟩
  | .ok tokens, none => .ok tokens

end Token

/-- The tokens of some lines, up to the first bad one. -/
structure Lexed where
  tokens : List Token
  fault : Option LexicalFault
  deriving Repr

namespace Lexed

/-- The tokens of lines of which the first has the number `line`. -/
def ofLinesFrom (line : UInt32) : List Bytes → Lexed
  | [] => ⟨[], none⟩
  | text :: rest =>
    match Token.ofLine line text with
    | .error fault => ⟨[], some fault⟩
    | .ok tokens =>
      let after := ofLinesFrom (line + 1) rest
      ⟨tokens ++ after.tokens, after.fault⟩

/-- The tokens of lines numbered from 1. -/
def ofLines (lines : List Bytes) : Lexed := ofLinesFrom 1 lines

end Lexed

end LetFn
