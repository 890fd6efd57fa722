import LetFn.Session.Statement
import LetFn.Source

/-!
# Parsing sources

`parseLines` makes the lines of a source into a module, or says what is wrong and where. The
parser looks one token ahead and stops at the first token it did not expect, so it may never get
to a bad line; but when it runs out of tokens because of one, the bad line is what is reported.

`Session.parse` is the same parser on a stream, one token looked at and the rest not yet read. It
can be asked to parse again after an error, and goes on from the token it looks at.
-/

namespace LetFn

/-! ### Faults -/

/-- Why a source is no module. -/
inductive ParseCause where
  /-- A line cannot be made into tokens. -/
  | lexical (cause : LexicalCause)
  /-- Something else was expected instead of a word, or of the end of the source. -/
  | unexpected (expected : Parser.Expected) (found : Option Word)
  deriving DecidableEq, Repr

/-- A cause and where it was met. -/
structure ParseFault where
  cause : ParseCause
  loc : Location
  deriving DecidableEq, Repr

namespace ParseCause

/-- What the cause says, without its kind. -/
def message : ParseCause → Bytes
  | lexical cause => cause.message
  | unexpected expected found =>
    Text.utf8 "expected " ++ expected.text ++ Text.utf8 ", found " ++
      match found with
      | none => Text.utf8 "end of input"
      | some word => word.describe

/-- The source ended too early, and more of it could make up for that. -/
def isIncomplete : ParseCause → Bool
  | unexpected _ none => true
  | _ => false

end ParseCause

namespace ParseFault

/-- The fault of a bad line. -/
def ofLexical (f : LexicalFault) : ParseFault := ⟨.lexical f.cause, f.loc⟩

/-- The fault of a production, at the token it did not expect. -/
def ofFailed (f : Parser.Failed) : ParseFault :=
  ⟨.unexpected f.expected (f.rest.head?.map Token.word), Parser.frontLoc f.rest⟩

end ParseFault

/-! ### Whole sources -/

/-- The module that some tokens make up, given the fault that ended them. -/
def Lexed.parse (l : Lexed) : Except ParseFault Node :=
  match Parser.module l.tokens, l.fault with
  | .ok m, none => .ok m
  | .ok _, some fault => .error (.ofLexical fault)
  | .error e, none => .error (.ofFailed e)
  | .error e, some fault =>
    -- Without tokens left, it is the bad line that the parser ran into.
    if e.rest.isEmpty then .error (.ofLexical fault) else .error (.ofFailed e)

/-- Parsing asks for a token after the last line. -/
def Lexed.reachesEnd (l : Lexed) : Bool :=
  l.fault.isNone &&
    match Parser.module l.tokens with
    | .ok _ => true
    | .error e => e.rest.isEmpty

/-- The module that some lines make up. -/
def parseLines (lines : List Bytes) : Except ParseFault Node := (Lexed.ofLines lines).parse

/-- The module that the readable lines of a text make up. -/
def parseText (text : Bytes) : Except ParseFault Node := parseLines (Source.ofText text).lines

/-- The fault that parsing meets in the source itself: its reader fails only if the parser gets
to where the lines end. -/
def Source.metFault (s : Source) : Option ReadFault :=
  if (Lexed.ofLines s.lines).reachesEnd then s.fault else none

/-! ### Sessions -/

namespace Session

/-- What the session says when its stream has met a bad line or not: a bad line is what counts. -/
def verdict (s : Session) (result : Except ParseFault Node) : Except ParseFault Node :=
  match s.stream.fault with
  | some fault => .error (.ofLexical fault)
  | none => result

/-- The fault of a production, at the token that the session looks at. -/
def Halted.fault (e : Halted) : ParseFault :=
  ⟨.unexpected e.expected (e.session.front.map Token.word), e.session.loc⟩

/-- Parses what is ahead and stops behind it, or at the first unexpected token. -/
def parse (s : Session) : Except ParseFault Node × Session :=
  match s.module with
  | .ok m => (m.session.verdict (.ok m.value), m.session)
  | .error e => (e.session.verdict (.error e.fault), e.session)

end Session

end LetFn
