import LetFn.Node
import LetFn.Category

/-!
# Canonical source text

`format` writes a tree as source text. It is made of steps: words, blanks, line ends and
indentation. A word that would run into the byte before it, because the two are of one category,
gets a blank in front, so the words of the text are the words that were written. Parentheses stand
only where precedence or left associativity asks for them.
-/

namespace LetFn

/-- A step of writing source text. -/
inductive Step where
  /-- The text of a token. -/
  | word (text : Bytes)
  | space
  | newline
  /-- Four blanks for each level. -/
  | indent (levels : Nat)
  deriving DecidableEq, Repr

namespace Step

/-- The byte would run into the text written so far, which is held last byte first. -/
def merges (written : Bytes) (b : UInt8) : Bool :=
  match written with
  | [] => false
  | last :: _ => !Category.isBlank last && Category.of last == Category.of b

/-- The text written so far, last byte first, after one more step. -/
def append (written : Bytes) : Step → Bytes
  | word [] => written
  | word (b :: text) =>
    let written := if merges written b then Text.blank :: written else written
    (b :: text).reverseAux written
  | space => Text.blank :: written
  | newline => Text.newline :: written
  | indent levels => Text.blanks (4 * levels) ++ written

/-- The text that some steps write. -/
def write (steps : List Step) : Bytes := (steps.foldl append []).reverse

/-- A word of the language. -/
def mark (op : Operator) : Step := word op.spelling

end Step

namespace Node

open Step (word mark space newline)

/-- The steps of a name with its type. -/
def typedSteps (t : TypedName) : List Step := [word t.name, mark .colon, space, word t.type]

/-- The steps of parameters. -/
def paramSteps : List TypedName → List Step
  | [] => []
  | [p] => typedSteps p
  | p :: rest => typedSteps p ++ [mark .comma, space] ++ paramSteps rest

/-- The steps of a function literal before its body. -/
def headerSteps (ret : Bytes) (params : List TypedName) : List Step :=
  [mark .fn, mark .lparen] ++ paramSteps params ++
    [mark .rparen, mark .colon, space, word ret, space]

/-- The steps of a block whose statements have the given steps. -/
def blockSteps (level : Nat) (stmts : List Step) : List Step :=
  [mark .lcurl, newline] ++ stmts ++ [.indent level, mark .rcurl]

/-- An operand needs parentheses when it is arithmetic that binds more loosely than the operator
beside it, or, on the right, as loosely. -/
def needsParens (prec : Nat) (right : Bool) : Node → Bool
  | expression _ op _ _ =>
    op.isArithmetic && (op.precedence < prec || right && op.precedence == prec)
  | _ => false

/-- The steps between parentheses, if they are needed. -/
def parenthesized (needed : Bool) (steps : List Step) : List Step :=
  if needed then [mark .lparen] ++ steps ++ [mark .rparen] else steps

mutual

/-- The steps of a node inside statements of the given level. -/
def exprSteps (level : Nat) : Node → List Step
  | literal _ value => [word value]
  | typed name => typedSteps name
  | expression _ op x y =>
    if op = .bind then
      [mark .bind, space] ++ exprSteps level x ++ [space, mark .assign, space] ++ exprSteps level y
    else
      parenthesized (x.needsParens op.precedence false) (exprSteps level x) ++
        [space, mark op, space] ++
        parenthesized (y.needsParens op.precedence true) (exprSteps level y)
  | lambda _ ret params _ body =>
    headerSteps ret params ++ blockSteps level (stmtSteps (level + 1) body)
  | bodiless _ ret params => headerSteps ret params
  | block _ stmts => blockSteps level (stmtSteps (level + 1) stmts)
  | module _ _ | missing | foreign _ => []

/-- The steps of statements of the given level. -/
def stmtSteps (level : Nat) : List Node → List Step
  | [] => []
  | n :: rest =>
    [.indent level] ++ exprSteps level n ++ [mark .semicolon, newline] ++ stmtSteps level rest

end

/-- The steps of a whole tree. -/
def steps : Node → List Step
  | module _ stmts => stmtSteps 0 stmts
  | block loc stmts => exprSteps 0 (block loc stmts) ++ [newline]
  | n => exprSteps 0 n

/-- The canonical source text of a tree. -/
def format (n : Node) : Bytes := Step.write n.steps

/-! ### Function literals without a body

Only what is written has to have a body: a module inside another node is not. -/

mutual

/-- Every function literal that `exprSteps` meets has a body. -/
def isWritable : Node → Bool
  | block _ stmts | lambda _ _ _ _ stmts => areWritable stmts
  | expression _ _ x y => x.isWritable && y.isWritable
  | bodiless _ _ _ => false
  | module _ _ | literal _ _ | typed _ | missing | foreign _ => true

/-- Every function literal that `stmtSteps` meets has a body. -/
def areWritable : List Node → Bool
  | [] => true
  | n :: rest => n.isWritable && areWritable rest

end

/-- The canonical source text of a tree whose written function literals have bodies; others have
none. -/
def format? (n : Node) : Option Bytes :=
  let writable :=
    match n with
    | module _ stmts => areWritable stmts
    | n => n.isWritable
  if writable then some n.format else none

end Node

end LetFn
