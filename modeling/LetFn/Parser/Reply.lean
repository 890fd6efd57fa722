import LetFn.Token
import LetFn.Node

/-!
# What a production answers

A production of the grammar is a function on the tokens that are left. It either gives a value
and the tokens after it, of which there are fewer than a stated number, so that productions can
call each other without end in sight; or it says what it expected in front of which tokens. It
never takes the token it did not expect.
-/

namespace LetFn.Parser

/-- What the grammar requires where a source does not have it. -/
inductive Expected where
  | semicolon
  | assignment
  | openBrace
  | statement
  | expression
  | operand
  | closeParen
  | name
  | typeColon
  | typeName
  | openParen
  | returnColon
  | returnType
  | parameter
  | moreParameters
  deriving DecidableEq, Repr

/-- The requirement in words. -/
def Expected.text : Expected → Bytes
  | semicolon => Text.utf8 "semicolon"
  | assignment => Text.utf8 "assignment operator"
  | openBrace => Text.utf8 "opening curly brace"
  | statement => Text.utf8 "statement or closing curly brace"
  | expression => Text.utf8 "expression"
  | operand => Text.utf8 "literal, unary operator or opening parenthesis"
  | closeParen => Text.utf8 "closing parenthesis"
  | name => Text.utf8 "literal [name]"
  | typeColon => Text.utf8 "colon [type annotation]"
  | typeName => Text.utf8 "literal [type]"
  | openParen => Text.utf8 "opening parenthesis"
  | returnColon => Text.utf8 "colon [return type]"
  | returnType => Text.utf8 "literal [return type]"
  | parameter => Text.utf8 "parameter or closing parenthesis"
  | moreParameters => Text.utf8 "comma or closing parenthesis"

/-- A value, and the fewer than `n` tokens after it. -/
structure Parsed (α : Type) (n : Nat) where
  value : α
  rest : List Token
  shorter : rest.length < n

/-- What was expected in front of which tokens. -/
structure Failed where
  expected : Expected
  rest : List Token
  deriving DecidableEq, Repr

/-- The answer of a production to fewer than `n` tokens. -/
abbrev Reply (α : Type) (n : Nat) := Except Failed (Parsed α n)

/-- The same value, with a larger number of tokens allowed after it. -/
def Parsed.widen {α : Type} {m n : Nat} (p : Parsed α m) (h : m ≤ n) : Parsed α n :=
  ⟨p.value, p.rest, Nat.lt_of_lt_of_le p.shorter h⟩

/-- The value in front of `rest`. -/
def Parsed.before {α : Type} (value : α) (rest : List Token) : Parsed α (rest.length + 1) :=
  ⟨value, rest, Nat.lt_add_one _⟩

/-- What was parsed behind `p`, with a larger number of tokens allowed after it. -/
def Parsed.behind {α β : Type} {n : Nat} (p : Parsed α n) (next : Parsed β (p.rest.length + 1)) :
    Parsed β (n + 2) :=
  next.widen (by have := p.shorter; omega)

/-- The location of the token in front, unknown at the end. -/
def frontLoc : List Token → Location
  | [] => .unknown
  | token :: _ => token.loc

/-- Takes the operator `op`. -/
def want (op : Operator) (expected : Expected) (ts : List Token) : Reply Unit ts.length :=
  match ts with
  | ⟨.operator o, loc⟩ :: rest =>
    if o = op then .ok (.before () rest) else .error ⟨expected, ⟨.operator o, loc⟩ :: rest⟩
  | ts => .error ⟨expected, ts⟩

/-- Takes a literal. -/
def takeLiteral (expected : Expected) (ts : List Token) : Reply Bytes ts.length :=
  match ts with
  | ⟨.literal text, _⟩ :: rest => .ok (.before text rest)
  | ts => .error ⟨expected, ts⟩

end LetFn.Parser
