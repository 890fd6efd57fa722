import LetFn.Text.Bytes

/-!
# Operators

The language has sixteen operators: six arithmetic ones, the two keywords and eight punctuation
marks. An operator is numbered by one byte, so trees built by hand may hold numbers that no
operator has; number 0 marks a literal.
-/

namespace LetFn

/-- What an 8-bit operator number stands for. -/
inductive Operator where
  | literal
  | add | sub | mul | div | mod | pow
  | bind | fn
  | comma | colon | semicolon | assign
  | lparen | rparen | lcurl | rcurl
  /-- Number `17 + n`, which no operator has. -/
  | unnamed (n : Fin 239)
  deriving DecidableEq, Repr

namespace Operator

/-- The operator with the given number. -/
def ofCode (code : UInt8) : Operator :=
  match code.toNat with
  | 0 => literal
  | 1 => add | 2 => sub | 3 => mul | 4 => div | 5 => mod | 6 => pow
  | 7 => bind | 8 => fn
  | 9 => comma | 10 => colon | 11 => semicolon | 12 => assign
  | 13 => lparen | 14 => rparen | 15 => lcurl | 16 => rcurl
  | n => unnamed (Fin.ofNat 239 (n - 17))

/-- The number of an operator. -/
def code : Operator → UInt8
  | literal => 0
  | add => 1 | sub => 2 | mul => 3 | div => 4 | mod => 5 | pow => 6
  | bind => 7 | fn => 8
  | comma => 9 | colon => 10 | semicolon => 11 | assign => 12
  | lparen => 13 | rparen => 14 | lcurl => 15 | rcurl => 16
  | unnamed n => UInt8.ofNat (17 + n.val)

/-- How the operator is spelled in source text, and shown where source text has no spelling. -/
def spelling : Operator → Bytes
  | literal => Text.utf8 "LITERAL"
  | add => Text.utf8 "+"
  | sub => Text.utf8 "-"
  | mul => Text.utf8 "*"
  | div => Text.utf8 "/"
  | mod => Text.utf8 "%"
  | pow => Text.utf8 "**"
  | bind => Text.utf8 "let"
  | fn => Text.utf8 "fn"
  | comma => Text.utf8 ","
  | colon => Text.utf8 ":"
  | semicolon => Text.utf8 ";"
  | assign => Text.utf8 "="
  | lparen => Text.utf8 "("
  | rparen => Text.utf8 ")"
  | lcurl => Text.utf8 "\x7b"
  | rcurl => Text.utf8 "\x7d"
  | unnamed n => Text.utf8 "operator(" ++ Text.decimal (17 + n.val) ++ Text.utf8 ")"

/-- The sixteen operators that source text can spell. -/
def spelled : List Operator :=
  [add, sub, mul, div, mod, pow, bind, fn, comma, colon, semicolon, assign,
   lparen, rparen, lcurl, rcurl]

/-- The operator that source text spells `s`. -/
def ofSpelling? (s : Bytes) : Option Operator := spelled.find? (·.spelling == s)

/-- `let` and `fn` are words of the language, so no name may be one. -/
def isKeyword (op : Operator) : Bool := op == bind || op == fn

/-- How strongly a binary operator binds: 1 for sums, 2 for products, 3 for powers, and 0 for
everything that is no binary operator. -/
def precedence : Operator → Nat
  | add | sub => 1
  | mul | div | mod => 2
  | pow => 3
  | _ => 0

/-- The six binary operators of arithmetic. -/
def isArithmetic : Operator → Bool
  | add | sub | mul | div | mod | pow => true
  | _ => false

end Operator

/-- There are operators without a name, so numbers can stand for them. -/
instance neZero_unnamed : @NeZero Nat Zero.ofOfNat0 239 := Nat.instNeZeroSucc

end LetFn
