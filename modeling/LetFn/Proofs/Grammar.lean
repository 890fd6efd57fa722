import LetFn.Token
import LetFn.Node

/-!
# The grammar

Which words make up a module, and which tree they stand for, said without any parser:

    Module       := Statement*
    Statement    := Assignment ';' | Expression ';'
    Assignment   := 'let' (Literal | TypedLiteral) '=' Expression
    Expression   := Block | Lambda | ArithExpr
    ArithExpr    := Term (('+' | '-') Term)*
    Term         := Factor (('*' | '/' | '%') Factor)*
    Factor       := Atom ('**' Atom)*
    Atom         := Literal | '-' Atom | '+' Atom | '(' ArithExpr ')'
    TypedLiteral := Literal ':' Literal
    Block        := '{' Statement* '}'
    Lambda       := 'fn' '(' ParamList? ')' ':' Literal Block
    ParamList    := TypedLiteral (',' TypedLiteral)*

Each rule is a constructor. The chains `X (op X)*` fold to the left, so their rules are left
recursive: a chain is an operand, or a chain, an operator and an operand. A minus sign is a
subtraction from `0`, a plus sign and parentheses leave no trace, and no tree has a location.
-/

namespace LetFn.Grammar

/-- The layers of arithmetic, loosest first. -/
inductive Layer where
  | arith | term | factor | atom
  deriving DecidableEq, Repr

/-- Words that make up arithmetic of some layer, and their tree. -/
inductive Arith : Layer → List Word → Node → Prop
  | term {ws : List Word} {x : Node} : Arith .term ws x → Arith .arith ws x
  | sum {us vs : List Word} {x y : Node} {op : Operator} : Arith .arith us x →
      op ∈ [Operator.add, .sub] → Arith .term vs y →
      Arith .arith (us ++ .operator op :: vs) (.expression .unknown op x y)
  | factor {ws : List Word} {x : Node} : Arith .factor ws x → Arith .term ws x
  | product {us vs : List Word} {x y : Node} {op : Operator} : Arith .term us x →
      op ∈ [Operator.mul, .div, .mod] → Arith .factor vs y →
      Arith .term (us ++ .operator op :: vs) (.expression .unknown op x y)
  | atom {ws : List Word} {x : Node} : Arith .atom ws x → Arith .factor ws x
  | power {us vs : List Word} {x y : Node} : Arith .factor us x → Arith .atom vs y →
      Arith .factor (us ++ .operator .pow :: vs) (.expression .unknown .pow x y)
  | literal (text : Bytes) : Arith .atom [.literal text] (.literal .unknown text)
  | minus {ws : List Word} {x : Node} : Arith .atom ws x →
      Arith .atom (.operator .sub :: ws)
        (.expression .unknown .sub (.literal .unknown (Text.utf8 "0")) x)
  | plus {ws : List Word} {x : Node} : Arith .atom ws x → Arith .atom (.operator .add :: ws) x
  | parens {ws : List Word} {x : Node} : Arith .arith ws x →
      Arith .atom (.operator .lparen :: ws ++ [.operator .rparen]) x

/-- A name with its type. -/
inductive TypedLiteral : List Word → TypedName → Prop
  | mk (name type : Bytes) :
      TypedLiteral [.literal name, .operator .colon, .literal type] ⟨.unknown, name, type⟩

/-- What a binding binds: a name with or without a type. -/
inductive BindingName : List Word → Node → Prop
  | plain (name : Bytes) : BindingName [.literal name] (.literal .unknown name)
  | typed {ws : List Word} {t : TypedName} : TypedLiteral ws t → BindingName ws (.typed t)

/-- One parameter or more. -/
inductive ParamList : List Word → List TypedName → Prop
  | last {ws : List Word} {t : TypedName} : TypedLiteral ws t → ParamList ws [t]
  | cons {us vs : List Word} {t : TypedName} {params : List TypedName} : TypedLiteral us t →
      ParamList vs params → ParamList (us ++ .operator .comma :: vs) (t :: params)

/-- What stands between the parentheses of a function literal: parameters or nothing. -/
inductive Params : List Word → List TypedName → Prop
  | none : Params [] []
  | some {ws : List Word} {params : List TypedName} : ParamList ws params → Params ws params

mutual

/-- A block, a function literal or arithmetic. -/
inductive Expression : List Word → Node → Prop
  | block {ws : List Word} {stmts : List Node} : Block ws stmts →
      Expression ws (.block .unknown stmts)
  | lambda {ws : List Word} {x : Node} : Lambda ws x → Expression ws x
  | arith {ws : List Word} {x : Node} : Arith .arith ws x → Expression ws x

/-- A function literal. -/
inductive Lambda : List Word → Node → Prop
  | mk {us vs : List Word} {params : List TypedName} {body : List Node} (ret : Bytes) :
      Params us params → Block vs body →
      Lambda (.operator .fn :: .operator .lparen :: us ++
          .operator .rparen :: .operator .colon :: .literal ret :: vs)
        (.lambda .unknown ret params .unknown body)

/-- Statements between braces. -/
inductive Block : List Word → List Node → Prop
  | mk {ws : List Word} {stmts : List Node} : Statements ws stmts →
      Block (.operator .lcurl :: ws ++ [.operator .rcurl]) stmts

/-- A binding without its semicolon. -/
inductive Assignment : List Word → Node → Prop
  | mk {us vs : List Word} {x y : Node} : BindingName us x → Expression vs y →
      Assignment (.operator .bind :: us ++ .operator .assign :: vs)
        (.expression .unknown .bind x y)

/-- A binding or an expression, and its semicolon. -/
inductive Statement : List Word → Node → Prop
  | assignment {ws : List Word} {x : Node} : Assignment ws x →
      Statement (ws ++ [.operator .semicolon]) x
  | expression {ws : List Word} {x : Node} : Expression ws x →
      Statement (ws ++ [.operator .semicolon]) x

/-- Any number of statements. -/
inductive Statements : List Word → List Node → Prop
  | nil : Statements [] []
  | cons {us vs : List Word} {x : Node} {stmts : List Node} : Statement us x →
      Statements vs stmts → Statements (us ++ vs) (x :: stmts)

end

/-- The words of a whole source, and its tree. -/
inductive Module : List Word → Node → Prop
  | mk {ws : List Word} {stmts : List Node} : Statements ws stmts →
      Module ws (.module .unknown stmts)

/-- The words can be continued to make up a module. -/
def Viable (ws : List Word) : Prop := ∃ more t, Module (ws ++ more) t

/-! ## Layers by precedence

A layer is a chain of operators that all bind tighter than some number, its bound. Read from the
bounds, a chain of layer `above n` may use the operators of precedence `n + 1`, between operands of
layer `above (n + 1)`. -/

/-- The operators of the layer, and of those further in, bind tighter than this. -/
def Layer.bound : Layer → Nat
  | arith => 0
  | term => 1
  | factor => 2
  | atom => 3

/-- The layer of the operators that bind tighter than `n`. -/
def Layer.above : Nat → Layer
  | 0 => arith
  | 1 => term
  | 2 => factor
  | _ => atom

namespace Arith

variable {ws us vs : List Word} {x y : Node}

/-- An operand of a chain is a chain. -/
theorem loosen {n : Nat} (h : Arith (.above (n + 1)) ws x) : Arith (.above n) ws x := by
  match n with
  | 0 => exact .term h
  | 1 => exact .factor h
  | 2 => exact .atom h
  | _ + 3 => exact h

theorem loosen_le {m n : Nat} (hmn : m ≤ n) (h : Arith (.above n) ws x) :
    Arith (.above m) ws x := by
  induction hmn with
  | refl => exact h
  | step _ ih => exact ih h.loosen

/-- A chain, an operator of its layer and an operand are a chain. -/
theorem chain {n : Nat} {op : Operator} (hop : op.precedence = n + 1)
    (hx : Arith (.above n) us x) (hy : Arith (.above (n + 1)) vs y) :
    Arith (.above n) (us ++ .operator op :: vs) (.expression .unknown op x y) := by
  cases op <;> cases hop
  case add => exact .sum hx (by simp) hy
  case sub => exact .sum hx (by simp) hy
  case mul => exact .product hx (by simp) hy
  case div => exact .product hx (by simp) hy
  case mod => exact .product hx (by simp) hy
  case pow => exact .power hx hy

end Arith

end LetFn.Grammar
