import LetFn.Location
import LetFn.Operator

/-!
# Syntax trees

A node is a module, a braced block of statements, a literal, a name with its type, a binary
expression or a function literal. A binding `let x = e;` is an expression whose operator is
`Operator.bind`, with the name on the left and the value on the right. Trees can be built by hand
as well as parsed, so a child may be missing, a function literal may have no body, and a node may
be of a kind this library does not know.
-/

namespace LetFn

/-- A name with its type, `name: type`. -/
structure TypedName where
  loc : Location
  name : Bytes
  type : Bytes
  deriving DecidableEq, Repr

/-- A syntax tree. -/
inductive Node where
  /-- The statements of a whole source. -/
  | module (loc : Location) (stmts : List Node)
  /-- Statements between braces. -/
  | block (loc : Location) (stmts : List Node)
  /-- An identifier or a number, as it is spelled. -/
  | literal (loc : Location) (value : Bytes)
  /-- A name with its type. -/
  | typed (name : TypedName)
  /-- `x op y`, or `let x = y` when the operator is `Operator.bind`. -/
  | expression (loc : Location) (op : Operator) (x y : Node)
  /-- `fn(params): ret` with the block `body` at `bodyLoc`. -/
  | lambda (loc : Location) (ret : Bytes) (params : List TypedName) (bodyLoc : Location)
      (body : List Node)
  /-- A function literal without a body. -/
  | bodiless (loc : Location) (ret : Bytes) (params : List TypedName)
  /-- No node at all. -/
  | missing
  /-- A node of a kind that is not known here; its type has a name all the same. -/
  | foreign (typeName : Bytes)
  deriving Repr

namespace Node

/-- Where the node begins; unknown for what is no node of this language. -/
def loc : Node → Location
  | module loc _ | block loc _ | literal loc _ | expression loc _ _ _ => loc
  | typed name => name.loc
  | lambda loc _ _ _ _ | bodiless loc _ _ => loc
  | missing | foreign _ => .unknown

/-- The statements of a module or block. -/
def stmts : Node → List Node
  | module _ stmts | block _ stmts => stmts
  | _ => []

/-- The name of the node's kind, if it is a kind of this language. -/
def kind? : Node → Option String
  | module _ _ => some "Module"
  | block _ _ => some "Block"
  | literal _ _ => some "Literal"
  | typed _ => some "TypedLiteral"
  | expression _ _ _ _ => some "Expression"
  | lambda _ _ _ _ _ | bodiless _ _ _ => some "Lambda"
  | missing | foreign _ => none

/-! ### Function literals without a body -/

mutual

/-- Every function literal in the tree has a body. -/
def isComplete : Node → Bool
  | module _ stmts | block _ stmts | lambda _ _ _ _ stmts => areComplete stmts
  | expression _ _ x y => x.isComplete && y.isComplete
  | bodiless _ _ _ => false
  | literal _ _ | typed _ | missing | foreign _ => true

/-- Every function literal in the trees has a body. -/
def areComplete : List Node → Bool
  | [] => true
  | n :: rest => n.isComplete && areComplete rest

end

end Node

end LetFn
