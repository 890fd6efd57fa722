import LetFn.Proofs.Node.Conservation

/-!
# Shapes and names

A tree is well formed if it has the shape of a module and if all its texts are names
(`isWellFormed_iff`). The shape says which kind of node stands where: bindings are statements and
bind a literal or a name with its type, operands are literals and arithmetic, functions have bodies.
It says nothing about how anything is spelled.
-/

namespace LetFn

namespace Node

/-- The texts of a tree in the order of the source: literals, names, types and return types. -/
def names (n : Node) : List Bytes := n.texts fun _ => false

/-- The texts of several trees. -/
def namesAll (ns : List Node) : List Bytes := textsAll (fun _ => false) ns

@[simp] theorem names_module (loc : Location) (stmts : List Node) :
    (module loc stmts).names = namesAll stmts := rfl

@[simp] theorem names_block (loc : Location) (stmts : List Node) :
    (block loc stmts).names = namesAll stmts := rfl

@[simp] theorem names_literal (loc : Location) (value : Bytes) :
    (literal loc value).names = [value] := rfl

@[simp] theorem names_typed (t : TypedName) : (typed t).names = t.texts := rfl

@[simp] theorem names_expression (loc : Location) (op : Operator) (x y : Node) :
    (expression loc op x y).names = x.names ++ y.names := rfl

@[simp] theorem names_lambda (loc bodyLoc : Location) (ret : Bytes) (params : List TypedName)
    (body : List Node) :
    (lambda loc ret params bodyLoc body).names =
      params.flatMap TypedName.texts ++ ret :: namesAll body := rfl

@[simp] theorem namesAll_nil : namesAll [] = [] := rfl

@[simp] theorem namesAll_cons (n : Node) (rest : List Node) :
    namesAll (n :: rest) = n.names ++ namesAll rest := rfl

/-! ## Shapes

Well-formedness asks for a shape and for names. The shape alone is stated here, with the same
recursion. -/

/-- Arithmetic over literals, however these are spelled. -/
def hasOperandShape : Node → Bool
  | literal _ _ => true
  | expression _ op x y => op.isArithmetic && x.hasOperandShape && y.hasOperandShape
  | _ => false

/-- A name with or without a type. -/
def hasBindableShape : Node → Bool
  | literal _ _ | typed _ => true
  | _ => false

mutual

/-- A block, a function with a body, or arithmetic. -/
def hasValueShape : Node → Bool
  | block _ stmts | lambda _ _ _ _ stmts => haveStatementShape stmts
  | n => n.hasOperandShape

/-- A binding of a name to a value. -/
def hasBindingShape : Node → Bool
  | expression _ op x y => op == .bind && x.hasBindableShape && y.hasValueShape
  | _ => false

/-- Bindings and values. -/
def haveStatementShape : List Node → Bool
  | [] => true
  | n :: rest => (n.hasBindingShape || n.hasValueShape) && haveStatementShape rest

end

/-- A module of bindings and values. -/
def hasShape : Node → Bool
  | module _ stmts => haveStatementShape stmts
  | _ => false

/-! ## Texts that are names -/

/-- Every text is a name. -/
def AreNames (texts : List Bytes) : Prop := ∀ s ∈ texts, Word.isName s = true

@[simp] theorem areNames_nil : AreNames [] ↔ True := by simp [AreNames]

@[simp] theorem areNames_cons {s : Bytes} {rest : List Bytes} :
    AreNames (s :: rest) ↔ Word.isName s = true ∧ AreNames rest := List.forall_mem_cons

@[simp] theorem areNames_append {ss ts : List Bytes} :
    AreNames (ss ++ ts) ↔ AreNames ss ∧ AreNames ts := List.forall_mem_append

theorem isNamed_iff {t : TypedName} : t.isNamed = true ↔ AreNames t.texts := by
  simp [TypedName.isNamed, TypedName.texts]

theorem all_isNamed_iff {params : List TypedName} :
    params.all TypedName.isNamed = true ↔ AreNames (params.flatMap TypedName.texts) := by
  induction params with
  | nil => simp
  | cons p rest ih => simp [isNamed_iff, ih]

theorem isOperand_iff : ∀ {x : Node},
    x.isOperand = true ↔ x.hasOperandShape = true ∧ AreNames x.names
  | literal _ value => by simp [isOperand, hasOperandShape]
  | expression _ op x y => by
    simp only [isOperand, hasOperandShape, Bool.and_eq_true, isOperand_iff (x := x),
      isOperand_iff (x := y), names_expression, areNames_append]
    grind
  | module _ _ | block _ _ | typed _ | lambda _ _ _ _ _ | bodiless _ _ _ | missing | foreign _ => by
    simp [isOperand, hasOperandShape]

theorem isBindable_iff {x : Node} :
    x.isBindable = true ↔ x.hasBindableShape = true ∧ AreNames x.names := by
  cases x <;> simp [isBindable, hasBindableShape, isNamed_iff]

mutual

theorem isValue_iff : ∀ {x : Node}, x.isValue = true ↔ x.hasValueShape = true ∧ AreNames x.names
  | block _ stmts => areStatements_iff
  | lambda _ ret params _ body => by
    simp only [isValue, hasValueShape, Bool.and_eq_true, all_isNamed_iff,
      @areStatements_iff body, names_lambda, areNames_append, areNames_cons]
    grind
  | expression loc op x y => isOperand_iff (x := expression loc op x y)
  | literal loc value => isOperand_iff (x := literal loc value)
  | module _ _ | typed _ | bodiless _ _ _ | missing | foreign _ => by
    simp [isValue, hasValueShape, isOperand, hasOperandShape]

theorem isBinding_iff : ∀ {x : Node},
    x.isBinding = true ↔ x.hasBindingShape = true ∧ AreNames x.names
  | expression _ op x y => by
    simp only [isBinding, hasBindingShape, Bool.and_eq_true, isBindable_iff (x := x),
      isValue_iff (x := y), names_expression, areNames_append]
    grind
  | module _ _ | block _ _ | literal _ _ | typed _ | lambda _ _ _ _ _ | bodiless _ _ _ | missing
  | foreign _ => by
    simp [isBinding, hasBindingShape]

theorem areStatements_iff : ∀ {stmts : List Node},
    areStatements stmts = true ↔ haveStatementShape stmts = true ∧ AreNames (namesAll stmts)
  | [] => by simp [areStatements, haveStatementShape]
  | n :: rest => by
    simp only [areStatements, haveStatementShape, Bool.and_eq_true, Bool.or_eq_true,
      isBinding_iff (x := n), isValue_iff (x := n), @areStatements_iff rest,
      namesAll_cons, areNames_append]
    grind

end

/-- To be well formed is to have the shape of a module and names for all texts. -/
theorem isWellFormed_iff {m : Node} :
    m.isWellFormed = true ↔ m.hasShape = true ∧ AreNames m.names := by
  cases m with
  | module loc stmts => exact areStatements_iff
  | _ => simp [isWellFormed, hasShape]

end Node

end LetFn
