import LetFn.Proofs.Grammar
import LetFn.Proofs.Node.Erasure
import LetFn.Proofs.Token.Reading

/-!
# Trees that source text can stand for

A tree can be built by hand in ways that no source has: a name may be a keyword, a block may be an
operand, a binding may stand where a value should. `isWellFormed` checks that none of this is so.
What the grammar derives from words that a source can spell is well formed, so every tree that was
parsed is, whatever its locations.
-/

namespace LetFn

/-- The name and the type are names. -/
def TypedName.isNamed (t : TypedName) : Bool := Word.isName t.name && Word.isName t.type

namespace Node

/-- Arithmetic over literals. -/
def isOperand : Node → Bool
  | literal _ value => Word.isName value
  | expression _ op x y => op.isArithmetic && x.isOperand && y.isOperand
  | _ => false

/-- What a binding can bind: a name with or without a type. -/
def isBindable : Node → Bool
  | literal _ name => Word.isName name
  | typed t => t.isNamed
  | _ => false

mutual

/-- A block or a function of well-formed statements, or arithmetic. -/
def isValue : Node → Bool
  | block _ stmts => areStatements stmts
  | lambda _ ret params _ body =>
    Word.isName ret && params.all TypedName.isNamed && areStatements body
  | n => n.isOperand

/-- A binding of a name to a value. -/
def isBinding : Node → Bool
  | expression _ op x y => op == .bind && x.isBindable && y.isValue
  | _ => false

/-- Bindings and values. -/
def areStatements : List Node → Bool
  | [] => true
  | n :: rest => (n.isBinding || n.isValue) && areStatements rest

end

/-- A module of bindings and values. -/
def isWellFormed : Node → Bool
  | module _ stmts => areStatements stmts
  | _ => false

/-- Arithmetic is a value. -/
theorem isValue_of_isOperand {x : Node} (h : x.isOperand = true) : x.isValue = true := by
  cases x <;> simp_all [isOperand, isValue]

/-! ## Locations do not matter

The checks look at names, operators and kinds only. -/

/-- Parameters keep their names when locations are forgotten. -/
theorem all_isNamed_erase (params : List TypedName) :
    (params.map TypedName.erase).all TypedName.isNamed = params.all TypedName.isNamed := by
  rw [List.all_map]
  rfl

/-- Arithmetic stays arithmetic. -/
theorem isOperand_erase : ∀ x : Node, x.erase.isOperand = x.isOperand
  | expression _ op x y => by
    rw [erase_expression, isOperand, isOperand, isOperand_erase x, isOperand_erase y]
  | module _ _ | block _ _ | literal _ _ | typed _ | lambda _ _ _ _ _ | bodiless _ _ _ | missing
  | foreign _ => rfl

/-- What can be bound stays so. -/
theorem isBindable_erase (x : Node) : x.erase.isBindable = x.isBindable := by
  cases x <;> rfl

mutual

/-- Values stay values. -/
theorem isValue_erase : ∀ x : Node, x.erase.isValue = x.isValue
  | block _ stmts => areStatements_eraseAll stmts
  | lambda _ ret params _ body => by
    rw [erase_lambda, isValue, isValue, all_isNamed_erase, areStatements_eraseAll body]
  | expression loc op x y => isOperand_erase (expression loc op x y)
  | module _ _ | literal _ _ | typed _ | bodiless _ _ _ | missing | foreign _ => rfl

/-- Bindings stay bindings. -/
theorem isBinding_erase : ∀ x : Node, x.erase.isBinding = x.isBinding
  | expression _ op x y => by
    rw [erase_expression, isBinding, isBinding, isBindable_erase, isValue_erase y]
  | module _ _ | block _ _ | literal _ _ | typed _ | lambda _ _ _ _ _ | bodiless _ _ _ | missing
  | foreign _ => rfl

/-- Statements stay statements. -/
theorem areStatements_eraseAll : ∀ stmts : List Node,
    areStatements (eraseAll stmts) = areStatements stmts
  | [] => rfl
  | n :: rest => by
    rw [eraseAll_cons, areStatements, areStatements, isBinding_erase n, isValue_erase n,
      areStatements_eraseAll rest]

end

/-- Whether a module is well formed does not depend on its locations. -/
theorem isWellFormed_erase (m : Node) : m.erase.isWellFormed = m.isWellFormed := by
  cases m with
  | module loc stmts => exact areStatements_eraseAll stmts
  | _ => rfl

/-! ## Kinds

Each check lists the kinds it lets through, and the kinds of no name are not among them. -/

/-- Arithmetic is of known kinds only. -/
theorem isKnown_of_isOperand : ∀ {x : Node}, x.isOperand = true → x.isKnown = true
  | literal _ _, _ => rfl
  | expression _ op x y, h => by
    simp only [isOperand, Bool.and_eq_true] at h
    rw [isKnown, isKnown_of_isOperand h.1.2, isKnown_of_isOperand h.2]
    rfl

/-- What can be bound is of a known kind. -/
theorem isKnown_of_isBindable {x : Node} (h : x.isBindable = true) : x.isKnown = true := by
  cases x <;> simp_all [isBindable, isKnown]

mutual

/-- Values are of known kinds only. -/
theorem isKnown_of_isValue : ∀ {x : Node}, x.isValue = true → x.isKnown = true
  | block _ stmts, h => areKnown_of_areStatements h
  | lambda _ ret params _ body, h => by
    simp only [isValue, Bool.and_eq_true] at h
    exact areKnown_of_areStatements h.2
  | expression loc op x y, h => isKnown_of_isOperand (x := expression loc op x y) h
  | literal _ _, _ => rfl

/-- Bindings are of known kinds only. -/
theorem isKnown_of_isBinding : ∀ {x : Node}, x.isBinding = true → x.isKnown = true
  | expression _ op x y, h => by
    simp only [isBinding, Bool.and_eq_true] at h
    rw [isKnown, isKnown_of_isBindable h.1.2, isKnown_of_isValue h.2]
    rfl

/-- Well-formed trees are of known kinds only. -/
theorem areKnown_of_areStatements : ∀ {stmts : List Node}, areStatements stmts = true →
    areKnown stmts = true
  | [], _ => rfl
  | n :: rest, h => by
    simp only [areStatements, Bool.and_eq_true, Bool.or_eq_true] at h
    have hn : n.isKnown = true := by
      rcases h.1 with hbinding | hvalue
      · exact isKnown_of_isBinding hbinding
      · exact isKnown_of_isValue hvalue
    rw [areKnown, hn, areKnown_of_areStatements h.2]
    rfl

end

/-- Well-formed modules are of known kinds only. -/
theorem isKnown_of_isWellFormed {m : Node} (h : m.isWellFormed = true) : m.isKnown = true := by
  cases m with
  | module loc stmts => exact areKnown_of_areStatements h
  | _ => cases h

end Node

/-! ## Derived trees

By induction on the derivation. A name is a name because some source spells it: only then is it no
keyword and made of letters and digits. -/

namespace Grammar

open Node

/-- Two operands around an operator are arithmetic, if their words can be spelled. -/
theorem isOperand_of_chain {us vs : List Word} {x y : Node} {op : Operator}
    (hop : op.isArithmetic = true) (hx : Lexical us → x.isOperand = true)
    (hy : Lexical vs → y.isOperand = true) (hws : Lexical (us ++ .operator op :: vs)) :
    (expression .unknown op x y).isOperand = true := by
  obtain ⟨hus, hvs⟩ := Lexical.append.mp hws
  rw [isOperand, hop, hx hus, hy (Lexical.cons.mp hvs).2]
  rfl

/-- What a layer of the chain derives is arithmetic, with the zero that a minus sign stands for. -/
theorem isOperand_of_arith {l : Layer} {ws : List Word} {x : Node} (h : Arith l ws x) :
    Lexical ws → x.isOperand = true := by
  induction h with
  | term _ ih | factor _ ih | atom _ ih => exact ih
  | sum _ hop _ ihx ihy =>
    have harith : ∀ op ∈ [Operator.add, .sub], op.isArithmetic = true := by decide
    exact isOperand_of_chain (harith _ hop) ihx ihy
  | product _ hop _ ihx ihy =>
    have harith : ∀ op ∈ [Operator.mul, .div, .mod], op.isArithmetic = true := by decide
    exact isOperand_of_chain (harith _ hop) ihx ihy
  | power _ _ ihx ihy => exact isOperand_of_chain rfl ihx ihy
  | literal text =>
    intro hws
    exact (Lexical.literal.mp hws).1
  | minus _ ih =>
    intro hws
    rw [isOperand, ih (Lexical.cons.mp hws).2]
    decide
  | plus _ ih =>
    intro hws
    exact ih (Lexical.cons.mp hws).2
  | parens _ ih =>
    intro hws
    exact ih (Lexical.cons.mp (Lexical.append.mp hws).1).2

/-- A name with its type, from words that can be spelled. -/
theorem isNamed_of_typedLiteral {ws : List Word} {t : TypedName} (h : TypedLiteral ws t)
    (hws : Lexical ws) : t.isNamed = true := by
  obtain ⟨name, type⟩ := h
  obtain ⟨hname, hrest⟩ := Lexical.literal.mp hws
  obtain ⟨htype, -⟩ := Lexical.literal.mp (Lexical.cons.mp hrest).2
  rw [TypedName.isNamed, hname, htype]
  rfl

/-- What a binding binds, from words that can be spelled. -/
theorem isBindable_of_bindingName {ws : List Word} {x : Node} (h : BindingName ws x)
    (hws : Lexical ws) : x.isBindable = true := by
  cases h with
  | plain name => exact (Lexical.literal.mp hws).1
  | typed h => exact isNamed_of_typedLiteral h hws

/-- Parameters one by one, from words that can be spelled. -/
theorem all_isNamed_of_paramList {ws : List Word} {params : List TypedName}
    (h : ParamList ws params) : Lexical ws → params.all TypedName.isNamed = true := by
  induction h with
  | last h =>
    intro hws
    rw [List.all_cons, isNamed_of_typedLiteral h hws]
    rfl
  | cons h _ ih =>
    intro hws
    obtain ⟨hus, hvs⟩ := Lexical.append.mp hws
    rw [List.all_cons, isNamed_of_typedLiteral h hus, ih (Lexical.cons.mp hvs).2]
    rfl

/-- Parameters or none. -/
theorem all_isNamed_of_params {ws : List Word} {params : List TypedName} (h : Params ws params)
    (hws : Lexical ws) : params.all TypedName.isNamed = true := by
  cases h with
  | none => rfl
  | some h => exact all_isNamed_of_paramList h hws

mutual

/-- What an expression derives is a value. -/
theorem isValue_of_expression : ∀ {ws : List Word} {x : Node}, Expression ws x → Lexical ws →
    x.isValue = true
  | _, _, .block h, hws => areStatements_of_block h hws
  | _, _, .lambda h, hws => isValue_of_lambda h hws
  | _, _, .arith h, hws => isValue_of_isOperand (isOperand_of_arith h hws)

/-- A function has named parameters, a named type and statements for a body. -/
theorem isValue_of_lambda : ∀ {ws : List Word} {x : Node}, Lambda ws x → Lexical ws →
    x.isValue = true
  | _, _, .mk ret hparams hbody, hws => by
    -- The words are `fn`, `(`, the parameters, `)`, `:`, the type and the body.
    obtain ⟨hhead, hrest⟩ := Lexical.append.mp hws
    have hus := (Lexical.cons.mp (Lexical.cons.mp hhead).2).2
    obtain ⟨hret, hvs⟩ := Lexical.literal.mp (Lexical.cons.mp (Lexical.cons.mp hrest).2).2
    rw [isValue, hret, all_isNamed_of_params hparams hus, areStatements_of_block hbody hvs]
    rfl

/-- A block holds statements. -/
theorem areStatements_of_block : ∀ {ws : List Word} {stmts : List Node}, Block ws stmts →
    Lexical ws → areStatements stmts = true
  | _, _, .mk h, hws =>
    areStatements_of_statements h (Lexical.cons.mp (Lexical.append.mp hws).1).2

/-- A binding binds a name to a value. -/
theorem isBinding_of_assignment : ∀ {ws : List Word} {x : Node}, Assignment ws x → Lexical ws →
    x.isBinding = true
  | _, _, .mk hname hvalue, hws => by
    obtain ⟨hhead, hrest⟩ := Lexical.append.mp hws
    rw [isBinding, isBindable_of_bindingName hname (Lexical.cons.mp hhead).2,
      isValue_of_expression hvalue (Lexical.cons.mp hrest).2]
    rfl

/-- A statement is a binding or a value. -/
theorem isStatement_of_statement : ∀ {ws : List Word} {x : Node}, Statement ws x → Lexical ws →
    (x.isBinding || x.isValue) = true
  | _, _, .assignment h, hws => by
    rw [isBinding_of_assignment h (Lexical.append.mp hws).1]
    rfl
  | _, _, .expression h, hws => by
    rw [isValue_of_expression h (Lexical.append.mp hws).1]
    exact Bool.or_true _

/-- Statements one by one. -/
theorem areStatements_of_statements : ∀ {ws : List Word} {stmts : List Node}, Statements ws stmts →
    Lexical ws → areStatements stmts = true
  | _, _, .nil, _ => rfl
  | _, _, .cons hx hmore, hws => by
    obtain ⟨hus, hvs⟩ := Lexical.append.mp hws
    rw [areStatements, isStatement_of_statement hx hus, areStatements_of_statements hmore hvs]
    rfl

end

/-- The tree of words that a source can spell is well formed. -/
theorem isWellFormed_of_module {ws : List Word} {t : Node} (h : Module ws t) (hws : Lexical ws) :
    t.isWellFormed = true := by
  obtain ⟨h⟩ := h
  exact areStatements_of_statements h hws

end Grammar

end LetFn
