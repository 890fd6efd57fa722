import LetFn.Proofs.Parser.Completeness
import LetFn.Proofs.Parser.Soundness

/-!
# Climbing and layers

Arithmetic can be parsed in two ways. `Parser.binary` climbs: one loop for all operators, which goes
on while they bind tighter than a number. The grammar suggests another way, one production for each
layer of operators, and a loop in each:

    arith  := term (('+' | '-') term)*
    term   := factor (('*' | '/' | '%') factor)*
    factor := atom ('**' atom)*
    atom   := literal | '-' atom | '+' atom | '(' arith ')'

`Layered` is that parser. Chains fold to the left, and a chain stands where it begins. The two ways
always come to the same outcome, failures and the tokens left included (`binary_eq_layered`). What
carries the proof is that climbing to a bound is climbing to the next bound and then going through
the operators in between (`climb_eq_further`).
-/

namespace LetFn

open Grammar (Layer)

/-- The operators between the operands of a chain. -/
def Grammar.Layer.operators : Layer → List Operator
  | .arith => [.add, .sub]
  | .term => [.mul, .div, .mod]
  | .factor => [.pow]
  | .atom => []

namespace Parser

/-! ## One production for each layer

A chain takes an operand of the next tighter layer and goes on as long as an operator of its own
layer follows; each node gets the location of the first token of its chain. -/

namespace Layered

mutual

/-- `literal | '-' atom | '+' atom | '(' arith ')'`. -/
def atom (ts : List Token) : Reply Node ts.length :=
  match ts with
  | ⟨.literal text, loc⟩ :: rest => .ok (.before (.literal loc text) rest)
  | ⟨.operator .sub, loc⟩ :: rest =>
    match atom rest with
    | .error e => .error e
    | .ok x =>
      .ok ⟨.expression loc .sub (.literal loc (Text.utf8 "0")) x.value, x.rest, by
        have := x.shorter; simp; omega⟩
  | ⟨.operator .add, _⟩ :: rest =>
    match atom rest with
    | .error e => .error e
    | .ok x => .ok (x.widen (by simp))
  | ⟨.operator .lparen, _⟩ :: rest =>
    match chain .arith rest with
    | .error e => .error e
    | .ok x =>
      match want .rparen .closeParen x.rest with
      | .error e => .error e
      | .ok close => .ok ⟨x.value, close.rest, by
          have := x.shorter; have := close.shorter; simp; omega⟩
  | ts => .error ⟨.operand, ts⟩
termination_by 9 * ts.length

/-- What the operators of the layer stand between. -/
def operand (l : Layer) (ts : List Token) : Reply Node ts.length :=
  match l with
  | .arith => chain .term ts
  | .term => chain .factor ts
  | .factor | .atom => atom ts
termination_by 9 * ts.length + 2 * (3 - l.bound) + 1
decreasing_by all_goals (simp only [Layer.bound]; omega)

/-- `operand (operator operand)*`. -/
def chain (l : Layer) (ts : List Token) : Reply Node ts.length :=
  match operand l ts with
  | .error e => .error e
  | .ok x =>
    match further l (frontLoc ts) x.value x.rest with
    | .error e => .error e
    | .ok y => .ok (y.widen x.shorter)
termination_by 9 * ts.length + 2 * (3 - l.bound) + 2
decreasing_by
  · omega
  · have := x.shorter; omega

/-- `(operator operand)*` behind `x`, which begins at `loc`. -/
def further (l : Layer) (loc : Location) (x : Node) (ts : List Token) :
    Reply Node (ts.length + 1) :=
  match ts with
  | ⟨.operator op, opLoc⟩ :: rest =>
    if op ∈ l.operators then
      match operand l rest with
      | .error e => .error e
      | .ok y =>
        match further l loc (.expression loc op x y.value) y.rest with
        | .error e => .error e
        | .ok z => .ok (y.behind z)
    else .ok (.before x (⟨.operator op, opLoc⟩ :: rest))
  | ts => .ok (.before x ts)
termination_by 9 * ts.length
decreasing_by
  · simp; omega
  · have := y.shorter; simp; omega

end

/-- A sum. -/
def arith (ts : List Token) : Reply Node ts.length := chain .arith ts

/-- A product. -/
def term (ts : List Token) : Reply Node ts.length := chain .term ts

/-- A power. -/
def factor (ts : List Token) : Reply Node ts.length := chain .factor ts

/-! ### What each production does to the tokens -/

theorem outcome_atom_literal (text : Bytes) (loc : Location) (rest : List Token) :
    (atom (⟨.literal text, loc⟩ :: rest)).outcome = .ok (.literal loc text, rest) := by
  rw [atom]
  rfl

theorem outcome_atom_minus (loc : Location) (rest : List Token) :
    (atom (⟨.operator .sub, loc⟩ :: rest)).outcome =
      (atom rest).outcome.andThen fun x left =>
        .ok (.expression loc .sub (.literal loc (Text.utf8 "0")) x, left) := by
  rw [atom]
  cases atom rest <;> rfl

theorem outcome_atom_plus (loc : Location) (rest : List Token) :
    (atom (⟨.operator .add, loc⟩ :: rest)).outcome = (atom rest).outcome := by
  rw [atom]
  cases atom rest <;> rfl

theorem outcome_atom_parens (loc : Location) (rest : List Token) :
    (atom (⟨.operator .lparen, loc⟩ :: rest)).outcome =
      (chain .arith rest).outcome.andThen fun x left =>
        (want .rparen .closeParen left).outcome.andThen fun _ left => .ok (x, left) := by
  rw [atom]
  rcases chain .arith rest with e | x
  · rfl
  · simp only [Reply.outcome_ok, Outcome.andThen_ok]
    cases want .rparen .closeParen x.rest <;> rfl

theorem outcome_atom_other {ts : List Token}
    (h : ∀ token ∈ ts.head?, opensOperand token.word = false) :
    (atom ts).outcome = .error ⟨.operand, ts⟩ := by
  rw [atom.eq_def]
  split
  · exact absurd (h _ rfl) (by simp [opensOperand])
  · exact absurd (h _ rfl) (by simp [opensOperand])
  · exact absurd (h _ rfl) (by simp [opensOperand])
  · exact absurd (h _ rfl) (by simp [opensOperand])
  · rfl

theorem outcome_chain (l : Layer) (ts : List Token) :
    (chain l ts).outcome =
      (operand l ts).outcome.andThen fun x left => (further l (frontLoc ts) x left).outcome := by
  rw [chain]
  rcases operand l ts with e | x
  · rfl
  · simp only [Reply.outcome_ok, Outcome.andThen_ok]
    cases further l (frontLoc ts) x.value x.rest <;> rfl

theorem outcome_further_operator {l : Layer} {op : Operator} (h : op ∈ l.operators)
    (loc opLoc : Location) (x : Node) (rest : List Token) :
    (further l loc x (⟨.operator op, opLoc⟩ :: rest)).outcome =
      (operand l rest).outcome.andThen fun y left =>
        (further l loc (.expression loc op x y) left).outcome := by
  rw [further, if_pos h]
  rcases operand l rest with e | y
  · rfl
  · simp only [Reply.outcome_ok, Outcome.andThen_ok]
    cases further l loc (.expression loc op x y.value) y.rest <;> rfl

theorem outcome_further_stop {l : Layer} {ts : List Token}
    (h : ∀ token ∈ ts.head?, token.word.op ∉ l.operators) (loc : Location) (x : Node) :
    (further l loc x ts).outcome = .ok (x, ts) := by
  rw [further.eq_def]
  split
  · next op opLoc rest =>
    have hop : op ∉ l.operators := h _ rfl
    rw [if_neg hop]
    rfl
  · rfl

end Layered

/-! ## Both ways

The two parsers are compared production by production, on fewer and fewer tokens. -/

open Layered

/-- The operators of a layer are those that bind tighter than its bound, but no tighter than the
next. -/
theorem mem_operators_iff {l : Layer} {op : Operator} :
    op ∈ l.operators ↔ op.precedence = l.bound + 1 := by
  cases l <;> cases op <;> simp [Layer.operators, Layer.bound, Operator.precedence]

theorem outcome_further_of_front {l : Layer} {ts : List Token}
    (h : frontPrecedence ts ≠ l.bound + 1) (loc : Location) (x : Node) :
    (further l loc x ts).outcome = .ok (x, ts) := by
  apply outcome_further_stop
  rintro token htoken hop
  obtain ⟨rest, rfl⟩ := List.head?_eq_some_iff.mp htoken
  exact h (mem_operators_iff.mp hop)

theorem Outcome.andThen_congr {α β : Type} {o : Outcome α} {f g : α → List Token → Outcome β}
    (h : ∀ x left, o = .ok (x, left) → f x left = g x left) : o.andThen f = o.andThen g := by
  rcases o with e | ⟨x, left⟩
  · rfl
  · exact h x left rfl

mutual

theorem atom_eq_layered (ts : List Token) : (Parser.atom ts).outcome = (Layered.atom ts).outcome := by
  rcases operand_or_other ts with
    ⟨text, loc, rest, rfl⟩ | ⟨loc, rest, rfl⟩ | ⟨loc, rest, rfl⟩ | ⟨loc, rest, rfl⟩ | hother
  · rw [Parser.outcome_atom_literal, Layered.outcome_atom_literal]
  · rw [Parser.outcome_atom_minus, Layered.outcome_atom_minus, atom_eq_layered rest]
  · rw [Parser.outcome_atom_plus, Layered.outcome_atom_plus, atom_eq_layered rest]
  · rw [Parser.outcome_atom_parens, Layered.outcome_atom_parens, ← binary_eq_chain .arith rest]
    rfl
  · rw [Parser.outcome_atom_other hother, Layered.outcome_atom_other hother]
termination_by 9 * ts.length
decreasing_by all_goals (subst_vars; simp only [List.length_cons, Layer.bound]; omega)

/-- The operands of a layer are what is parsed under the next bound. -/
theorem binary_eq_operand (l : Layer) (ts : List Token) :
    (binary (l.bound + 1) ts).outcome = (operand l ts).outcome := by
  rw [operand.eq_def]
  cases l with
  | arith => exact binary_eq_chain .term ts
  | term => exact binary_eq_chain .factor ts
  | factor => exact (outcome_binary_atom (Nat.le_refl 3) ts).trans (atom_eq_layered ts)
  | atom => exact (outcome_binary_atom (Nat.le_succ 3) ts).trans (atom_eq_layered ts)
termination_by 9 * ts.length + 2 * (3 - l.bound) + 1
decreasing_by all_goals (simp only [Layer.bound]; omega)

/-- Climbing with the bound of a layer reads a chain of that layer. -/
theorem binary_eq_chain (l : Layer) (ts : List Token) :
    (binary l.bound ts).outcome = (chain l ts).outcome := by
  rw [outcome_chain, ← binary_eq_operand l ts, outcome_binary, outcome_binary, Outcome.andThen_assoc]
  apply Outcome.andThen_congr
  intro x left hx
  have hlt := Reply.length_lt_of_outcome hx
  exact climb_eq_further l (frontLoc ts) x left
termination_by 9 * ts.length + 2 * (3 - l.bound) + 2

/-- Climbing to the bound of a layer is climbing to the next one, and then going on with the
operators of the layer. -/
theorem climb_eq_further (l : Layer) (loc : Location) (x : Node) (ts : List Token) :
    (climb l.bound loc x ts).outcome =
      (climb (l.bound + 1) loc x ts).outcome.andThen fun y left =>
        (further l loc y left).outcome := by
  rcases tighter_or_stop l.bound ts with ⟨op, opLoc, rest, rfl, hop⟩ | hstop
  -- An operator that binds tighter than the layer is climbed in both; one of the layer ends
  -- climbing to the next bound.
  · rcases Nat.lt_or_eq_of_le (Nat.succ_le_of_lt hop) with htighter | hlayer
    · rw [outcome_climb_operator hop, outcome_climb_operator htighter, Outcome.andThen_assoc]
      apply Outcome.andThen_congr
      intro y left hy
      have hlt := Reply.length_lt_of_outcome hy
      exact climb_eq_further l loc (.expression loc op x y) left
    · have hmem : op ∈ l.operators := mem_operators_iff.mpr hlayer.symm
      have hstop : frontPrecedence (⟨.operator op, opLoc⟩ :: rest) ≤ l.bound + 1 :=
        Nat.le_of_eq hlayer.symm
      rw [outcome_climb_operator hop, outcome_climb_stop hstop, Outcome.andThen_ok,
        outcome_further_operator hmem, ← hlayer, binary_eq_operand l rest]
      apply Outcome.andThen_congr
      intro y left hy
      have hlt := Reply.length_lt_of_outcome hy
      -- What follows an operand binds no tighter than `op`, so it is not climbed to the next bound.
      have hfront : frontPrecedence left ≤ l.bound + 1 := by
        rw [← binary_eq_operand l rest] at hy
        exact frontPrecedence_of_binary hy
      rw [climb_eq_further l loc (.expression loc op x y) left, outcome_climb_stop hfront,
        Outcome.andThen_ok]
  · rw [outcome_climb_stop hstop, outcome_climb_stop (Nat.le_succ_of_le hstop), Outcome.andThen_ok,
      outcome_further_of_front (by omega)]
termination_by 9 * ts.length
decreasing_by all_goals (subst_vars; simp only [List.length_cons]; omega)

end

/-- Climbing above nothing, above sums and above products comes to the same as the productions for
sums, products and powers: the same tree in front of the same tokens, locations included, or the
same expectation in front of the same tokens. -/
theorem binary_eq_layered (ts : List Token) :
    (binary 0 ts).outcome = (arith ts).outcome ∧
      (binary 1 ts).outcome = (term ts).outcome ∧
      (binary 2 ts).outcome = (factor ts).outcome :=
  ⟨binary_eq_chain .arith ts, binary_eq_chain .term ts, binary_eq_chain .factor ts⟩

end Parser

end LetFn
