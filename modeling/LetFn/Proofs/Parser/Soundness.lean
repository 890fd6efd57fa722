import LetFn.Proofs.Grammar
import LetFn.Proofs.Node.Erasure
import LetFn.Proofs.Parser.Outcome
import LetFn.Proofs.Token.Reading

/-!
# Productions follow the grammar

`Follows A ts o` relates what a production did to the tokens `ts`, its outcome `o`, with the rule
`A` of the grammar that it stands for. If it gave a value, the words it took have that value. If it
failed, the words it took can still be completed to something the rule derives, with words that a
source can spell: the production took nothing that could not be right.

Both halves pass along chains of productions (`Follows.andThen`). For the half about failures every
rule further down the chain must derive something at all, which is what `Productive` says.
-/

namespace LetFn.Parser

open Grammar

variable {α β : Type}

/-- Which words have which values. -/
abbrev Rule (α : Type) := List Word → α → Prop

namespace Rule

/-- The words can be completed to some that have a value. -/
def Completes (A : Rule α) (ws : List Word) : Prop :=
  ∃ more x, Lexical more ∧ A (ws ++ more) x

/-- Some words that a source can spell have a value. -/
def Productive (A : Rule α) : Prop := A.Completes []

/-- The value `x` of no words. -/
def value (x : α) : Rule α := fun ws y => ws = [] ∧ y = x

/-- One operator. -/
def operator (op : Operator) : Rule Unit := fun ws _ => ws = [.operator op]

/-- One literal, with its text as value. -/
def literal : Rule Bytes := fun ws text => ws = [.literal text]

/-- One rule after the other; the second may depend on what the first derived. -/
def andThen (A : Rule α) (B : List Word → α → Rule β) : Rule β :=
  fun ws y => ∃ us vs x, ws = us ++ vs ∧ A us x ∧ B us x vs y

theorem productive_value (x : α) : (value x).Productive := ⟨[], x, by simp, rfl, rfl⟩

/-- A lexical operator can always be written. -/
theorem productive_operator {op : Operator} (hop : op ∈ Operator.spelled) :
    (operator op).Productive :=
  ⟨[.operator op], (), Lexical.operator hop, rfl⟩

theorem productive_literal : literal.Productive :=
  ⟨[.literal (Text.utf8 "0")], _, by decide, rfl⟩

/-- A chain can be completed if its first link can, and the second can whatever the first gave. -/
theorem productive_andThen {A : Rule α} {B : List Word → α → Rule β} (hA : A.Productive)
    (hB : ∀ us x, A us x → (B us x).Productive) : (andThen A B).Productive := by
  obtain ⟨us, x, hus, hx⟩ := hA
  obtain ⟨vs, y, hvs, hy⟩ := hB us x hx
  exact ⟨us ++ vs, y, Lexical.append.mpr ⟨hus, hvs⟩, us, vs, x, rfl, hx, hy⟩

end Rule

open Rule

/-- The outcome is right by the rule: a value is that of the words taken, and after a failure the
words taken can be completed. -/
def Follows (A : Rule α) (ts : List Token) : Outcome α → Prop
  | .ok (x, left) => ∃ taken, ts = taken ++ left ∧ A (taken.map Token.word) x
  | .error e => ∃ taken, ts = taken ++ e.rest ∧ A.Completes (taken.map Token.word)

namespace Follows

/-! ## Rules

A rule says which words have which trees. Following rules is kept by taking one thing behind
another, so that each production below is put together from its parts. -/

theorem pure {A : Rule α} {x : α} {ts : List Token} (h : A [] x) : Follows A ts (.ok (x, ts)) :=
  ⟨[], rfl, h⟩

/-- A failure that took nothing follows the rule if anything does. -/
theorem stop {A : Rule α} {expected : Expected} {ts : List Token} (h : A.Productive) :
    Follows A ts (.error ⟨expected, ts⟩) :=
  ⟨[], rfl, h⟩

/-- To follow a rule is to follow every wider one. -/
theorem mono {A B : Rule α} {ts : List Token} {o : Outcome α} (h : Follows A ts o)
    (hAB : ∀ ws x, A ws x → B ws x) : Follows B ts o := by
  rcases o with e | ⟨x, left⟩
  · obtain ⟨taken, hts, more, x, hmore, hx⟩ := h
    exact ⟨taken, hts, more, x, hmore, hAB _ _ hx⟩
  · obtain ⟨taken, hts, hx⟩ := h
    exact ⟨taken, hts, hAB _ _ hx⟩

/-- A production that takes the token in front and goes on. -/
theorem cons {A B : Rule α} {token : Token} {rest : List Token} {o : Outcome α}
    (h : Follows A rest o) (hAB : ∀ ws x, A ws x → B (token.word :: ws) x) :
    Follows B (token :: rest) o := by
  rcases o with e | ⟨x, left⟩
  · obtain ⟨taken, hrest, more, x, hmore, hx⟩ := h
    exact ⟨token :: taken, by rw [hrest]; rfl, more, x, hmore, hAB _ _ hx⟩
  · obtain ⟨taken, hrest, hx⟩ := h
    exact ⟨token :: taken, by rw [hrest]; rfl, hAB _ _ hx⟩

/-- The words of a chain are those of its links in a row, and where a link fails, the links that
were still to come complete it. -/
theorem andThen {A : Rule α} {B : List Word → α → Rule β} {ts : List Token} {o : Outcome α}
    {f : α → List Token → Outcome β} (h : Follows A ts o)
    (hf : ∀ x left ws, o = .ok (x, left) → A ws x → Follows (B ws x) left (f x left))
    (hB : ∀ ws x, A ws x → (B ws x).Productive) : Follows (A.andThen B) ts (o.andThen f) := by
  rcases o with e | ⟨x, left⟩
  · obtain ⟨taken, hts, more, x, hmore, hx⟩ := h
    obtain ⟨vs, y, hvs, hy⟩ := hB _ x hx
    exact ⟨taken, hts, more ++ vs, y, Lexical.append.mpr ⟨hmore, hvs⟩, _, vs, x,
      by rw [List.append_assoc], hx, hy⟩
  · obtain ⟨taken, hts, hx⟩ := h
    have hnext := hf x left _ rfl hx
    rw [Outcome.andThen_ok]
    generalize f x left = next at hnext ⊢
    rcases next with e | ⟨y, rest⟩
    · obtain ⟨more, hleft, extra, y, hextra, hy⟩ := hnext
      refine ⟨taken ++ more, by rw [hts, hleft, List.append_assoc], extra, y, hextra, ?_⟩
      exact ⟨_, _, x, by rw [List.map_append, List.append_assoc], hx, hy⟩
    · obtain ⟨more, hleft, hy⟩ := hnext
      refine ⟨taken ++ more, by rw [hts, hleft, List.append_assoc], ?_⟩
      exact ⟨_, _, x, List.map_append, hx, hy⟩

end Follows

open Follows

/-! ## Single tokens

The smallest rules; to close something is to take a mark that carries no tree. -/

/-- Wanting an operator follows the rule of that operator. -/
theorem follows_want {op : Operator} (hop : op ∈ Operator.spelled) (expected : Expected)
    (ts : List Token) : Follows (operator op) ts (want op expected ts).outcome := by
  rcases operator_or_other op ts with ⟨loc, rest, rfl⟩ | hother
  · rw [outcome_want_operator]
    exact ⟨[⟨.operator op, loc⟩], rfl, rfl⟩
  · rw [outcome_want_other expected hother]
    exact stop (productive_operator hop)

/-- The value `x`, closed by an operator. -/
def closed (op : Operator) (x : α) : Rule α := fun ws y => ws = [.operator op] ∧ y = x

theorem productive_closed {op : Operator} (hop : op ∈ Operator.spelled) (x : α) :
    (closed op x).Productive :=
  ⟨[.operator op], x, Lexical.operator hop, rfl, rfl⟩

/-- Wanting an operator behind a value closes the value. -/
theorem follows_closed {op : Operator} (hop : op ∈ Operator.spelled) (expected : Expected) (x : α)
    (ts : List Token) :
    Follows (closed op x) ts
      ((want op expected ts).outcome.andThen fun _ left => .ok (x, left)) := by
  refine mono (andThen (follows_want hop expected ts) (fun _ _ _ _ _ => pure ⟨rfl, rfl⟩)
    fun _ _ _ => productive_value x) ?_
  rintro _ _ ⟨_, _, _, rfl, rfl, rfl, rfl⟩
  exact ⟨rfl, rfl⟩

/-- Taking a literal follows the rule of literals. -/
theorem follows_takeLiteral (expected : Expected) (ts : List Token) :
    Follows literal ts (takeLiteral expected ts).outcome := by
  rcases literal_or_other ts with ⟨text, loc, rest, rfl⟩ | hother
  · exact ⟨[⟨.literal text, loc⟩], rfl, rfl⟩
  · rw [outcome_takeLiteral_other expected hother]
    exact stop productive_literal

/-! ## Arithmetic

Climbing follows the rule for the layer of its bound. The left operand is what has been taken so
far, so it goes into the rule as a parameter. -/

/-- Arithmetic of a layer, locations aside. -/
def arithRule (l : Layer) : Rule Node := fun ws x => Arith l ws x.erase

/-- There is arithmetic of every level: a literal. -/
theorem productive_arithRule (n : Nat) : (arithRule (.above n)).Productive := by
  refine ⟨[.literal (Text.utf8 "0")], .literal .unknown (Text.utf8 "0"), by decide, ?_⟩
  have hatom : Arith (.above (n + 3)) [.literal (Text.utf8 "0")]
      (.literal .unknown (Text.utf8 "0")) := .literal _
  exact hatom.loosen_le (by omega)

/-- Climbing stops in front of an operator that binds no tighter than its bound. -/
theorem frontPrecedence_of_climb {prec : Nat} {loc : Location} {x z : Node} {ts left : List Token}
    (h : (climb prec loc x ts).outcome = .ok (z, left)) : frontPrecedence left ≤ prec := by
  rcases tighter_or_stop prec ts with ⟨op, opLoc, rest, rfl, hop⟩ | hstop
  · rw [outcome_climb_operator hop] at h
    rcases hy : (binary op.precedence rest).outcome with e | ⟨y, next⟩
    · rw [hy] at h
      cases h
    · rw [hy, Outcome.andThen_ok] at h
      have hlt := Reply.length_lt_of_outcome hy
      exact frontPrecedence_of_climb h
  · rw [outcome_climb_stop hstop] at h
    cases h
    exact hstop
termination_by ts.length
decreasing_by subst_vars; simp only [List.length_cons]; omega

/-- What a binary expression leaves does not begin with an operator that binds tighter. -/
theorem frontPrecedence_of_binary {prec : Nat} {x : Node} {ts left : List Token}
    (h : (binary prec ts).outcome = .ok (x, left)) : frontPrecedence left ≤ prec := by
  rw [outcome_binary] at h
  rcases hy : (atom ts).outcome with e | ⟨y, next⟩
  · rw [hy] at h
    cases h
  · rw [hy, Outcome.andThen_ok] at h
    exact frontPrecedence_of_climb h

/-- `x`, the tree of the words `us`, can be the left operand of the operator in front, if climbing
takes that one at all. -/
def Climbable (prec : Nat) (us : List Word) (x : Node) (ts : List Token) : Prop :=
  ∃ n, prec ≤ n ∧ frontPrecedence ts ≤ n + 1 ∧ Arith (.above n) us x.erase

mutual

/-- What `atom` takes derives its value as an operand, by cases on how an operand can begin. -/
theorem follows_atom (ts : List Token) : Follows (arithRule .atom) ts (atom ts).outcome := by
  rcases operand_or_other ts with
    ⟨text, loc, rest, rfl⟩ | ⟨loc, rest, rfl⟩ | ⟨loc, rest, rfl⟩ | ⟨loc, rest, rfl⟩ | hother
  · rw [outcome_atom_literal]
    exact ⟨[⟨.literal text, loc⟩], rfl, .literal text⟩
  · rw [outcome_atom_minus]
    refine cons (andThen (follows_atom rest) (fun x left _ _ _ => pure ⟨rfl, rfl⟩)
      fun _ _ _ => productive_value _) ?_
    rintro _ _ ⟨us, _, x, rfl, hx, rfl, rfl⟩
    rw [List.append_nil]
    exact .minus hx
  · rw [outcome_atom_plus]
    exact cons (follows_atom rest) fun ws x hx => .plus hx
  · rw [outcome_atom_parens]
    refine cons (andThen (follows_binary 0 rest)
      (fun x left _ _ _ => follows_closed (by decide) .closeParen x left)
      fun _ _ _ => productive_closed (by decide) _) ?_
    rintro _ _ ⟨us, _, x, rfl, hx, rfl, rfl⟩
    exact .parens hx
  · rw [outcome_atom_other hother]
    exact stop (productive_arithRule 3)
termination_by 2 * ts.length

/-- What `binary` takes derives its value as arithmetic of the level. -/
theorem follows_binary (prec : Nat) (ts : List Token) :
    Follows (arithRule (.above prec)) ts (binary prec ts).outcome := by
  rw [outcome_binary]
  refine mono (andThen (B := fun us _ ws z => Arith (.above prec) (us ++ ws) z.erase)
    (follows_atom ts) ?_ ?_) ?_
  · intro x left us hx hus
    have hlt := Reply.length_lt_of_outcome hx
    refine follows_climb prec us (frontLoc ts) x left ⟨prec + 3, by omega, ?_, hus⟩
    have hle := frontPrecedence_le left
    omega
  · intro us x hus
    refine ⟨[], x, by simp, ?_⟩
    have hatom : Arith (.above (prec + 3)) us x.erase := hus
    simpa using hatom.loosen_le (by omega)
  · rintro _ z ⟨us, ws, x, rfl, -, hz⟩
    exact hz
termination_by 2 * ts.length + 1

/-- What `climb` takes goes on from the words of its left operand. The value is a derivation from
both. -/
theorem follows_climb (prec : Nat) (us : List Word) (loc : Location) (x : Node) (ts : List Token)
    (hx : Climbable prec us x ts) :
    Follows (fun ws z => Arith (.above prec) (us ++ ws) z.erase) ts
      (climb prec loc x ts).outcome := by
  obtain ⟨n, hn, hfront, hx⟩ := hx
  rcases tighter_or_stop prec ts with ⟨op, opLoc, rest, rfl, hop⟩ | hstop
  · obtain ⟨m, hm⟩ : ∃ m, op.precedence = m + 1 := ⟨op.precedence - 1, by omega⟩
    have hmn : m ≤ n := by
      simp only [frontPrecedence, Word.op] at hfront
      omega
    -- The operand `y` binds tighter than `op`, so the two operands and `op` are a chain of the
    -- layer of `op`, and what stands in front of it does not bind tighter than `op` either.
    have hchain : ∀ vs y, arithRule (.above op.precedence) vs y →
        Arith (.above m) (us ++ .operator op :: vs) (Node.expression loc op x y).erase := by
      intro vs y hy
      rw [arithRule, hm] at hy
      exact .chain hm (hx.loosen_le hmn) hy
    rw [outcome_climb_operator hop]
    refine cons (andThen
      (B := fun vs _ ws z => Arith (.above prec) (us ++ .operator op :: vs ++ ws) z.erase)
      (follows_binary op.precedence rest) ?_ ?_) ?_
    · intro y left vs hy hvs
      have hlt := Reply.length_lt_of_outcome hy
      have hleft := frontPrecedence_of_binary hy
      exact follows_climb prec (us ++ .operator op :: vs) loc (.expression loc op x y) left
        ⟨m, by omega, by omega, hchain vs y hvs⟩
    · intro vs y hvs
      have hloose := (hchain vs y hvs).loosen_le (show prec ≤ m by omega)
      exact ⟨[], .expression loc op x y, by simp, by simpa using hloose⟩
    · rintro _ z ⟨vs, ws, y, rfl, -, hz⟩
      simpa using hz
  · rw [outcome_climb_stop hstop]
    exact pure (by simpa using hx.loosen_le hn)
termination_by 2 * ts.length
decreasing_by all_goals (subst_vars; simp only [List.length_cons]; omega)

end

/-! ## Names and parameters

Lists of parameters may end in front of the comma or the parenthesis, and types may be missing: each
way is a case of the rule. -/

/-- A colon and a type, or nothing. -/
def typeRule : Rule (Option Bytes)
  | ws, none => ws = []
  | ws, some type => ws = [.operator .colon, .literal type]

/-- What is taken for a type is a colon and a literal, or nothing. -/
theorem follows_typePart (ts : List Token) : Follows typeRule ts (typePart ts) := by
  rcases operator_or_other .colon ts with ⟨loc, rest, rfl⟩ | hother
  · rw [typePart]
    refine cons (andThen (follows_takeLiteral .typeName rest)
      (fun type left _ _ _ => pure ⟨rfl, rfl⟩) fun _ _ _ => productive_value _) ?_
    rintro _ _ ⟨_, _, type, rfl, rfl, rfl, rfl⟩
    rfl
  · rw [typePart_other hother]
    exact pure rfl

/-- What is taken for the name of a binding is one. -/
theorem follows_bindingName (ts : List Token) :
    Follows (fun ws x => BindingName ws x.erase) ts (bindingName ts).outcome := by
  rw [outcome_bindingName]
  refine mono (andThen (follows_takeLiteral .name ts) (fun name left _ _ _ =>
    andThen (follows_typePart left) (fun type left _ _ _ => pure ⟨rfl, rfl⟩)
      fun _ _ _ => productive_value _) ?_) ?_
  · intro _ name _
    exact productive_andThen ⟨[], none, by simp, rfl⟩ fun _ _ _ => productive_value _
  · rintro _ _ ⟨_, _, name, rfl, rfl, _, _, type, rfl, htype, rfl, rfl⟩
    cases type with
    | none =>
      cases htype
      exact .plain name
    | some type =>
      cases htype
      exact .typed (.mk name type)

/-- A parameter, its location aside. -/
def parameterRule : Rule TypedName := fun ws t => TypedLiteral ws t.erase

/-- What is taken for a parameter is one. -/
theorem follows_parameter (ts : List Token) :
    Follows parameterRule ts (parameter ts).outcome := by
  rw [outcome_parameter]
  refine mono (andThen (follows_takeLiteral .name ts) (fun name left _ _ _ =>
    andThen (follows_want (by decide) .typeColon left) (fun _ left _ _ _ =>
      andThen (follows_takeLiteral .typeName left) (fun type left _ _ _ => pure ⟨rfl, rfl⟩)
        fun _ _ _ => productive_value _) ?_) ?_) ?_
  · intro _ _ _
    exact productive_andThen productive_literal fun _ _ _ => productive_value _
  · intro _ _ _
    exact productive_andThen (productive_operator (by decide)) fun _ _ _ =>
      productive_andThen productive_literal fun _ _ _ => productive_value _
  · rintro _ _ ⟨_, _, name, rfl, rfl, _, _, _, rfl, rfl, _, _, type, rfl, rfl, rfl, rfl⟩
    exact .mk name type

/-- Parameters and the parenthesis after them. -/
def parametersRule : Rule (List TypedName) := fun ws params =>
  ∃ us, ws = us ++ [.operator .rparen] ∧ ParamList us (params.map TypedName.erase)

/-- What may follow the parameter `t` of the words `us`. -/
def furtherRule (us : List Word) (t : TypedName) : Rule (List TypedName) := fun ws params =>
  parametersRule (us ++ ws) (t :: params)

/-- A closing parenthesis ends the parameters behind any one of them. -/
theorem furtherRule_nil {us : List Word} {t : TypedName} (ht : parameterRule us t) :
    furtherRule us t [.operator .rparen] [] :=
  ⟨us, rfl, .last ht⟩

mutual

/-- What is taken for parameters are parameters with their closing parenthesis. -/
theorem follows_parameters (ts : List Token) :
    Follows parametersRule ts (parameters ts).outcome := by
  rw [outcome_parameters]
  refine mono (andThen
    (B := fun us t ws params => ∃ more, params = t :: more ∧ furtherRule us t ws more)
    (follows_parameter ts) ?_ ?_) ?_
  · intro t left us ht hus
    have hlt := Reply.length_lt_of_outcome ht
    refine mono (andThen (follows_furtherParameters hus left) (fun more left _ _ _ =>
      pure ⟨rfl, rfl⟩) fun _ _ _ => productive_value _) ?_
    rintro _ _ ⟨ws, _, more, rfl, hmore, rfl, rfl⟩
    rw [List.append_nil]
    exact ⟨more, rfl, hmore⟩
  · intro us t ht
    exact ⟨[.operator .rparen], [t], by decide, [], rfl, furtherRule_nil ht⟩
  · rintro _ _ ⟨us, ws, t, rfl, -, more, rfl, hmore⟩
    exact hmore
termination_by 2 * ts.length

/-- What is taken behind a parameter goes on with the list. -/
theorem follows_furtherParameters {us : List Word} {t : TypedName} (ht : parameterRule us t)
    (ts : List Token) : Follows (furtherRule us t) ts (furtherParameters ts) := by
  rcases operator_or_other .comma ts with ⟨loc, rest, rfl⟩ | hother
  · rw [furtherParameters]
    refine cons (follows_parameters rest) ?_
    rintro _ params ⟨vs, rfl, hparams⟩
    exact ⟨us ++ .operator .comma :: vs, by simp, .cons ht hparams⟩
  · rw [furtherParameters_other hother]
    refine mono (follows_closed (by decide) .moreParameters [] ts) ?_
    rintro _ _ ⟨rfl, rfl⟩
    exact furtherRule_nil ht
termination_by 2 * ts.length + 1

end

/-- What stands behind the opening parenthesis of a function literal, with the closing one. -/
def parameterListRule : Rule (List TypedName) := fun ws params =>
  ∃ us, ws = us ++ [.operator .rparen] ∧ Params us (params.map TypedName.erase)

theorem productive_parameterListRule : parameterListRule.Productive :=
  ⟨[.operator .rparen], [], by decide, [], rfl, .none⟩

/-- What is taken for a list of parameters is one, the empty list included. -/
theorem follows_parameterList (ts : List Token) :
    Follows parameterListRule ts (parameterList ts).outcome := by
  rcases operator_or_other .rparen ts with ⟨loc, rest, rfl⟩ | hparen
  · rw [outcome_parameterList_nil]
    exact ⟨[⟨.operator .rparen, loc⟩], rfl, [], rfl, .none⟩
  rcases literal_or_other ts with ⟨text, loc, rest, rfl⟩ | hliteral
  · rw [outcome_parameterList_literal]
    refine mono (follows_parameters _) ?_
    rintro _ params ⟨us, rfl, hparams⟩
    exact ⟨us, rfl, .some hparams⟩
  · rw [outcome_parameterList_other hparen hliteral]
    exact stop productive_parameterListRule

/-- What stands between `fn` and the body of a function literal. -/
def headerRule : Rule Header := fun ws head =>
  ∃ us, ws = .operator .lparen :: us ++ [.operator .rparen, .operator .colon, .literal head.ret] ∧
    Params us (head.params.map TypedName.erase)

/-- What is taken for the head of a function literal is one. -/
theorem follows_header (ts : List Token) : Follows headerRule ts (header ts).outcome := by
  rw [outcome_header]
  refine mono (andThen (follows_want (by decide) .openParen ts) (fun _ left _ _ _ =>
    andThen (follows_parameterList left) (fun params left _ _ _ =>
      andThen (follows_want (by decide) .returnColon left) (fun _ left _ _ _ =>
        andThen (follows_takeLiteral .returnType left) (fun ret left _ _ _ => pure ⟨rfl, rfl⟩)
          fun _ _ _ => productive_value _) ?_) ?_) ?_) ?_
  · intro _ _ _
    exact productive_andThen productive_literal fun _ _ _ => productive_value _
  · intro _ _ _
    exact productive_andThen (productive_operator (by decide)) fun _ _ _ =>
      productive_andThen productive_literal fun _ _ _ => productive_value _
  · intro _ _ _
    exact productive_andThen productive_parameterListRule fun _ _ _ =>
      productive_andThen (productive_operator (by decide)) fun _ _ _ =>
        productive_andThen productive_literal fun _ _ _ => productive_value _
  · rintro _ _ ⟨_, _, _, rfl, rfl, _, _, params, rfl, ⟨us, rfl, hparams⟩, _, _, _, rfl, rfl,
      _, _, ret, rfl, rfl, rfl, rfl⟩
    exact ⟨us, by simp, hparams⟩

/-! ## Statements

Expressions, statements and blocks are mutually recursive, and so are the three lemmas: the
induction is on the number of tokens that are left. -/

/-- An expression, locations aside. -/
def expressionRule : Rule Node := fun ws x => Expression ws x.erase

/-- A statement, locations aside. -/
def statementRule : Rule Node := fun ws x => Statement ws x.erase

/-- Statements and the brace after them. -/
def blockTailRule : Rule (List Node) := fun ws stmts =>
  ∃ us, ws = us ++ [.operator .rcurl] ∧ Statements us (Node.eraseAll stmts)

theorem productive_expressionRule : expressionRule.Productive := by
  obtain ⟨ws, x, hws, hx⟩ := productive_arithRule 0
  exact ⟨ws, x, hws, .arith hx⟩

theorem productive_blockTailRule : blockTailRule.Productive :=
  ⟨[.operator .rcurl], [], by decide, [], rfl, .nil⟩

/-- The body of a function literal, with the whole literal as value. -/
def bodyRule (head : Header) : Rule Node := fun ws x =>
  ∃ body, Block ws body ∧
    x.erase = .lambda .unknown head.ret (head.params.map TypedName.erase) .unknown body

theorem productive_bodyRule (head : Header) : (bodyRule head).Productive :=
  ⟨[.operator .lcurl, .operator .rcurl], .lambda .unknown head.ret head.params .unknown [],
    by decide, [], .mk .nil, by simp⟩

mutual

/-- What `expression` takes derives its value. The proofs for statements and blocks go with this
one, as the productions call one another. -/
theorem follows_expression (ts : List Token) :
    Follows expressionRule ts (expression ts).outcome := by
  rcases operator_or_other .lcurl ts with ⟨loc, rest, rfl⟩ | hblock
  · rw [outcome_expression_block]
    refine cons (andThen (follows_blockTail rest) (fun body left _ _ _ => pure ⟨rfl, rfl⟩)
      fun _ _ _ => productive_value _) ?_
    rintro _ _ ⟨_, _, body, rfl, ⟨us, rfl, hbody⟩, rfl, rfl⟩
    rw [List.append_nil]
    exact .block (.mk hbody)
  rcases operator_or_other .fn ts with ⟨loc, rest, rfl⟩ | hlambda
  · rw [outcome_expression_lambda]
    refine cons (andThen (B := fun _ head => bodyRule head) (follows_header rest)
      (fun head front _ hfront _ => ?_) fun _ head _ => productive_bodyRule head) ?_
    · have hlt := Reply.length_lt_of_outcome hfront
      refine mono (andThen (follows_want (by decide) .openBrace front) (fun _ left _ hleft _ =>
        andThen (follows_blockTail left) (fun body left _ _ _ => pure ⟨rfl, rfl⟩)
          fun _ _ _ => productive_value _) ?_) ?_
      · intro _ _ _
        exact productive_andThen productive_blockTailRule fun _ _ _ => productive_value _
      · rintro _ _ ⟨_, _, _, rfl, rfl, _, _, body, rfl, ⟨us, rfl, hbody⟩, rfl, rfl⟩
        exact ⟨_, by simpa using Block.mk hbody, by simp⟩
    · rintro _ x ⟨_, vs, head, rfl, ⟨us, rfl, hparams⟩, body, hbody, hx⟩
      rw [expressionRule, hx]
      simpa using Expression.lambda (.mk head.ret hparams hbody)
  rcases ts with _ | ⟨token, rest⟩
  · rw [outcome_expression_nil]
    exact stop productive_expressionRule
  · rw [outcome_expression_arithmetic (by simp) hblock hlambda]
    exact mono (follows_binary 0 _) fun _ _ hx => .arith hx
termination_by 3 * ts.length
decreasing_by
  · subst_vars; simp only [List.length_cons]; omega
  · have := Reply.length_lt_of_outcome hleft
    subst_vars; simp only [List.length_cons]; omega

/-- What `statement` takes derives its value as a statement with its semicolon. -/
theorem follows_statement (ts : List Token) :
    Follows statementRule ts (statement ts).outcome := by
  rcases operator_or_other .bind ts with ⟨loc, rest, rfl⟩ | hother
  · rw [outcome_statement_binding]
    refine cons (andThen (follows_bindingName rest) (fun name left _ hname _ =>
      andThen (follows_want (by decide) .assignment left) (fun _ front _ hfront _ =>
        andThen (follows_expression front) (fun value left _ _ _ =>
          follows_closed (by decide) .semicolon (Node.expression loc .bind name value) left)
          fun _ _ _ => productive_closed (by decide) _) ?_) ?_) ?_
    · intro _ _ _
      exact productive_andThen productive_expressionRule fun _ _ _ =>
        productive_closed (by decide) _
    · intro _ _ _
      exact productive_andThen (productive_operator (by decide)) fun _ _ _ =>
        productive_andThen productive_expressionRule fun _ _ _ =>
          productive_closed (by decide) _
    · rintro _ _ ⟨us, _, name, rfl, hname, _, _, _, rfl, rfl, vs, _, value, rfl, hvalue, rfl, rfl⟩
      simpa [statementRule] using Statement.assignment (.mk hname hvalue)
  · rw [outcome_statement_expression hother]
    refine mono (andThen (follows_expression ts) (fun value left _ _ _ =>
      follows_closed (by decide) .semicolon value left)
      fun _ _ _ => productive_closed (by decide) _) ?_
    rintro _ _ ⟨ws, _, x, rfl, hx, rfl, rfl⟩
    exact .expression hx
termination_by 3 * ts.length + 1
decreasing_by
  · have := Reply.length_lt_of_outcome hname
    have := Reply.length_lt_of_outcome hfront
    subst_vars; simp only [List.length_cons]; omega
  · omega

/-- What `blockTail` takes derives its statements up to the closing brace. -/
theorem follows_blockTail (ts : List Token) :
    Follows blockTailRule ts (blockTail ts).outcome := by
  rcases operator_or_other .rcurl ts with ⟨loc, rest, rfl⟩ | hother
  · rw [outcome_blockTail_close]
    exact ⟨[⟨.operator .rcurl, loc⟩], rfl, [], rfl, .nil⟩
  by_cases hne : ts = []
  · rw [hne, outcome_blockTail_nil]
    exact stop productive_blockTailRule
  · rw [outcome_blockTail_statement hne hother]
    refine mono (andThen (follows_statement ts) (fun x left _ hx _ =>
      andThen (follows_blockTail left) (fun more left _ _ _ => pure ⟨rfl, rfl⟩)
        fun _ _ _ => productive_value _) ?_) ?_
    · intro _ _ _
      exact productive_andThen productive_blockTailRule fun _ _ _ => productive_value _
    · rintro _ _ ⟨us, _, x, rfl, hx, _, _, more, rfl, ⟨vs, rfl, hmore⟩, rfl, rfl⟩
      exact ⟨us ++ vs, by simp, .cons hx hmore⟩
termination_by 3 * ts.length + 2
decreasing_by
  · omega
  · have := Reply.length_lt_of_outcome hx
    omega

end

/-- Statements up to the end, locations aside. -/
def statementsRule : Rule (List Node) := fun ws stmts => Statements ws (Node.eraseAll stmts)

theorem productive_statementsRule : statementsRule.Productive := ⟨[], [], by simp, .nil⟩

/-- What is taken for a program derives its statements. -/
theorem follows_program (ts : List Token) : Follows statementsRule ts (program ts) := by
  by_cases hne : ts = []
  · rw [hne, program_nil]
    exact pure .nil
  · rw [program_statement hne]
    refine mono (andThen (follows_statement ts) (fun x left _ hx _ =>
      andThen (follows_program left) (fun more left _ _ _ => pure ⟨rfl, rfl⟩)
        fun _ _ _ => productive_value _) ?_) ?_
    · intro _ _ _
      exact productive_andThen productive_statementsRule fun _ _ _ => productive_value _
    · rintro _ _ ⟨us, _, x, rfl, hx, vs, _, more, rfl, hmore, rfl, rfl⟩
      rw [List.append_nil]
      exact .cons hx hmore
termination_by ts.length
decreasing_by exact Reply.length_lt_of_outcome hx

/-! ## Modules -/

/-- A module that was built is the tree of its tokens. -/
theorem derives_of_module {ts : List Token} {m : Node} (h : module ts = .ok m) :
    Module (ts.map Token.word) m.erase := by
  obtain ⟨stmts, hstmts, rfl⟩ := module_eq_ok.mp h
  have hfollows := follows_program ts
  rw [hstmts] at hfollows
  obtain ⟨taken, hts, htree⟩ := hfollows
  rw [hts, List.append_nil]
  exact .mk htree

/-- What stands in front of the place where a module went wrong can be completed. -/
theorem completes_of_module {ts : List Token} {e : Failed} (h : module ts = .error e) :
    ∃ taken more t, ts = taken ++ e.rest ∧ Lexical more ∧
      Module (taken.map Token.word ++ more) t := by
  have hfollows := follows_program ts
  rw [module_eq_error.mp h] at hfollows
  obtain ⟨taken, hts, more, stmts, hmore, htree⟩ := hfollows
  exact ⟨taken, more, _, hts, hmore, .mk htree⟩

end LetFn.Parser
