import Mathlib.Data.List.Forall2
import LetFn.Proofs.Parser.Outcome

/-!
# Locations are passed through

The parser decides by words alone and takes every location of a tree from a token. So it answers to
the same words at other locations with the same tree at other locations, or with the same failure
one token for the other.

Which locations correspond is left open: `R` may be any relation. `Relocated R` lifts it to tokens,
trees and outcomes, where everything but the locations agrees. A chain of productions keeps it
(`Outcome.Relocated.andThen`), and each production has it, in the order of the grammar.
-/

namespace LetFn

/-- The same word at a corresponding location. -/
inductive Token.Relocated (R : Location → Location → Prop) : Token → Token → Prop
  | mk {word : Word} {a b : Location} : R a b → Relocated R ⟨word, a⟩ ⟨word, b⟩

/-- The same name and type at a corresponding location. -/
inductive TypedName.Relocated (R : Location → Location → Prop) : TypedName → TypedName → Prop
  | mk {name type : Bytes} {a b : Location} : R a b → Relocated R ⟨a, name, type⟩ ⟨b, name, type⟩

/-- The same tree with corresponding locations. -/
inductive Node.Relocated (R : Location → Location → Prop) : Node → Node → Prop
  | module {a b : Location} {xs ys : List Node} :
    R a b → List.Forall₂ (Relocated R) xs ys → Relocated R (.module a xs) (.module b ys)
  | block {a b : Location} {xs ys : List Node} :
    R a b → List.Forall₂ (Relocated R) xs ys → Relocated R (.block a xs) (.block b ys)
  | literal {a b : Location} {value : Bytes} :
    R a b → Relocated R (.literal a value) (.literal b value)
  | typed {s t : TypedName} : s.Relocated R t → Relocated R (.typed s) (.typed t)
  | expression {a b : Location} {op : Operator} {v w x y : Node} :
    R a b → Relocated R v x → Relocated R w y →
      Relocated R (.expression a op v w) (.expression b op x y)
  | lambda {a b c d : Location} {ret : Bytes} {ps qs : List TypedName} {xs ys : List Node} :
    R a b → List.Forall₂ (TypedName.Relocated R) ps qs → R c d →
      List.Forall₂ (Relocated R) xs ys → Relocated R (.lambda a ret ps c xs) (.lambda b ret qs d ys)
  | bodiless {a b : Location} {ret : Bytes} {ps qs : List TypedName} :
    R a b → List.Forall₂ (TypedName.Relocated R) ps qs →
      Relocated R (.bodiless a ret ps) (.bodiless b ret qs)
  | missing : Relocated R .missing .missing
  | foreign {typeName : Bytes} : Relocated R (.foreign typeName) (.foreign typeName)

namespace Parser

variable {α β : Type} {R : Location → Location → Prop}

/-- The same words at corresponding locations. -/
abbrev SameWords (R : Location → Location → Prop) : List Token → List Token → Prop :=
  List.Forall₂ (Token.Relocated R)

namespace SameWords

theorem cons_inv {w : Word} {a : Location} {ts us : List Token}
    (h : SameWords R (⟨w, a⟩ :: ts) us) :
    ∃ b vs, us = ⟨w, b⟩ :: vs ∧ R a b ∧ SameWords R ts vs := by
  obtain _ | ⟨⟨hloc⟩, hrest⟩ := h
  exact ⟨_, _, rfl, hloc, hrest⟩

theorem ne_nil {ts us : List Token} (h : SameWords R ts us) (hne : ts ≠ []) : us ≠ [] := by
  rintro rfl
  cases h
  exact hne rfl

/-- What can be said of the word in front holds for both. -/
theorem front {P : Word → Prop} {ts us : List Token} (h : SameWords R ts us)
    (hts : ∀ token ∈ ts.head?, P token.word) : ∀ token ∈ us.head?, P token.word := by
  cases h with
  | nil => simp
  | cons htoken _ =>
    obtain ⟨_⟩ := htoken
    simpa using hts

theorem not_operator {op : Operator} {ts us : List Token} (h : SameWords R ts us)
    (hts : ∀ token ∈ ts.head?, token.word ≠ .operator op) :
    ∀ token ∈ us.head?, token.word ≠ .operator op :=
  h.front (P := (· ≠ .operator op)) hts

theorem not_literal {ts us : List Token} (h : SameWords R ts us)
    (hts : ∀ token ∈ ts.head?, ∀ text, token.word ≠ .literal text) :
    ∀ token ∈ us.head?, ∀ text, token.word ≠ .literal text :=
  h.front (P := fun word => ∀ text, word ≠ .literal text) hts

theorem frontPrecedence_eq {ts us : List Token} (h : SameWords R ts us) :
    frontPrecedence us = frontPrecedence ts := by
  cases h with
  | nil => rfl
  | cons htoken _ =>
    obtain ⟨_⟩ := htoken
    rfl

theorem frontLoc {ts us : List Token} (h : SameWords R ts us) (hne : ts ≠ []) :
    R (frontLoc ts) (frontLoc us) := by
  cases h with
  | nil => exact absurd rfl hne
  | cons htoken _ =>
    obtain ⟨hloc⟩ := htoken
    exact hloc

end SameWords

/-- A production that succeeds has a token in front. -/
theorem ne_nil_of_outcome {ts : List Token} {r : Reply α ts.length} {x : α} {left : List Token}
    (h : r.outcome = .ok (x, left)) : ts ≠ [] := by
  have hlt := Reply.length_lt_of_outcome h
  exact List.ne_nil_of_length_pos (by omega)

/-- Corresponding values in front of the same words, or the same failure there. -/
inductive Outcome.Relocated (R : Location → Location → Prop) (S : α → α → Prop) :
    Outcome α → Outcome α → Prop
  | ok {x y : α} {ts us : List Token} :
    S x y → SameWords R ts us → Relocated R S (.ok (x, ts)) (.ok (y, us))
  | error {expected : Expected} {ts us : List Token} :
    SameWords R ts us → Relocated R S (.error ⟨expected, ts⟩) (.error ⟨expected, us⟩)

/-- Chains correspond if their links do. -/
theorem Outcome.Relocated.andThen {S : α → α → Prop} {T : β → β → Prop} {o o' : Outcome α}
    {f g : α → List Token → Outcome β} (h : Relocated R S o o')
    (hfg : ∀ x y ts us, o = .ok (x, ts) → S x y → SameWords R ts us →
      Relocated R T (f x ts) (g y us)) :
    Relocated R T (o.andThen f) (o'.andThen g) := by
  cases h with
  | ok hvalue hrest => exact hfg _ _ _ _ rfl hvalue hrest
  | error hrest => exact .error hrest

open Outcome (Relocated)

/-! ## Single tokens

The word in front is the same on both sides, so both take the token or both refuse. -/

theorem relocated_want (op : Operator) (expected : Expected) {ts us : List Token}
    (h : SameWords R ts us) :
    Relocated R Eq (want op expected ts).outcome (want op expected us).outcome := by
  rcases operator_or_other op ts with ⟨loc, rest, rfl⟩ | hother
  · obtain ⟨b, vs, rfl, -, hrest⟩ := h.cons_inv
    rw [outcome_want_operator, outcome_want_operator]
    exact .ok rfl hrest
  · rw [outcome_want_other expected hother, outcome_want_other expected (h.not_operator hother)]
    exact .error h

theorem relocated_takeLiteral (expected : Expected) {ts us : List Token} (h : SameWords R ts us) :
    Relocated R Eq (takeLiteral expected ts).outcome (takeLiteral expected us).outcome := by
  rcases literal_or_other ts with ⟨text, loc, rest, rfl⟩ | hother
  · obtain ⟨b, vs, rfl, -, hrest⟩ := h.cons_inv
    rw [outcome_takeLiteral, outcome_takeLiteral]
    exact .ok rfl hrest
  · rw [outcome_takeLiteral_other expected hother,
      outcome_takeLiteral_other expected (h.not_literal hother)]
    exact .error h

/-- A token that closes a value changes nothing about it. -/
theorem relocated_closed {S : α → α → Prop} {x y : α} (hvalue : S x y) (op : Operator)
    (expected : Expected) {ts us : List Token} (h : SameWords R ts us) :
    Relocated R S ((want op expected ts).outcome.andThen fun _ left => .ok (x, left))
      ((want op expected us).outcome.andThen fun _ left => .ok (y, left)) := by
  apply (relocated_want op expected h).andThen
  intro _ _ left left' _ _ hleft
  exact .ok hvalue hleft

/-! ## Arithmetic

What stands in front is told by its word, in both tokens alike, so both sides take the same branch.
The rest is a chain. -/

mutual

/-- Atoms correspond: the location of a node is that of a token, and of nothing else. -/
theorem relocated_atom {ts us : List Token} (h : SameWords R ts us) :
    Relocated R (Node.Relocated R) (atom ts).outcome (atom us).outcome := by
  rcases operand_or_other ts with
    ⟨text, loc, rest, rfl⟩ | ⟨loc, rest, rfl⟩ | ⟨loc, rest, rfl⟩ | ⟨loc, rest, rfl⟩ | hother
  · obtain ⟨b, vs, rfl, hloc, hrest⟩ := h.cons_inv
    rw [outcome_atom_literal, outcome_atom_literal]
    exact .ok (.literal hloc) hrest
  · obtain ⟨b, vs, rfl, hloc, hrest⟩ := h.cons_inv
    rw [outcome_atom_minus, outcome_atom_minus]
    apply (relocated_atom hrest).andThen
    intro x y left left' _ hx hleft
    exact .ok (.expression hloc (.literal hloc) hx) hleft
  · obtain ⟨b, vs, rfl, -, hrest⟩ := h.cons_inv
    rw [outcome_atom_plus, outcome_atom_plus]
    exact relocated_atom hrest
  · obtain ⟨b, vs, rfl, -, hrest⟩ := h.cons_inv
    rw [outcome_atom_parens, outcome_atom_parens]
    apply (relocated_binary 0 hrest).andThen
    intro x y left left' _ hx hleft
    exact relocated_closed hx .rparen .closeParen hleft
  · rw [outcome_atom_other hother,
      outcome_atom_other (h.front (P := fun w => opensOperand w = false) hother)]
    exact .error h
termination_by 2 * ts.length

theorem relocated_binary (prec : Nat) {ts us : List Token} (h : SameWords R ts us) :
    Relocated R (Node.Relocated R) (binary prec ts).outcome (binary prec us).outcome := by
  rw [outcome_binary, outcome_binary]
  apply (relocated_atom h).andThen
  intro x y left left' hok hx hleft
  have hlt := Reply.length_lt_of_outcome hok
  -- The operand took a token, so the location of the front is not the unknown one, of which `R`
  -- may say nothing.
  exact relocated_climb prec (h.frontLoc (ne_nil_of_outcome hok)) hx hleft
termination_by 2 * ts.length + 1

theorem relocated_climb (prec : Nat) {a b : Location} {x y : Node} {ts us : List Token}
    (hloc : R a b) (hx : x.Relocated R y) (h : SameWords R ts us) :
    Relocated R (Node.Relocated R) (climb prec a x ts).outcome (climb prec b y us).outcome := by
  rcases tighter_or_stop prec ts with ⟨op, opLoc, rest, rfl, hop⟩ | hstop
  · obtain ⟨c, vs, rfl, -, hrest⟩ := h.cons_inv
    rw [outcome_climb_operator hop, outcome_climb_operator hop]
    apply (relocated_binary op.precedence hrest).andThen
    intro v w left left' hok hv hleft
    have hlt := Reply.length_lt_of_outcome hok
    exact relocated_climb prec hloc (.expression hloc hx hv) hleft
  · have hstop' : frontPrecedence us ≤ prec := by
      rw [h.frontPrecedence_eq]
      exact hstop
    rw [outcome_climb_stop hstop, outcome_climb_stop hstop']
    exact .ok hx h
termination_by 2 * ts.length
decreasing_by all_goals (subst_vars; simp only [List.length_cons]; omega)

end

/-! ## Names and parameters

A name and its type are texts of tokens; only the location of the name goes into the tree. -/

theorem relocated_typePart {ts us : List Token} (h : SameWords R ts us) :
    Relocated R Eq (typePart ts) (typePart us) := by
  rcases operator_or_other .colon ts with ⟨loc, rest, rfl⟩ | hother
  · obtain ⟨b, vs, rfl, -, hrest⟩ := h.cons_inv
    apply (relocated_takeLiteral .typeName hrest).andThen
    rintro type _ left left' _ rfl hleft
    exact .ok rfl hleft
  · rw [typePart_other hother, typePart_other (h.not_operator hother)]
    exact .ok rfl h

theorem relocated_bindingName {ts us : List Token} (h : SameWords R ts us) :
    Relocated R (Node.Relocated R) (bindingName ts).outcome (bindingName us).outcome := by
  rw [outcome_bindingName, outcome_bindingName]
  apply (relocated_takeLiteral .name h).andThen
  rintro name _ left left' hok rfl hleft
  have hloc := h.frontLoc (ne_nil_of_outcome hok)
  apply (relocated_typePart hleft).andThen
  rintro type _ left left' _ rfl hleft
  cases type with
  | none => exact .ok (.literal hloc) hleft
  | some type => exact .ok (.typed (.mk hloc)) hleft

theorem relocated_parameter {ts us : List Token} (h : SameWords R ts us) :
    Relocated R (TypedName.Relocated R) (parameter ts).outcome (parameter us).outcome := by
  rw [outcome_parameter, outcome_parameter]
  apply (relocated_takeLiteral .name h).andThen
  rintro name _ left left' hok rfl hleft
  have hloc := h.frontLoc (ne_nil_of_outcome hok)
  apply (relocated_want .colon .typeColon hleft).andThen
  intro _ _ left left' _ _ hleft
  apply (relocated_takeLiteral .typeName hleft).andThen
  rintro type _ left left' _ rfl hleft
  exact .ok (.mk hloc) hleft

theorem relocated_parameters {ts us : List Token} (h : SameWords R ts us) :
    Relocated R (List.Forall₂ (TypedName.Relocated R)) (parameters ts).outcome
      (parameters us).outcome := by
  rw [outcome_parameters, outcome_parameters]
  apply (relocated_parameter h).andThen
  intro p q left left' hok hp hleft
  have hlt := Reply.length_lt_of_outcome hok
  have hfurther : Relocated R (List.Forall₂ (TypedName.Relocated R)) (furtherParameters left)
      (furtherParameters left') := by
    rcases operator_or_other .comma left with ⟨loc, rest, rfl⟩ | hother
    · obtain ⟨b, vs, rfl, -, hrest⟩ := hleft.cons_inv
      exact relocated_parameters hrest
    · rw [furtherParameters_other hother, furtherParameters_other (hleft.not_operator hother)]
      exact relocated_closed .nil .rparen .moreParameters hleft
  apply hfurther.andThen
  intro ps qs left left' _ hps hleft
  exact .ok (.cons hp hps) hleft
termination_by ts.length
decreasing_by simp only [List.length_cons] at hlt; omega

theorem relocated_parameterList {ts us : List Token} (h : SameWords R ts us) :
    Relocated R (List.Forall₂ (TypedName.Relocated R)) (parameterList ts).outcome
      (parameterList us).outcome := by
  rcases operator_or_other .rparen ts with ⟨loc, rest, rfl⟩ | hparen
  · obtain ⟨b, vs, rfl, -, hrest⟩ := h.cons_inv
    exact .ok .nil hrest
  rcases literal_or_other ts with ⟨text, loc, rest, rfl⟩ | hliteral
  · obtain ⟨b, vs, rfl, -, hrest⟩ := h.cons_inv
    rw [outcome_parameterList_literal, outcome_parameterList_literal]
    exact relocated_parameters h
  · rw [outcome_parameterList_other hparen hliteral,
      outcome_parameterList_other (h.not_operator hparen) (h.not_literal hliteral)]
    exact .error h

/-- The same return type and corresponding parameters. -/
def Header.Relocated (R : Location → Location → Prop) (a b : Header) : Prop :=
  List.Forall₂ (TypedName.Relocated R) a.params b.params ∧ a.ret = b.ret

theorem relocated_header {ts us : List Token} (h : SameWords R ts us) :
    Relocated R (Header.Relocated R) (header ts).outcome (header us).outcome := by
  rw [outcome_header, outcome_header]
  apply (relocated_want .lparen .openParen h).andThen
  intro _ _ left left' _ _ hleft
  apply (relocated_parameterList hleft).andThen
  intro ps qs left left' _ hparams hleft
  apply (relocated_want .colon .returnColon hleft).andThen
  intro _ _ left left' _ _ hleft
  apply (relocated_takeLiteral .returnType hleft).andThen
  rintro ret _ left left' _ rfl hleft
  exact .ok ⟨hparams, rfl⟩ hleft

/-! ## Statements

The productions recurse as the grammar does, and what they need of the tokens is the word in
front. -/

mutual

theorem relocated_expression {ts us : List Token} (h : SameWords R ts us) :
    Relocated R (Node.Relocated R) (expression ts).outcome (expression us).outcome := by
  rcases operator_or_other .lcurl ts with ⟨loc, rest, rfl⟩ | hblock
  · obtain ⟨b, vs, rfl, hloc, hrest⟩ := h.cons_inv
    rw [outcome_expression_block, outcome_expression_block]
    apply (relocated_blockTail hrest).andThen
    intro xs ys left left' _ hbody hleft
    exact .ok (.block hloc hbody) hleft
  rcases operator_or_other .fn ts with ⟨loc, rest, rfl⟩ | hlambda
  · obtain ⟨b, vs, rfl, hloc, hrest⟩ := h.cons_inv
    rw [outcome_expression_lambda, outcome_expression_lambda]
    apply (relocated_header hrest).andThen
    rintro ⟨ps, ret⟩ ⟨qs, _⟩ front front' hhead ⟨hparams, rfl⟩ hfront
    have hltHead := Reply.length_lt_of_outcome hhead
    apply (relocated_want .lcurl .openBrace hfront).andThen
    intro _ _ left left' hbrace _ hleft
    have hltBrace := Reply.length_lt_of_outcome hbrace
    apply (relocated_blockTail hleft).andThen
    intro xs ys left left' _ hbody hleft
    exact .ok (.lambda hloc hparams (hfront.frontLoc (ne_nil_of_outcome hbrace)) hbody) hleft
  -- Neither a brace nor `fn` is in front of one, so it is in front of neither.
  by_cases hne : ts = []
  · subst hne
    cases h
    rw [outcome_expression_nil]
    exact .error .nil
  · rw [outcome_expression_arithmetic hne hblock hlambda, outcome_expression_arithmetic
      (h.ne_nil hne) (h.not_operator hblock) (h.not_operator hlambda)]
    exact relocated_binary 0 h
termination_by 3 * ts.length
decreasing_by all_goals (subst_vars; simp only [List.length_cons]; omega)

theorem relocated_statement {ts us : List Token} (h : SameWords R ts us) :
    Relocated R (Node.Relocated R) (statement ts).outcome (statement us).outcome := by
  rcases operator_or_other .bind ts with ⟨loc, rest, rfl⟩ | hother
  · obtain ⟨b, vs, rfl, hloc, hrest⟩ := h.cons_inv
    rw [outcome_statement_binding, outcome_statement_binding]
    apply (relocated_bindingName hrest).andThen
    intro x y left left' hname hx hleft
    apply (relocated_want .assign .assignment hleft).andThen
    intro _ _ left left' hassign _ hleft
    have hltName := Reply.length_lt_of_outcome hname
    have hltAssign := Reply.length_lt_of_outcome hassign
    apply (relocated_expression hleft).andThen
    intro v w left left' _ hv hleft
    exact relocated_closed (.expression hloc hx hv) .semicolon .semicolon hleft
  · rw [outcome_statement_expression hother, outcome_statement_expression (h.not_operator hother)]
    apply (relocated_expression h).andThen
    intro x y left left' _ hx hleft
    exact relocated_closed hx .semicolon .semicolon hleft
termination_by 3 * ts.length + 1
decreasing_by
  · subst_vars
    simp only [List.length_cons]
    omega
  · omega

theorem relocated_blockTail {ts us : List Token} (h : SameWords R ts us) :
    Relocated R (List.Forall₂ (Node.Relocated R)) (blockTail ts).outcome
      (blockTail us).outcome := by
  rcases operator_or_other .rcurl ts with ⟨loc, rest, rfl⟩ | hother
  · obtain ⟨b, vs, rfl, -, hrest⟩ := h.cons_inv
    rw [outcome_blockTail_close, outcome_blockTail_close]
    exact .ok .nil hrest
  by_cases hne : ts = []
  · subst hne
    cases h
    rw [outcome_blockTail_nil]
    exact .error .nil
  · rw [outcome_blockTail_statement hne hother,
      outcome_blockTail_statement (h.ne_nil hne) (h.not_operator hother)]
    apply (relocated_statement h).andThen
    intro x y left left' hfirst hx hleft
    have hlt := Reply.length_lt_of_outcome hfirst
    apply (relocated_blockTail hleft).andThen
    intro xs ys left left' _ hmore hleft
    exact .ok (.cons hx hmore) hleft
termination_by 3 * ts.length + 2

end

/-- Whole sources of the same words give the same statements at corresponding locations, or fail in
front of the same words. -/
theorem relocated_program {ts us : List Token} (h : SameWords R ts us) :
    Relocated R (List.Forall₂ (Node.Relocated R)) (program ts) (program us) := by
  by_cases hne : ts = []
  · subst hne
    cases h
    rw [program_nil]
    exact .ok .nil .nil
  · rw [program_statement hne, program_statement (h.ne_nil hne)]
    apply (relocated_statement h).andThen
    intro x y left left' hfirst hx hleft
    have hlt := Reply.length_lt_of_outcome hfirst
    apply (relocated_program hleft).andThen
    intro xs ys left left' _ hmore hleft
    exact .ok (.cons hx hmore) hleft
termination_by ts.length

end Parser

end LetFn
