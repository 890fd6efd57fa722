import LetFn.Proofs.Parser.Outcome

/-!
# Which tokens a tree is made from

The grammar gives words a tree without locations. Here it is tokens that have a tree, and every
location in the tree is that of one of them. Each rule says which tokens a node takes, which of its
parts take the tokens in between, and at which token the node stands. Precedence is left out: it
decides which tree is built, but not what the tree is built from.

Every tree that a production gives is made from the tokens that the production took, all of them and
no others (`origin_module`). What follows from that about locations and about numbers of tokens
needs no further look at the productions.
-/

namespace LetFn.Origin

/-- Arithmetic. A chain stands where its left operand begins, parentheses and signs included. -/
inductive Operand : List Token → Node → Prop
  | literal (text : Bytes) (a : Location) : Operand [⟨.literal text, a⟩] (.literal a text)
  | minus {ts : List Token} {x : Node} (a : Location) : Operand ts x →
      Operand (⟨.operator .sub, a⟩ :: ts) (.expression a .sub (.literal a (Text.utf8 "0")) x)
  | plus {ts : List Token} {x : Node} (a : Location) : Operand ts x →
      Operand (⟨.operator .add, a⟩ :: ts) x
  | parens {ts : List Token} {x : Node} (a b : Location) : Operand ts x →
      Operand (⟨.operator .lparen, a⟩ :: ts ++ [⟨.operator .rparen, b⟩]) x
  | chain {us vs : List Token} {x y : Node} {op : Operator} (a : Location) : Operand us x →
      op.isArithmetic = true → Operand vs y →
      Operand (us ++ ⟨.operator op, a⟩ :: vs) (.expression (Parser.frontLoc us) op x y)

/-- A name with its type, which stands at the name. -/
inductive Typed : List Token → TypedName → Prop
  | mk (name type : Bytes) (a b c : Location) :
      Typed [⟨.literal name, a⟩, ⟨.operator .colon, b⟩, ⟨.literal type, c⟩] ⟨a, name, type⟩

/-- What a binding binds. -/
inductive Name : List Token → Node → Prop
  | plain (name : Bytes) (a : Location) : Name [⟨.literal name, a⟩] (.literal a name)
  | typed {ts : List Token} {t : TypedName} : Typed ts t → Name ts (.typed t)

/-- Parameters, with commas between them. -/
inductive Params : List Token → List TypedName → Prop
  | none : Params [] []
  | last {ts : List Token} {t : TypedName} : Typed ts t → Params ts [t]
  | cons {us vs : List Token} {s t : TypedName} {rest : List TypedName} (a : Location) :
      Typed us s → Params vs (t :: rest) →
      Params (us ++ ⟨.operator .comma, a⟩ :: vs) (s :: t :: rest)

mutual

/-- A block, a function literal or arithmetic. The body of a function literal is a block. -/
inductive Value : List Token → Node → Prop
  | block {ts : List Token} {stmts : List Node} (a b : Location) : Statements ts stmts →
      Value (⟨.operator .lcurl, a⟩ :: ts ++ [⟨.operator .rcurl, b⟩]) (.block a stmts)
  | lambda {us vs : List Token} {params : List TypedName} {body : List Node} (ret : Bytes)
      (a b c d e g h : Location) : Params us params → Statements vs body →
      Value (⟨.operator .fn, a⟩ :: ⟨.operator .lparen, b⟩ :: us ++
          ⟨.operator .rparen, c⟩ :: ⟨.operator .colon, d⟩ :: ⟨.literal ret, e⟩ ::
          ⟨.operator .lcurl, g⟩ :: vs ++ [⟨.operator .rcurl, h⟩])
        (.lambda a ret params g body)
  | operand {ts : List Token} {x : Node} : Operand ts x → Value ts x

/-- A binding or a value, and its semicolon. -/
inductive Statement : List Token → Node → Prop
  | binding {us vs : List Token} {x y : Node} (a b c : Location) : Name us x → Value vs y →
      Statement (⟨.operator .bind, a⟩ :: us ++ ⟨.operator .assign, b⟩ :: vs ++
          [⟨.operator .semicolon, c⟩])
        (.expression a .bind x y)
  | value {ts : List Token} {x : Node} (a : Location) : Value ts x →
      Statement (ts ++ [⟨.operator .semicolon, a⟩]) x

/-- Any number of statements. -/
inductive Statements : List Token → List Node → Prop
  | nil : Statements [] []
  | cons {us vs : List Token} {x : Node} {rest : List Node} : Statement us x →
      Statements vs rest → Statements (us ++ vs) (x :: rest)

end

/-! ## Fronts -/

/-- Arithmetic begins with a literal, a sign or an opening parenthesis. -/
theorem Operand.front {ts : List Token} {x : Node} (h : Operand ts x) :
    ∃ w a rest, ts = ⟨w, a⟩ :: rest ∧ Parser.opensOperand w = true := by
  induction h with
  | literal text a => exact ⟨_, a, _, rfl, rfl⟩
  | minus a _ _ => exact ⟨_, a, _, rfl, rfl⟩
  | plus a _ _ => exact ⟨_, a, _, rfl, rfl⟩
  | parens a b _ _ => exact ⟨_, a, _, rfl, rfl⟩
  | chain a _ _ _ ih _ =>
    obtain ⟨w, b, rest, rfl, hw⟩ := ih
    exact ⟨w, b, _, rfl, hw⟩

theorem Operand.frontLoc_append {ts : List Token} {x : Node} (h : Operand ts x)
    (us : List Token) : Parser.frontLoc (ts ++ us) = Parser.frontLoc ts := by
  obtain ⟨w, a, rest, rfl, -⟩ := h.front
  rfl

end LetFn.Origin

/-! ## What productions take

One lemma for each production: it takes tokens from the front, and the tree it gives is one that
these tokens derive, at their locations. -/

namespace LetFn.Parser

open Origin

theorem isArithmetic_of_precedence {op : Operator} {prec : Nat} (h : prec < op.precedence) :
    op.isArithmetic = true := by
  cases op <;> first | rfl | exact absurd h (Nat.not_lt_zero prec)

mutual

/-- An atom is made from what is taken for it, signs and parentheses included. -/
theorem origin_atom {ts left : List Token} {x : Node} (h : (atom ts).outcome = .ok (x, left)) :
    ∃ taken, ts = taken ++ left ∧ Operand taken x := by
  rcases operand_or_other ts with
    ⟨text, a, rest, rfl⟩ | ⟨a, rest, rfl⟩ | ⟨a, rest, rfl⟩ | ⟨a, rest, rfl⟩ | hother
  · rw [outcome_atom_literal] at h
    cases h
    exact ⟨[_], rfl, .literal text a⟩
  · rw [outcome_atom_minus, Outcome.andThen_eq_ok] at h
    obtain ⟨y, _, hy, ⟨⟩⟩ := h
    obtain ⟨taken, rfl, hoperand⟩ := origin_atom hy
    exact ⟨_ :: taken, rfl, .minus a hoperand⟩
  · rw [outcome_atom_plus] at h
    obtain ⟨taken, rfl, hx⟩ := origin_atom h
    exact ⟨_ :: taken, rfl, .plus a hx⟩
  · rw [outcome_atom_parens, Outcome.andThen_eq_ok] at h
    obtain ⟨y, front, hy, h⟩ := h
    obtain ⟨_, _, hclose, ⟨⟩⟩ := Outcome.andThen_eq_ok.mp h
    obtain ⟨b, rfl⟩ := want_eq_ok hclose
    obtain ⟨taken, rfl, hx⟩ := origin_binary hy
    exact ⟨_ :: taken ++ [⟨.operator .rparen, b⟩], by simp, .parens a b hx⟩
  · rw [outcome_atom_other hother] at h
    cases h
termination_by 2 * ts.length

/-- So is arithmetic. -/
theorem origin_binary {prec : Nat} {ts left : List Token} {x : Node}
    (h : (binary prec ts).outcome = .ok (x, left)) :
    ∃ taken, ts = taken ++ left ∧ Operand taken x := by
  rw [outcome_binary, Outcome.andThen_eq_ok] at h
  obtain ⟨y, front, hy, h⟩ := h
  have hlt := Reply.length_lt_of_outcome hy
  obtain ⟨taken, rfl, hoperand⟩ := origin_atom hy
  rw [hoperand.frontLoc_append] at h
  obtain ⟨more, rfl, hx⟩ := origin_climb hoperand h
  exact ⟨taken ++ more, by simp, hx⟩
termination_by 2 * ts.length + 1

/-- What climbing takes goes on from the tokens of the left operand. -/
theorem origin_climb {prec : Nat} {us ts left : List Token} {x z : Node} (hx : Operand us x)
    (h : (climb prec (frontLoc us) x ts).outcome = .ok (z, left)) :
    ∃ taken, ts = taken ++ left ∧ Operand (us ++ taken) z := by
  rcases tighter_or_stop prec ts with ⟨op, a, rest, rfl, hop⟩ | hstop
  · rw [outcome_climb_operator hop, Outcome.andThen_eq_ok] at h
    obtain ⟨y, front, hy, h⟩ := h
    have hlt := Reply.length_lt_of_outcome hy
    obtain ⟨taken, rfl, hoperand⟩ := origin_binary hy
    -- The chain so far becomes the left operand of the rest, at the same first token.
    have hchain := Operand.chain a hx (isArithmetic_of_precedence hop) hoperand
    rw [← hx.frontLoc_append (⟨.operator op, a⟩ :: taken)] at h hchain
    obtain ⟨more, rfl, hz⟩ := origin_climb hchain h
    exact ⟨⟨.operator op, a⟩ :: taken ++ more, by simp, by simpa using hz⟩
  · rw [outcome_climb_stop hstop] at h
    cases h
    exact ⟨[], rfl, by simpa using hx⟩
termination_by 2 * ts.length
decreasing_by all_goals (subst_vars; simp only [List.length_cons]; omega)

end

theorem origin_bindingName {ts left : List Token} {x : Node}
    (h : (bindingName ts).outcome = .ok (x, left)) : ∃ taken, ts = taken ++ left ∧ Name taken x := by
  rw [outcome_bindingName, Outcome.andThen_eq_ok] at h
  obtain ⟨name, front, hname, h⟩ := h
  obtain ⟨a, rfl⟩ := takeLiteral_eq_ok hname
  obtain ⟨type, _, htype, ⟨⟩⟩ := Outcome.andThen_eq_ok.mp h
  rcases operator_or_other .colon front with ⟨b, rest, rfl⟩ | hother
  · rw [typePart, Outcome.andThen_eq_ok] at htype
    obtain ⟨type, _, hliteral, ⟨⟩⟩ := htype
    obtain ⟨c, rfl⟩ := takeLiteral_eq_ok hliteral
    exact ⟨[_, _, _], rfl, .typed (.mk name type a b c)⟩
  · rw [typePart_other hother] at htype
    cases htype
    exact ⟨[_], rfl, .plain name a⟩

theorem origin_parameter {ts left : List Token} {t : TypedName}
    (h : (parameter ts).outcome = .ok (t, left)) : ∃ taken, ts = taken ++ left ∧ Typed taken t := by
  rw [outcome_parameter, Outcome.andThen_eq_ok] at h
  obtain ⟨name, _, hname, h⟩ := h
  obtain ⟨_, _, hcolon, h⟩ := Outcome.andThen_eq_ok.mp h
  obtain ⟨type, _, htype, ⟨⟩⟩ := Outcome.andThen_eq_ok.mp h
  obtain ⟨c, rfl⟩ := takeLiteral_eq_ok htype
  obtain ⟨b, rfl⟩ := want_eq_ok hcolon
  obtain ⟨a, rfl⟩ := takeLiteral_eq_ok hname
  exact ⟨[_, _, _], rfl, .mk name type a b c⟩

/-- Parameters are taken with the parenthesis that closes them. -/
theorem origin_parameters {ts left : List Token} {params : List TypedName}
    (h : (parameters ts).outcome = .ok (params, left)) :
    params ≠ [] ∧ ∃ taken a, ts = taken ++ ⟨.operator .rparen, a⟩ :: left ∧ Params taken params := by
  rw [outcome_parameters, Outcome.andThen_eq_ok] at h
  obtain ⟨t, front, ht, h⟩ := h
  obtain ⟨more, _, hmore, ⟨⟩⟩ := Outcome.andThen_eq_ok.mp h
  have hlt := Reply.length_lt_of_outcome ht
  obtain ⟨taken, rfl, htyped⟩ := origin_parameter ht
  refine ⟨List.cons_ne_nil t more, ?_⟩
  rcases operator_or_other .comma front with ⟨a, rest, rfl⟩ | hother
  · obtain ⟨hne, others, b, rfl, hothers⟩ := origin_parameters hmore
    obtain ⟨s, more, rfl⟩ := List.exists_cons_of_ne_nil hne
    exact ⟨taken ++ ⟨.operator .comma, a⟩ :: others, b, by simp, .cons a htyped hothers⟩
  · rw [furtherParameters_other hother, Outcome.andThen_eq_ok] at hmore
    obtain ⟨_, _, hclose, ⟨⟩⟩ := hmore
    obtain ⟨a, rfl⟩ := want_eq_ok hclose
    exact ⟨taken, a, rfl, .last htyped⟩
termination_by ts.length
decreasing_by subst_vars; simp only [List.length_append, List.length_cons] at *; omega

theorem origin_parameterList {ts left : List Token} {params : List TypedName}
    (h : (parameterList ts).outcome = .ok (params, left)) :
    ∃ taken a, ts = taken ++ ⟨.operator .rparen, a⟩ :: left ∧ Params taken params := by
  rcases operator_or_other .rparen ts with ⟨a, rest, rfl⟩ | hparen
  · rw [outcome_parameterList_nil] at h
    cases h
    exact ⟨[], a, rfl, .none⟩
  rcases literal_or_other ts with ⟨text, a, rest, rfl⟩ | hliteral
  · rw [outcome_parameterList_literal] at h
    exact (origin_parameters h).2
  · rw [outcome_parameterList_other hparen hliteral] at h
    cases h

theorem origin_header {ts left : List Token} {head : Header}
    (h : (header ts).outcome = .ok (head, left)) :
    ∃ taken b c d e, ts = ⟨.operator .lparen, b⟩ :: taken ++ ⟨.operator .rparen, c⟩ ::
        ⟨.operator .colon, d⟩ :: ⟨.literal head.ret, e⟩ :: left ∧ Params taken head.params := by
  rw [outcome_header, Outcome.andThen_eq_ok] at h
  obtain ⟨_, _, hopen, h⟩ := h
  obtain ⟨params, _, hparams, h⟩ := Outcome.andThen_eq_ok.mp h
  obtain ⟨_, _, hcolon, h⟩ := Outcome.andThen_eq_ok.mp h
  obtain ⟨ret, _, hret, ⟨⟩⟩ := Outcome.andThen_eq_ok.mp h
  obtain ⟨e, rfl⟩ := takeLiteral_eq_ok hret
  obtain ⟨d, rfl⟩ := want_eq_ok hcolon
  obtain ⟨taken, c, rfl, horigin⟩ := origin_parameterList hparams
  obtain ⟨b, rfl⟩ := want_eq_ok hopen
  exact ⟨taken, b, c, d, e, rfl, horigin⟩

mutual

/-- So is an expression. -/
theorem origin_expression {ts left : List Token} {x : Node}
    (h : (expression ts).outcome = .ok (x, left)) : ∃ taken, ts = taken ++ left ∧ Value taken x := by
  rcases operator_or_other .lcurl ts with ⟨a, rest, rfl⟩ | hblock
  · rw [outcome_expression_block, Outcome.andThen_eq_ok] at h
    obtain ⟨body, _, hbody, ⟨⟩⟩ := h
    obtain ⟨taken, b, rfl, hstmts⟩ := origin_blockTail hbody
    exact ⟨⟨.operator .lcurl, a⟩ :: taken ++ [⟨.operator .rcurl, b⟩], by simp, .block a b hstmts⟩
  rcases operator_or_other .fn ts with ⟨a, rest, rfl⟩ | hlambda
  · rw [outcome_expression_lambda, Outcome.andThen_eq_ok] at h
    obtain ⟨head, front, hhead, h⟩ := h
    obtain ⟨_, _, hbrace, h⟩ := Outcome.andThen_eq_ok.mp h
    obtain ⟨body, _, hbody, ⟨⟩⟩ := Outcome.andThen_eq_ok.mp h
    have hltHead := Reply.length_lt_of_outcome hhead
    have hltBrace := Reply.length_lt_of_outcome hbrace
    -- The tokens are put together from the last to the first.
    obtain ⟨g, rfl⟩ := want_eq_ok hbrace
    obtain ⟨taken, k, rfl, hstmts⟩ := origin_blockTail hbody
    obtain ⟨us, b, c, d, e, rfl, hparams⟩ := origin_header hhead
    exact ⟨_, by simp, .lambda head.ret a b c d e g k hparams hstmts⟩
  by_cases hne : ts = []
  · rw [hne, outcome_expression_nil] at h
    cases h
  · rw [outcome_expression_arithmetic hne hblock hlambda] at h
    obtain ⟨taken, rfl, hoperand⟩ := origin_binary h
    exact ⟨taken, rfl, .operand hoperand⟩
termination_by 3 * ts.length
decreasing_by all_goals (subst_vars; simp only [List.length_cons]; omega)

/-- So is a statement, with its semicolon. -/
theorem origin_statement {ts left : List Token} {x : Node}
    (h : (statement ts).outcome = .ok (x, left)) :
    ∃ taken, ts = taken ++ left ∧ Origin.Statement taken x := by
  rcases operator_or_other .bind ts with ⟨a, rest, rfl⟩ | hother
  · rw [outcome_statement_binding, Outcome.andThen_eq_ok] at h
    obtain ⟨name, _, hname, h⟩ := h
    obtain ⟨_, _, hassign, h⟩ := Outcome.andThen_eq_ok.mp h
    obtain ⟨value, _, hvalue, h⟩ := Outcome.andThen_eq_ok.mp h
    obtain ⟨_, _, hclose, ⟨⟩⟩ := Outcome.andThen_eq_ok.mp h
    have hltName := Reply.length_lt_of_outcome hname
    have hltAssign := Reply.length_lt_of_outcome hassign
    obtain ⟨c, rfl⟩ := want_eq_ok hclose
    obtain ⟨vs, rfl, hvs⟩ := origin_expression hvalue
    obtain ⟨b, rfl⟩ := want_eq_ok hassign
    obtain ⟨us, rfl, hus⟩ := origin_bindingName hname
    exact ⟨_, by simp, .binding a b c hus hvs⟩
  · rw [outcome_statement_expression hother, Outcome.andThen_eq_ok] at h
    obtain ⟨value, _, hvalue, h⟩ := h
    obtain ⟨_, _, hclose, ⟨⟩⟩ := Outcome.andThen_eq_ok.mp h
    obtain ⟨a, rfl⟩ := want_eq_ok hclose
    obtain ⟨taken, rfl, hx⟩ := origin_expression hvalue
    exact ⟨taken ++ [⟨.operator .semicolon, a⟩], by simp, .value a hx⟩
termination_by 3 * ts.length + 1
decreasing_by
  · subst_vars
    simp only [List.length_cons]
    omega
  · omega

/-- Statements are taken with the brace that closes them. -/
theorem origin_blockTail {ts left : List Token} {stmts : List Node}
    (h : (blockTail ts).outcome = .ok (stmts, left)) :
    ∃ taken a, ts = taken ++ ⟨.operator .rcurl, a⟩ :: left ∧ Statements taken stmts := by
  rcases operator_or_other .rcurl ts with ⟨a, rest, rfl⟩ | hother
  · rw [outcome_blockTail_close] at h
    cases h
    exact ⟨[], a, rfl, .nil⟩
  by_cases hne : ts = []
  · rw [hne, outcome_blockTail_nil] at h
    cases h
  · rw [outcome_blockTail_statement hne hother, Outcome.andThen_eq_ok] at h
    obtain ⟨first, front, hfirst, h⟩ := h
    obtain ⟨more, _, hmore, ⟨⟩⟩ := Outcome.andThen_eq_ok.mp h
    have hlt := Reply.length_lt_of_outcome hfirst
    obtain ⟨vs, a, rfl, hvs⟩ := origin_blockTail hmore
    obtain ⟨us, rfl, hus⟩ := origin_statement hfirst
    exact ⟨us ++ vs, a, by simp, .cons hus hvs⟩
termination_by 3 * ts.length + 2

end

theorem origin_program {ts left : List Token} {stmts : List Node}
    (h : program ts = .ok (stmts, left)) : ∃ taken, ts = taken ++ left ∧ Statements taken stmts := by
  by_cases hne : ts = []
  · rw [hne, program_nil] at h
    cases h
    exact ⟨[], by simpa using hne, .nil⟩
  · rw [program_statement hne, Outcome.andThen_eq_ok] at h
    obtain ⟨first, front, hfirst, h⟩ := h
    obtain ⟨more, _, hmore, ⟨⟩⟩ := Outcome.andThen_eq_ok.mp h
    have hlt := Reply.length_lt_of_outcome hfirst
    obtain ⟨vs, rfl, hvs⟩ := origin_program hmore
    obtain ⟨us, rfl, hus⟩ := origin_statement hfirst
    exact ⟨us ++ vs, by simp, .cons hus hvs⟩
termination_by ts.length

/-- A module is made from all of its tokens, and stands at the first. -/
theorem origin_module {ts : List Token} {m : Node} (h : module ts = .ok m) :
    ∃ stmts, m = .module (frontLoc ts) stmts ∧ Statements ts stmts := by
  obtain ⟨stmts, hstmts, rfl⟩ := module_eq_ok.mp h
  obtain ⟨taken, hts, horigin⟩ := origin_program hstmts
  rw [List.append_nil] at hts
  exact ⟨stmts, rfl, hts ▸ horigin⟩

end LetFn.Parser
