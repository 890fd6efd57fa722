import LetFn.Proofs.Parser.Outcome

/-!
# One token of lookahead

A production decides by the tokens it takes and by the one in front of what it leaves, and by
nothing behind that one: `LooksOneAhead`. So whatever it answers it would answer again if the rest
of the source were exchanged, as long as the same token, or the same end, stands in front.

The property passes along chains of productions (`LooksOneAhead.andThen`), and a branch is taken by
the token in front (`LooksOneAhead.congr_front`). Each production has it by these two rules, in the
order of the grammar.
-/

namespace LetFn.Parser

variable {α β : Type}

/-- The production takes some tokens of `ts`, and gives the same verdict in front of all tokens
that begin as those it leaves. -/
def LooksOneAhead (p : List Token → Outcome α) (ts : List Token) : Prop :=
  ∃ taken, ts = taken ++ (p ts).rest ∧
    ∀ left, left.head? = (p ts).rest.head? → p (taken ++ left) = (p ts).leaving left

namespace LooksOneAhead

/-- Exchanging what is left does not change the token in front of the whole. -/
theorem head?_append_congr {taken left rest : List Token} (h : left.head? = rest.head?) :
    (taken ++ left).head? = (taken ++ rest).head? := by
  rw [List.head?_append, List.head?_append, h]

theorem ne_nil_of_head?_eq {us ts : List Token} (h : us.head? = ts.head?) (hne : ts ≠ []) :
    us ≠ [] := by
  rintro rfl
  exact hne (List.head?_eq_none_iff.mp h.symm)

/-! ## Rules

Four rules are enough: a production that stops, one that takes the token in front, one that branches
by it, and a chain of two. -/

theorem pure (x : α) (ts : List Token) : LooksOneAhead (fun ts => .ok (x, ts)) ts :=
  ⟨[], rfl, fun _ _ => rfl⟩

/-- Two productions that agree wherever the same token is in front. -/
theorem congr_front {p q : List Token → Outcome α} {ts : List Token}
    (h : ∀ us, us.head? = ts.head? → p us = q us) (hq : LooksOneAhead q ts) :
    LooksOneAhead p ts := by
  obtain ⟨taken, hts, hleft⟩ := hq
  have hpq : p ts = q ts := h ts rfl
  refine ⟨taken, by rw [hpq]; exact hts, ?_⟩
  intro left hfront
  rw [hpq] at hfront ⊢
  rw [h _ (by rw [head?_append_congr hfront, ← hts]), hleft left hfront]

/-- A failure in front of all tokens that begin as these do. -/
theorem stop {p : List Token → Outcome α} {ts : List Token} (expected : Expected)
    (h : ∀ us, us.head? = ts.head? → p us = .error ⟨expected, us⟩) : LooksOneAhead p ts :=
  congr_front h ⟨[], rfl, fun _ _ => rfl⟩

/-- A production that takes the token in front and goes on as `q`. -/
theorem cons {p q : List Token → Outcome α} {token : Token} {rest : List Token}
    (h : ∀ rest, p (token :: rest) = q rest) (hq : LooksOneAhead q rest) :
    LooksOneAhead p (token :: rest) := by
  obtain ⟨taken, hrest, hleft⟩ := hq
  refine ⟨token :: taken, ?_, ?_⟩
  · rw [h, List.cons_append, ← hrest]
  · intro left hfront
    rw [h] at hfront ⊢
    rw [List.cons_append, h, hleft left hfront]

/-- Chains: the first production looks at most at the front of what the second one gets. The second
may look back at the token in front of the whole. -/
theorem andThen {p : List Token → Outcome α} {q : List Token → α → List Token → Outcome β}
    {ts : List Token} (hp : LooksOneAhead p ts)
    (hq : ∀ x left, p ts = .ok (x, left) → LooksOneAhead (q ts x) left)
    (hfront : ∀ us, us.head? = ts.head? → q us = q ts) :
    LooksOneAhead (fun ts => (p ts).andThen (q ts)) ts := by
  obtain ⟨taken, hts, hleft⟩ := hp
  -- If the first fails, what it leaves is what the chain leaves; if not, the second goes on there.
  rcases hp : p ts with e | ⟨x, rest⟩
  · simp only [LooksOneAhead, hp, Outcome.andThen_error, Outcome.rest] at hts hleft ⊢
    refine ⟨taken, hts, ?_⟩
    intro left hleftFront
    rw [hleft left hleftFront]
    rfl
  · simp only [LooksOneAhead, hp, Outcome.andThen_ok, Outcome.rest] at hts hleft ⊢
    obtain ⟨more, hrest, hmore⟩ := hq x rest hp
    refine ⟨taken ++ more, ?_, ?_⟩
    · rw [List.append_assoc]
      exact hrest ▸ hts
    · intro left hleftFront
      have hnext : (more ++ left).head? = rest.head? := by
        rw [head?_append_congr hleftFront]
        exact congrArg List.head? hrest.symm
      have hwhole : (taken ++ (more ++ left)).head? = ts.head? := by
        rw [head?_append_congr hnext, ← hts]
      rw [List.append_assoc, hleft _ hnext, hfront _ hwhole]
      exact hmore left hleftFront

/-- Chains whose second production does not look back. -/
theorem andThen_const {p : List Token → Outcome α} {q : α → List Token → Outcome β}
    {ts : List Token} (hp : LooksOneAhead p ts)
    (hq : ∀ x left, p ts = .ok (x, left) → LooksOneAhead (q x) left) :
    LooksOneAhead (fun ts => (p ts).andThen q) ts :=
  andThen hp hq fun _ _ => rfl

end LooksOneAhead

open LooksOneAhead

/-! ## Single tokens -/

theorem looksOneAhead_want (op : Operator) (expected : Expected) (ts : List Token) :
    LooksOneAhead (fun ts => (want op expected ts).outcome) ts := by
  rcases operator_or_other op ts with ⟨loc, rest, rfl⟩ | hother
  · exact cons (outcome_want_operator op expected loc) (pure () rest)
  · refine stop expected fun us hus => outcome_want_other expected ?_
    rw [hus]
    exact hother

theorem looksOneAhead_takeLiteral (expected : Expected) (ts : List Token) :
    LooksOneAhead (fun ts => (takeLiteral expected ts).outcome) ts := by
  rcases literal_or_other ts with ⟨text, loc, rest, rfl⟩ | hother
  · exact cons (outcome_takeLiteral expected text loc) (pure text rest)
  · refine stop expected fun us hus => outcome_takeLiteral_other expected ?_
    rw [hus]
    exact hother

/-! ## Arithmetic

Whether a chain goes on is decided by the operator in front, and that is looked at and may be
left. -/

mutual

theorem looksOneAhead_atom (ts : List Token) : LooksOneAhead (fun ts => (atom ts).outcome) ts := by
  rcases operand_or_other ts with
    ⟨text, loc, rest, rfl⟩ | ⟨loc, rest, rfl⟩ | ⟨loc, rest, rfl⟩ | ⟨loc, rest, rfl⟩ | hother
  · exact cons (outcome_atom_literal text loc) (pure _ rest)
  · refine cons (outcome_atom_minus loc) (andThen_const (looksOneAhead_atom rest) ?_)
    intro x left _
    exact pure _ left
  · exact cons (outcome_atom_plus loc) (looksOneAhead_atom rest)
  · refine cons (outcome_atom_parens loc) (andThen_const (looksOneAhead_binary 0 rest) ?_)
    intro x left _
    exact andThen_const (looksOneAhead_want .rparen .closeParen left) fun _ left _ => pure x left
  · refine stop .operand fun us hus => outcome_atom_other ?_
    rw [hus]
    exact hother
termination_by 2 * ts.length

theorem looksOneAhead_binary (prec : Nat) (ts : List Token) :
    LooksOneAhead (fun ts => (binary prec ts).outcome) ts := by
  rw [funext (outcome_binary prec)]
  refine andThen (looksOneAhead_atom ts) ?_ ?_
  · intro x left hx
    have hlt := Reply.length_lt_of_outcome hx
    exact looksOneAhead_climb prec (frontLoc ts) x left
  · intro us hus
    rw [frontLoc_congr hus]
termination_by 2 * ts.length + 1

theorem looksOneAhead_climb (prec : Nat) (loc : Location) (x : Node) (ts : List Token) :
    LooksOneAhead (fun ts => (climb prec loc x ts).outcome) ts := by
  rcases tighter_or_stop prec ts with ⟨op, opLoc, rest, rfl, hop⟩ | hstop
  · refine cons (outcome_climb_operator hop loc opLoc x) ?_
    refine andThen_const (looksOneAhead_binary op.precedence rest) ?_
    intro y left hy
    have hlt := Reply.length_lt_of_outcome hy
    exact looksOneAhead_climb prec loc (.expression loc op x y) left
  · refine congr_front (fun us hus => outcome_climb_stop ?_ loc x) (pure x ts)
    rw [frontPrecedence_congr hus]
    exact hstop
termination_by 2 * ts.length
decreasing_by all_goals (subst_vars; simp only [List.length_cons]; omega)

end

/-! ## Names and parameters

A colon or a comma in front decides whether a type or another parameter follows. -/

theorem looksOneAhead_typePart (ts : List Token) : LooksOneAhead typePart ts := by
  rcases operator_or_other .colon ts with ⟨loc, rest, rfl⟩ | hother
  · refine cons (fun _ => rfl) (andThen_const (looksOneAhead_takeLiteral .typeName rest) ?_)
    intro type left _
    exact pure (some type) left
  · refine congr_front (fun us hus => typePart_other ?_) (pure none ts)
    rw [hus]
    exact hother

theorem looksOneAhead_bindingName (ts : List Token) :
    LooksOneAhead (fun ts => (bindingName ts).outcome) ts := by
  rw [funext outcome_bindingName]
  refine andThen (looksOneAhead_takeLiteral .name ts) ?_ ?_
  · intro name left _
    exact andThen_const (looksOneAhead_typePart left) fun type left _ => pure _ left
  · intro us hus
    rw [frontLoc_congr hus]

theorem looksOneAhead_parameter (ts : List Token) :
    LooksOneAhead (fun ts => (parameter ts).outcome) ts := by
  rw [funext outcome_parameter]
  refine andThen (looksOneAhead_takeLiteral .name ts) ?_ ?_
  · intro name left _
    refine andThen_const (looksOneAhead_want .colon .typeColon left) ?_
    intro _ left _
    exact andThen_const (looksOneAhead_takeLiteral .typeName left) fun type left _ => pure _ left
  · intro us hus
    rw [frontLoc_congr hus]

theorem looksOneAhead_parameters (ts : List Token) :
    LooksOneAhead (fun ts => (parameters ts).outcome) ts := by
  rw [funext outcome_parameters]
  refine andThen_const (looksOneAhead_parameter ts) ?_
  intro p left hp
  have hlt := Reply.length_lt_of_outcome hp
  refine andThen_const ?_ fun more left _ => pure (p :: more) left
  rcases operator_or_other .comma left with ⟨loc, rest, rfl⟩ | hother
  · exact cons (fun _ => rfl) (looksOneAhead_parameters rest)
  · refine congr_front (fun us hus => furtherParameters_other ?_)
      (andThen_const (looksOneAhead_want .rparen .moreParameters left) fun _ left _ => pure [] left)
    rw [hus]
    exact hother
termination_by ts.length
decreasing_by simp only [List.length_cons] at hlt; omega

theorem looksOneAhead_parameterList (ts : List Token) :
    LooksOneAhead (fun ts => (parameterList ts).outcome) ts := by
  rcases operator_or_other .rparen ts with ⟨loc, rest, rfl⟩ | hparen
  · exact cons (outcome_parameterList_nil loc) (pure [] rest)
  rcases literal_or_other ts with ⟨text, loc, rest, rfl⟩ | hliteral
  · refine congr_front ?_ (looksOneAhead_parameters (⟨.literal text, loc⟩ :: rest))
    intro us hus
    obtain ⟨more, rfl⟩ := List.head?_eq_some_iff.mp hus
    exact outcome_parameterList_literal text loc more
  · refine stop .parameter fun us hus => ?_
    rw [← hus] at hparen hliteral
    exact outcome_parameterList_other hparen hliteral

theorem looksOneAhead_header (ts : List Token) :
    LooksOneAhead (fun ts => (header ts).outcome) ts := by
  rw [funext outcome_header]
  refine andThen_const (looksOneAhead_want .lparen .openParen ts) fun _ left _ => ?_
  refine andThen_const (looksOneAhead_parameterList left) fun params left _ => ?_
  refine andThen_const (looksOneAhead_want .colon .returnColon left) fun _ left _ => ?_
  exact andThen_const (looksOneAhead_takeLiteral .returnType left) fun ret left _ => pure _ left

/-! ## Statements

A block looks at the token in front of each statement, and ends with a brace that it takes. -/

/-- The end of a statement, which closes it. -/
theorem looksOneAhead_semicolon {x : α} (ts : List Token) :
    LooksOneAhead (fun ts => (want .semicolon .semicolon ts).outcome.andThen fun _ left =>
      .ok (x, left)) ts :=
  andThen_const (looksOneAhead_want .semicolon .semicolon ts) fun _ left _ => pure x left

mutual

theorem looksOneAhead_expression (ts : List Token) :
    LooksOneAhead (fun ts => (expression ts).outcome) ts := by
  -- Each branch is taken by the token in front, which stays when the rest is exchanged.
  rcases operator_or_other .lcurl ts with ⟨loc, rest, rfl⟩ | hblock
  · refine cons (outcome_expression_block loc) (andThen_const (looksOneAhead_blockTail rest) ?_)
    intro body left _
    exact pure _ left
  rcases operator_or_other .fn ts with ⟨loc, rest, rfl⟩ | hlambda
  · refine cons (outcome_expression_lambda loc) (andThen_const (looksOneAhead_header rest) ?_)
    intro head front hhead
    have hltHead := Reply.length_lt_of_outcome hhead
    refine andThen (looksOneAhead_want .lcurl .openBrace front) ?_ ?_
    · intro _ left hbrace
      have hltBrace := Reply.length_lt_of_outcome hbrace
      exact andThen_const (looksOneAhead_blockTail left) fun body left _ => pure _ left
    -- The location of the body is that of the token in front.
    · intro us hus
      rw [frontLoc_congr hus]
  by_cases hne : ts = []
  · refine stop .expression fun us hus => ?_
    rw [hne] at hus
    rw [List.head?_eq_none_iff.mp hus]
    exact outcome_expression_nil
  · refine congr_front ?_ (looksOneAhead_binary 0 ts)
    intro us hus
    rw [← hus] at hblock hlambda
    exact outcome_expression_arithmetic (ne_nil_of_head?_eq hus hne) hblock hlambda
termination_by 3 * ts.length
decreasing_by all_goals (subst_vars; simp only [List.length_cons]; omega)

theorem looksOneAhead_statement (ts : List Token) :
    LooksOneAhead (fun ts => (statement ts).outcome) ts := by
  rcases operator_or_other .bind ts with ⟨loc, rest, rfl⟩ | hother
  · refine cons (outcome_statement_binding loc) ?_
    refine andThen_const (looksOneAhead_bindingName rest) fun name left hname => ?_
    refine andThen_const (looksOneAhead_want .assign .assignment left) fun _ left hassign => ?_
    have hltName := Reply.length_lt_of_outcome hname
    have hltAssign := Reply.length_lt_of_outcome hassign
    refine andThen_const (looksOneAhead_expression left) fun value left _ => ?_
    exact looksOneAhead_semicolon left
  · refine congr_front (fun us hus => outcome_statement_expression (by rw [hus]; exact hother)) ?_
    exact andThen_const (looksOneAhead_expression ts) fun value left _ =>
      looksOneAhead_semicolon left
termination_by 3 * ts.length + 1
decreasing_by
  · subst_vars
    simp only [List.length_cons]
    omega
  · omega

theorem looksOneAhead_blockTail (ts : List Token) :
    LooksOneAhead (fun ts => (blockTail ts).outcome) ts := by
  rcases operator_or_other .rcurl ts with ⟨loc, rest, rfl⟩ | hother
  · exact cons (outcome_blockTail_close loc) (pure [] rest)
  by_cases hne : ts = []
  · refine stop .statement fun us hus => ?_
    rw [hne] at hus
    rw [List.head?_eq_none_iff.mp hus]
    exact outcome_blockTail_nil
  · refine congr_front (fun us hus => outcome_blockTail_statement (ne_nil_of_head?_eq hus hne)
      (by rw [hus]; exact hother)) ?_
    refine andThen_const (looksOneAhead_statement ts) fun first left hfirst => ?_
    have hlt := Reply.length_lt_of_outcome hfirst
    exact andThen_const (looksOneAhead_blockTail left) fun more left _ => pure _ left
termination_by 3 * ts.length + 2

end

/-- A whole source is judged by the tokens up to the first unexpected one. -/
theorem looksOneAhead_program (ts : List Token) : LooksOneAhead program ts := by
  by_cases hne : ts = []
  · refine congr_front (fun us hus => ?_) (pure [] ts)
    rw [hne] at hus
    rw [List.head?_eq_none_iff.mp hus]
    exact program_nil
  · refine congr_front (fun us hus => program_statement (ne_nil_of_head?_eq hus hne)) ?_
    refine andThen_const (looksOneAhead_statement ts) fun first left hfirst => ?_
    have hlt := Reply.length_lt_of_outcome hfirst
    exact andThen_const (looksOneAhead_program left) fun more left _ => pure _ left
termination_by ts.length
decreasing_by exact hlt

/-- Whatever follows an unexpected token, it stays unexpected. -/
theorem module_error_of_stuck {taken rest : List Token} {token : Token} {expected : Expected}
    (h : module (taken ++ token :: rest) = .error ⟨expected, token :: rest⟩) (other : List Token) :
    module (taken ++ token :: other) = .error ⟨expected, token :: other⟩ := by
  rw [module_eq_error] at h ⊢
  obtain ⟨_, htaken, hleft⟩ := looksOneAhead_program (taken ++ token :: rest)
  rw [h] at htaken hleft
  obtain rfl := List.append_cancel_right htaken
  exact hleft (token :: other) rfl

end LetFn.Parser
