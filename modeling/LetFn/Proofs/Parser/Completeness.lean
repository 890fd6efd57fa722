import LetFn.Proofs.Grammar
import LetFn.Proofs.Node.Erasure
import LetFn.Proofs.Parser.Outcome

/-!
# Whatever the grammar derives is parsed

Tokens whose words the grammar derives make a production succeed with the tree of the words, up to
locations, and leave exactly what follows them. What follows matters for arithmetic alone: it must
not be an operator that would go on with the chain.

The heart is `accepted_of_arith`, which matches the layers of the grammar with the bounds of
precedence climbing. Reading words of a layer comes to the same as climbing from their tree: the
bound may be any that the layer allows, since the operators of the words all bind tighter.
-/

namespace LetFn.Parser

open Grammar

/-! ## Arithmetic

Climbing takes operands under a bound, the grammar has one rule for each layer. `Accepted` states
for a layer what climbing does with its words, under each bound that the layer is tight enough
for. -/

/-- No operator binds tighter than the last layer, so nothing is climbed there. -/
theorem outcome_binary_atom {prec : Nat} (hprec : 3 ≤ prec) (ts : List Token) :
    (binary prec ts).outcome = (atom ts).outcome := by
  rw [outcome_binary]
  rcases (atom ts).outcome with e | ⟨x, left⟩
  · rfl
  · have hle := frontPrecedence_le left
    rw [Outcome.andThen_ok, outcome_climb_stop (by omega)]

/-- Reading `ts` under any bound of the layer comes to climbing from `x`. -/
def Climbs (l : Layer) (x : Node) (ts tail : List Token) : Prop :=
  ∀ prec ≤ l.bound,
    (binary prec (ts ++ tail)).outcome = (climb prec (frontLoc (ts ++ tail)) x tail).outcome

namespace Climbs

variable {l : Layer} {x : Node} {ts tail : List Token}

/-- In front of nothing that goes on with the chain, the words are read to their end. -/
theorem outcome (h : Climbs l x ts tail) (htail : frontPrecedence tail ≤ l.bound) :
    (binary l.bound (ts ++ tail)).outcome = .ok (x, tail) := by
  rw [h _ (Nat.le_refl _), outcome_climb_stop htail]

/-- The tightest layer is read to its end in front of anything. -/
theorem outcome_atom (h : Climbs .atom x ts tail) :
    (atom (ts ++ tail)).outcome = .ok (x, tail) := by
  rw [← outcome_binary_atom (Nat.le_refl 3)]
  exact h.outcome (frontPrecedence_le tail)

/-- What is read as an atom can be climbed from. -/
theorem of_atom (h : (atom (ts ++ tail)).outcome = .ok (x, tail)) : Climbs .atom x ts tail := by
  intro prec _
  rw [outcome_binary, h, Outcome.andThen_ok]

end Climbs

/-- Tokens with these words are read as `x`, in front of anything that binds no tighter than the
operators of the layer. -/
def Accepted (l : Layer) (ws : List Word) (x : Node) : Prop :=
  ∀ ts tail : List Token, ts.map Token.word = ws → frontPrecedence tail ≤ l.bound + 1 →
    ∃ y, y.erase = x ∧ Climbs l y ts tail

namespace Accepted

variable {l next : Layer} {ws us vs : List Word} {x y : Node}

/-- A layer is part of the next looser one. -/
theorem loosen (hnext : next.bound = l.bound + 1) (h : Accepted next ws x) : Accepted l ws x := by
  intro ts tail hts htail
  obtain ⟨y, hy, hclimbs⟩ := h ts tail hts (by omega)
  exact ⟨y, hy, fun prec hprec => hclimbs prec (by omega)⟩

/-- A chain, an operator of its layer and an operand that binds tighter. -/
theorem chain {op : Operator} (hop : op.precedence = l.bound + 1)
    (hnext : next.bound = l.bound + 1) (hx : Accepted l us x) (hy : Accepted next vs y) :
    Accepted l (us ++ .operator op :: vs) (.expression .unknown op x y) := by
  intro ts tail hts htail
  obtain ⟨ts, _, rfl, hus, hrest⟩ := List.map_eq_append_iff.mp hts
  obtain ⟨⟨_, loc⟩, rest, rfl, rfl, hvs⟩ := List.map_eq_cons_iff.mp hrest
  obtain ⟨x', rfl, hx'⟩ := hx ts (⟨.operator op, loc⟩ :: (rest ++ tail)) hus (Nat.le_of_eq hop)
  obtain ⟨y', rfl, hy'⟩ := hy rest tail hvs (by omega)
  -- Reading up to the operator comes to climbing from `x'`, and one round of climbing reads `y'`.
  refine ⟨.expression (frontLoc (ts ++ ⟨.operator op, loc⟩ :: rest ++ tail)) op x' y', by simp, ?_⟩
  intro prec hprec
  have hread := hy'.outcome (by omega)
  rw [hnext, ← hop] at hread
  rw [List.append_assoc, List.cons_append, hx' prec hprec, outcome_climb_operator (by omega),
    hread, Outcome.andThen_ok]

/-- A literal is read as it stands. -/
theorem literal (text : Bytes) : Accepted .atom [.literal text] (.literal .unknown text) := by
  intro ts tail hts _
  obtain ⟨⟨_, loc⟩, rfl, rfl⟩ := List.map_eq_singleton_iff.mp hts
  exact ⟨.literal loc text, by simp, .of_atom (outcome_atom_literal text loc tail)⟩

/-- A minus sign is read as a difference from zero. -/
theorem minus (h : Accepted .atom ws x) :
    Accepted .atom (.operator .sub :: ws)
      (.expression .unknown .sub (.literal .unknown (Text.utf8 "0")) x) := by
  intro ts tail hts htail
  obtain ⟨⟨_, loc⟩, rest, rfl, rfl, hws⟩ := List.map_eq_cons_iff.mp hts
  obtain ⟨y, rfl, hy⟩ := h rest tail hws htail
  refine ⟨.expression loc .sub (.literal loc (Text.utf8 "0")) y, by simp, .of_atom ?_⟩
  rw [List.cons_append, outcome_atom_minus, hy.outcome_atom, Outcome.andThen_ok]

/-- A plus sign is read over. -/
theorem plus (h : Accepted .atom ws x) : Accepted .atom (.operator .add :: ws) x := by
  intro ts tail hts htail
  obtain ⟨⟨_, loc⟩, rest, rfl, rfl, hws⟩ := List.map_eq_cons_iff.mp hts
  obtain ⟨y, rfl, hy⟩ := h rest tail hws htail
  refine ⟨y, rfl, .of_atom ?_⟩
  rw [List.cons_append, outcome_atom_plus, hy.outcome_atom]

theorem parens (h : Accepted .arith ws x) :
    Accepted .atom (.operator .lparen :: ws ++ [.operator .rparen]) x := by
  intro ts tail hts _
  rw [List.cons_append] at hts
  obtain ⟨⟨_, loc⟩, _, rfl, rfl, hrest⟩ := List.map_eq_cons_iff.mp hts
  obtain ⟨inner, _, rfl, hws, hclose⟩ := List.map_eq_append_iff.mp hrest
  obtain ⟨⟨_, closeLoc⟩, rfl, rfl⟩ := List.map_eq_singleton_iff.mp hclose
  obtain ⟨y, rfl, hy⟩ := h inner (⟨.operator .rparen, closeLoc⟩ :: tail) hws (Nat.zero_le _)
  refine ⟨y, rfl, .of_atom ?_⟩
  have hinner : (binary 0 (inner ++ ⟨.operator .rparen, closeLoc⟩ :: tail)).outcome = _ :=
    hy.outcome (Nat.zero_le _)
  rw [List.cons_append, List.append_assoc, List.singleton_append, outcome_atom_parens, hinner,
    Outcome.andThen_ok, outcome_want_operator, Outcome.andThen_ok]

end Accepted

/-- Words that a layer derives are read as its tree. -/
theorem accepted_of_arith {l : Layer} {ws : List Word} {x : Node} (h : Arith l ws x) :
    Accepted l ws x := by
  induction h with
  -- Each constructor has its lemma above; an operand alone only loosens the bound.
  | term _ ih | factor _ ih | atom _ ih => exact ih.loosen rfl
  | sum _ hop _ ihx ihy =>
    have hprec : ∀ op ∈ [Operator.add, .sub], op.precedence = 1 := by decide
    exact .chain (hprec _ hop) rfl ihx ihy
  | product _ hop _ ihx ihy =>
    have hprec : ∀ op ∈ [Operator.mul, .div, .mod], op.precedence = 2 := by decide
    exact .chain (hprec _ hop) rfl ihx ihy
  | power _ _ ihx ihy => exact .chain rfl rfl ihx ihy
  | literal text => exact .literal text
  | minus _ ih => exact ih.minus
  | plus _ ih => exact ih.plus
  | parens _ ih => exact ih.parens

/-! ## Names and parameters

These productions do not recurse, so the tokens are taken apart as the words are and the production
is computed on them. -/

/-- A name with its type is three tokens. -/
theorem tokens_of_typedLiteral {ws : List Word} {t : TypedName} (h : TypedLiteral ws t)
    {ts : List Token} (hts : ts.map Token.word = ws) :
    ∃ loc colonLoc typeLoc, t = TypedName.erase ⟨loc, t.name, t.type⟩ ∧
      ts = [⟨.literal t.name, loc⟩, ⟨.operator .colon, colonLoc⟩, ⟨.literal t.type, typeLoc⟩] := by
  obtain ⟨name, type⟩ := h
  obtain ⟨⟨_, loc⟩, _, rfl, rfl, hcolon⟩ := List.map_eq_cons_iff.mp hts
  obtain ⟨⟨_, colonLoc⟩, _, rfl, rfl, htype⟩ := List.map_eq_cons_iff.mp hcolon
  obtain ⟨⟨_, typeLoc⟩, rfl, rfl⟩ := List.map_eq_singleton_iff.mp htype
  exact ⟨loc, colonLoc, typeLoc, rfl, rfl⟩

/-- A parameter is read to its end, in front of anything. -/
theorem accepts_parameter {ws : List Word} {t : TypedName} (h : TypedLiteral ws t)
    {ts : List Token} (hts : ts.map Token.word = ws) (tail : List Token) :
    ∃ p, TypedName.erase p = t ∧ (parameter (ts ++ tail)).outcome = .ok (p, tail) := by
  obtain ⟨loc, colonLoc, typeLoc, ht, rfl⟩ := tokens_of_typedLiteral h hts
  refine ⟨⟨loc, t.name, t.type⟩, ht.symm, ?_⟩
  rw [outcome_parameter]
  rfl

/-- A bound name is read to its end, unless a colon follows it. -/
theorem accepts_bindingName {ws : List Word} {x : Node} (h : BindingName ws x)
    {ts : List Token} (hts : ts.map Token.word = ws) (tail : List Token)
    (htail : ∀ token ∈ tail.head?, token.word ≠ .operator .colon) :
    ∃ y, y.erase = x ∧ (bindingName (ts ++ tail)).outcome = .ok (y, tail) := by
  cases h with
  | plain name =>
    obtain ⟨⟨_, loc⟩, rfl, rfl⟩ := List.map_eq_singleton_iff.mp hts
    refine ⟨.literal loc name, by simp, ?_⟩
    rw [outcome_bindingName, List.singleton_append, outcome_takeLiteral, Outcome.andThen_ok,
      typePart_other htail]
    rfl
  | @typed _ t h =>
    obtain ⟨loc, colonLoc, typeLoc, ht, rfl⟩ := tokens_of_typedLiteral h hts
    refine ⟨.typed ⟨loc, t.name, t.type⟩, by rw [Node.erase_typed, ← ht], ?_⟩
    rw [outcome_bindingName]
    rfl

/-- Parameters are read up to the closing parenthesis. -/
theorem accepts_parameters {ws : List Word} {ps : List TypedName} (h : ParamList ws ps) :
    ∀ {ts : List Token} {loc : Location} {tail : List Token}, ts.map Token.word = ws →
      ∃ params : List TypedName, params.map TypedName.erase = ps ∧
        (parameters (ts ++ ⟨.operator .rparen, loc⟩ :: tail)).outcome = .ok (params, tail) := by
  induction h with
  | last h =>
    intro ts loc tail hts
    obtain ⟨p, rfl, hp⟩ := accepts_parameter h hts (⟨.operator .rparen, loc⟩ :: tail)
    refine ⟨[p], rfl, ?_⟩
    rw [outcome_parameters, hp, Outcome.andThen_ok, furtherParameters_other (by simp),
      outcome_want_operator]
    rfl
  | cons h _ ih =>
    intro ts loc tail hts
    obtain ⟨ts, _, rfl, hus, hrest⟩ := List.map_eq_append_iff.mp hts
    obtain ⟨⟨_, commaLoc⟩, rest, rfl, rfl, hvs⟩ := List.map_eq_cons_iff.mp hrest
    obtain ⟨p, rfl, hp⟩ := accepts_parameter h hus
      (⟨.operator .comma, commaLoc⟩ :: (rest ++ ⟨.operator .rparen, loc⟩ :: tail))
    obtain ⟨params, rfl, hparams⟩ := ih hvs
    refine ⟨p :: params, rfl, ?_⟩
    rw [outcome_parameters, List.append_assoc, List.cons_append, hp, Outcome.andThen_ok,
      furtherParameters, hparams]
    rfl

/-- Where parameters are read, the list is not taken to be empty. -/
theorem parameterList_of_parameters {ts left : List Token} {params : List TypedName}
    (h : (parameters ts).outcome = .ok (params, left)) :
    (parameterList ts).outcome = .ok (params, left) := by
  rcases literal_or_other ts with ⟨text, loc, rest, rfl⟩ | hother
  · rw [outcome_parameterList_literal, h]
  · rw [outcome_parameters, outcome_parameter, outcome_takeLiteral_other .name hother] at h
    cases h

/-- A list of parameters is read with its closing parenthesis, and an empty list as well. -/
theorem accepts_parameterList {ws : List Word} {ps : List TypedName} (h : Params ws ps)
    {ts : List Token} {loc : Location} {tail : List Token} (hts : ts.map Token.word = ws) :
    ∃ params : List TypedName, params.map TypedName.erase = ps ∧
      (parameterList (ts ++ ⟨.operator .rparen, loc⟩ :: tail)).outcome = .ok (params, tail) := by
  cases h with
  | none =>
    cases List.map_eq_nil_iff.mp hts
    exact ⟨[], rfl, outcome_parameterList_nil loc tail⟩
  | some h =>
    obtain ⟨params, hps, hparams⟩ := accepts_parameters h hts
    exact ⟨params, hps, parameterList_of_parameters hparams⟩

/-- The parameters and the type of a function are read up to its body. -/
theorem accepts_header {ws : List Word} {ps : List TypedName} (h : Params ws ps)
    {ts : List Token} (hts : ts.map Token.word = ws) (ret : Bytes)
    (openLoc closeLoc colonLoc retLoc : Location) (tail : List Token) :
    ∃ params : List TypedName, params.map TypedName.erase = ps ∧
      (header (⟨.operator .lparen, openLoc⟩ :: (ts ++ ⟨.operator .rparen, closeLoc⟩ ::
        ⟨.operator .colon, colonLoc⟩ :: ⟨.literal ret, retLoc⟩ :: tail))).outcome =
      .ok (⟨params, ret⟩, tail) := by
  obtain ⟨params, hps, hparams⟩ := accepts_parameterList h hts
  refine ⟨params, hps, ?_⟩
  rw [outcome_header, outcome_want_operator, Outcome.andThen_ok, hparams]
  rfl

/-! ## Statements

The theorems follow the rules of the grammar, one for each, and are proved together since
expressions, functions, blocks and statements hold each other. -/

/-- No arithmetic begins with a word that opens no operand. -/
theorem binary_refuses {prec : Nat} {ts : List Token} {r : Node × List Token}
    (h : ∀ token ∈ ts.head?, opensOperand token.word = false) :
    (binary prec ts).outcome ≠ .ok r := by
  rw [outcome_binary, outcome_atom_other h]
  intro hok
  cases hok

/-- No expression begins with `let` or with a closing brace. -/
theorem expression_refuses {op : Operator} (hop : op ∈ [Operator.bind, .rcurl]) {loc : Location}
    {rest : List Token} {r : Node × List Token} :
    (expression (⟨.operator op, loc⟩ :: rest)).outcome ≠ .ok r := by
  have hword : op ≠ .lcurl ∧ op ≠ .fn ∧ opensOperand (.operator op) = false := by
    revert hop
    revert op
    decide
  rw [outcome_expression_arithmetic (by simp) (by simpa using hword.1) (by simpa using hword.2.1)]
  exact binary_refuses (by simpa using hword.2.2)

/-- So tokens that are read as an expression begin with neither. -/
theorem word_ne_of_expression {op : Operator} (hop : op ∈ [Operator.bind, .rcurl])
    {ts : List Token} {r : Node × List Token} (h : (expression ts).outcome = .ok r) :
    ∀ token ∈ ts.head?, token.word ≠ .operator op := by
  rcases operator_or_other op ts with ⟨loc, rest, rfl⟩ | hother
  · exact absurd h (expression_refuses hop)
  · exact hother

/-- A statement begins with some word, and not with a closing brace. -/
theorem front_of_statement {ts : List Token} {r : Node × List Token}
    (h : (statement ts).outcome = .ok r) :
    ts ≠ [] ∧ ∀ token ∈ ts.head?, token.word ≠ .operator .rcurl := by
  -- A statement that begins with `let` begins with no brace; any other is an expression.
  rcases operator_or_other .bind ts with ⟨loc, rest, rfl⟩ | hother
  · simp
  rw [outcome_statement_expression hother] at h
  rcases hvalue : (expression ts).outcome with e | value
  · rw [hvalue] at h
    cases h
  refine ⟨?_, word_ne_of_expression (by simp) hvalue⟩
  rintro rfl
  rw [outcome_expression_nil] at hvalue
  cases hvalue

mutual

/-- An expression is read to its end, unless an operator of arithmetic follows it. -/
theorem accepts_expression : ∀ {ws : List Word} {x : Node}, Expression ws x →
    ∀ (ts tail : List Token), ts.map Token.word = ws → frontPrecedence tail = 0 →
      ∃ y, y.erase = x ∧ (expression (ts ++ tail)).outcome = .ok (y, tail)
  | _, _, .block h, ts, tail, hts, _ => by
    obtain ⟨loc, rest, body, rfl, rfl, hbody⟩ := accepts_block h ts tail hts
    refine ⟨.block loc body, by simp, ?_⟩
    rw [List.cons_append, outcome_expression_block, hbody, Outcome.andThen_ok]
  | _, _, .lambda h, ts, tail, hts, _ => accepts_lambda h ts tail hts
  | _, _, .arith h, ts, tail, hts, htail => by
    obtain ⟨y, hy, hclimbs⟩ := accepted_of_arith h ts tail hts (by omega)
    have hread : (binary 0 (ts ++ tail)).outcome = .ok (y, tail) :=
      hclimbs.outcome (Nat.le_of_eq htail)
    refine ⟨y, hy, ?_⟩
    -- Arithmetic was read, so what is in front begins an operand, no block and no function.
    rcases operand_or_other (ts ++ tail) with
      ⟨_, _, _, hfront⟩ | ⟨_, _, hfront⟩ | ⟨_, _, hfront⟩ | ⟨_, _, hfront⟩ | hother
    case inr.inr.inr.inr => exact absurd hread (binary_refuses hother)
    all_goals
      rw [← hread, hfront]
      exact outcome_expression_arithmetic (by simp) (by simp) (by simp)

/-- A function is read to its end, in front of anything: it ends with a brace. -/
theorem accepts_lambda : ∀ {ws : List Word} {x : Node}, Lambda ws x →
    ∀ (ts tail : List Token), ts.map Token.word = ws →
      ∃ y, y.erase = x ∧ (expression (ts ++ tail)).outcome = .ok (y, tail)
  | _, _, .mk ret hparams hbody, ts, tail, hts => by
    -- Take the tokens apart as the words stand in the rule.
    obtain ⟨_, _, rfl, hhead, hrest⟩ := List.map_eq_append_iff.mp hts
    obtain ⟨⟨_, loc⟩, _, rfl, rfl, hopen⟩ := List.map_eq_cons_iff.mp hhead
    obtain ⟨⟨_, openLoc⟩, us, rfl, rfl, hus⟩ := List.map_eq_cons_iff.mp hopen
    obtain ⟨⟨_, closeLoc⟩, _, rfl, rfl, hcolon⟩ := List.map_eq_cons_iff.mp hrest
    obtain ⟨⟨_, colonLoc⟩, _, rfl, rfl, hret⟩ := List.map_eq_cons_iff.mp hcolon
    obtain ⟨⟨_, retLoc⟩, vs, rfl, rfl, hvs⟩ := List.map_eq_cons_iff.mp hret
    obtain ⟨bodyLoc, rest, body, rfl, rfl, hblock⟩ := accepts_block hbody vs tail hvs
    obtain ⟨params, rfl, hheader⟩ := accepts_header hparams hus ret openLoc closeLoc colonLoc retLoc
      (⟨.operator .lcurl, bodyLoc⟩ :: (rest ++ tail))
    refine ⟨.lambda loc ret params bodyLoc body, by simp, ?_⟩
    rw [List.append_assoc]
    simp only [List.cons_append]
    rw [outcome_expression_lambda, hheader, Outcome.andThen_ok, outcome_want_operator,
      Outcome.andThen_ok, hblock]
    rfl

/-- A block is read from its opening brace to its closing one. -/
theorem accepts_block : ∀ {ws : List Word} {stmts : List Node}, Block ws stmts →
    ∀ (ts tail : List Token), ts.map Token.word = ws →
      ∃ loc rest body, ts = ⟨.operator .lcurl, loc⟩ :: rest ∧ Node.eraseAll body = stmts ∧
        (blockTail (rest ++ tail)).outcome = .ok (body, tail)
  | _, _, .mk h, ts, tail, hts => by
    obtain ⟨_, _, rfl, hhead, hclose⟩ := List.map_eq_append_iff.mp hts
    obtain ⟨⟨_, loc⟩, inner, rfl, rfl, hinner⟩ := List.map_eq_cons_iff.mp hhead
    obtain ⟨⟨_, closeLoc⟩, rfl, rfl⟩ := List.map_eq_singleton_iff.mp hclose
    obtain ⟨body, hbody, hread⟩ := accepts_blockTail h inner closeLoc tail hinner
    refine ⟨loc, inner ++ [⟨.operator .rcurl, closeLoc⟩], body, rfl, hbody, ?_⟩
    rw [List.append_assoc, List.singleton_append, hread]

/-- A binding is read with its semicolon. -/
theorem accepts_assignment : ∀ {ws : List Word} {x : Node}, Assignment ws x →
    ∀ (ts : List Token) (endLoc : Location) (tail : List Token), ts.map Token.word = ws →
      ∃ y, y.erase = x ∧
        (statement (ts ++ ⟨.operator .semicolon, endLoc⟩ :: tail)).outcome = .ok (y, tail)
  | _, _, .mk hname hvalue, ts, endLoc, tail, hts => by
    obtain ⟨_, _, rfl, hhead, hassign⟩ := List.map_eq_append_iff.mp hts
    obtain ⟨⟨_, loc⟩, us, rfl, rfl, hus⟩ := List.map_eq_cons_iff.mp hhead
    obtain ⟨⟨_, assignLoc⟩, vs, rfl, rfl, hvs⟩ := List.map_eq_cons_iff.mp hassign
    obtain ⟨x, rfl, hx⟩ := accepts_bindingName hname hus
      (⟨.operator .assign, assignLoc⟩ :: (vs ++ ⟨.operator .semicolon, endLoc⟩ :: tail)) (by simp)
    obtain ⟨y, rfl, hy⟩ := accepts_expression hvalue vs (⟨.operator .semicolon, endLoc⟩ :: tail)
      hvs rfl
    refine ⟨.expression loc .bind x y, by simp, ?_⟩
    rw [List.append_assoc]
    simp only [List.cons_append]
    rw [outcome_statement_binding, hx, Outcome.andThen_ok, outcome_want_operator,
      Outcome.andThen_ok, hy, Outcome.andThen_ok, outcome_want_operator]
    rfl

/-- A statement is read to its end, in front of anything. -/
theorem accepts_statement : ∀ {ws : List Word} {x : Node}, Statement ws x →
    ∀ (ts tail : List Token), ts.map Token.word = ws →
      ∃ y, y.erase = x ∧ (statement (ts ++ tail)).outcome = .ok (y, tail)
  | _, _, .assignment h, ts, tail, hts => by
    obtain ⟨us, _, rfl, hus, hend⟩ := List.map_eq_append_iff.mp hts
    obtain ⟨⟨_, endLoc⟩, rfl, rfl⟩ := List.map_eq_singleton_iff.mp hend
    rw [List.append_assoc, List.singleton_append]
    -- The semicolon of a binding is taken by the statement itself.
    exact accepts_assignment h us endLoc tail hus
  | _, _, .expression h, ts, tail, hts => by
    obtain ⟨us, _, rfl, hus, hend⟩ := List.map_eq_append_iff.mp hts
    obtain ⟨⟨_, endLoc⟩, rfl, rfl⟩ := List.map_eq_singleton_iff.mp hend
    obtain ⟨y, hy, hread⟩ := accepts_expression h us (⟨.operator .semicolon, endLoc⟩ :: tail)
      hus rfl
    refine ⟨y, hy, ?_⟩
    rw [List.append_assoc, List.singleton_append,
      outcome_statement_expression (word_ne_of_expression (by simp) hread), hread,
      Outcome.andThen_ok, outcome_want_operator]
    rfl

/-- The statements of a block are read up to the closing brace. -/
theorem accepts_blockTail : ∀ {ws : List Word} {stmts : List Node}, Statements ws stmts →
    ∀ (ts : List Token) (loc : Location) (tail : List Token), ts.map Token.word = ws →
      ∃ body, Node.eraseAll body = stmts ∧
        (blockTail (ts ++ ⟨.operator .rcurl, loc⟩ :: tail)).outcome = .ok (body, tail)
  | _, _, .nil, ts, loc, tail, hts => by
    cases List.map_eq_nil_iff.mp hts
    exact ⟨[], rfl, outcome_blockTail_close loc tail⟩
  | _, _, .cons hx hmore, ts, loc, tail, hts => by
    obtain ⟨us, vs, rfl, hus, hvs⟩ := List.map_eq_append_iff.mp hts
    obtain ⟨x, rfl, hread⟩ := accepts_statement hx us (vs ++ ⟨.operator .rcurl, loc⟩ :: tail) hus
    obtain ⟨more, rfl, hrest⟩ := accepts_blockTail hmore vs loc tail hvs
    obtain ⟨hne, hfront⟩ := front_of_statement hread
    refine ⟨x :: more, by simp, ?_⟩
    rw [List.append_assoc, outcome_blockTail_statement hne hfront, hread, Outcome.andThen_ok, hrest]
    rfl

end

/-- Statements are read up to the end of input. -/
theorem accepts_program : ∀ {ws : List Word} {stmts : List Node}, Statements ws stmts →
    ∀ ts : List Token, ts.map Token.word = ws →
      ∃ parsed, Node.eraseAll parsed = stmts ∧ program ts = .ok (parsed, [])
  | _, _, .nil, ts, hts => by
    cases List.map_eq_nil_iff.mp hts
    exact ⟨[], rfl, program_nil⟩
  | _, _, .cons hx hmore, ts, hts => by
    -- The first statement leaves the tokens of the others, which are read by induction.
    obtain ⟨us, vs, rfl, hus, hvs⟩ := List.map_eq_append_iff.mp hts
    obtain ⟨x, rfl, hread⟩ := accepts_statement hx us vs hus
    obtain ⟨more, rfl, hrest⟩ := accepts_program hmore vs hvs
    refine ⟨x :: more, by simp, ?_⟩
    rw [program_statement (front_of_statement hread).1, hread, Outcome.andThen_ok, hrest]
    rfl

/-- Tokens whose words make up a module are parsed as its tree. -/
theorem module_of_derives {ts : List Token} {t : Node} (h : Module (ts.map Token.word) t) :
    ∃ m, module ts = .ok m ∧ m.erase = t := by
  obtain ⟨hstmts⟩ := h
  obtain ⟨parsed, rfl, hread⟩ := accepts_program hstmts ts rfl
  exact ⟨.module (frontLoc ts) parsed, module_eq_ok.mpr ⟨parsed, hread, rfl⟩, by simp⟩

end LetFn.Parser
