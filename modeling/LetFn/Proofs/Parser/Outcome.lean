import LetFn.Parser.Statement

/-!
# What a production does to the tokens

A production's answer carries the bound on what it leaves, which its callers need to terminate and
nobody else does. `Reply.outcome` forgets the bound. Seen that way a production is a plain function
`List Token → Outcome α`, and every production is a chain of smaller ones: `Outcome.andThen` hands
the value and the tokens left to the next.

The equations below, one for each way a production can begin, are all that the later modules use;
none of them unfolds a production again.
-/

namespace LetFn.Parser

/-- A value and the tokens left, or what was expected in front of which tokens. -/
abbrev Outcome (α : Type) := Except Failed (α × List Token)

namespace Outcome

variable {α β γ : Type}

/-- Goes on with the value and the tokens left; a failure stays what it is. -/
def andThen (o : Outcome α) (f : α → List Token → Outcome β) : Outcome β :=
  match o with
  | .ok (x, rest) => f x rest
  | .error e => .error e

@[simp] theorem andThen_ok (x : α) (rest : List Token) (f : α → List Token → Outcome β) :
    andThen (.ok (x, rest)) f = f x rest := rfl

@[simp] theorem andThen_error (e : Failed) (f : α → List Token → Outcome β) :
    andThen (.error e) f = .error e := rfl

/-- Chains of three links can be read either way. -/
theorem andThen_assoc (o : Outcome α) (f : α → List Token → Outcome β)
    (g : β → List Token → Outcome γ) :
    (o.andThen f).andThen g = o.andThen fun x left => (f x left).andThen g := by
  cases o <;> rfl

/-- A chain gives a value only if both links do. -/
theorem andThen_eq_ok {o : Outcome α} {f : α → List Token → Outcome β} {r : β × List Token} :
    o.andThen f = .ok r ↔ ∃ x left, o = .ok (x, left) ∧ f x left = .ok r := by
  rcases o with e | ⟨x, left⟩
  · simp
  · constructor
    · intro h
      exact ⟨x, left, rfl, h⟩
    · rintro ⟨_, _, ⟨⟩, h⟩
      exact h

/-- The tokens left, also by a failure. -/
def rest : Outcome α → List Token
  | .ok (_, rest) => rest
  | .error e => e.rest

/-- The same verdict in front of other tokens. -/
def leaving (rest : List Token) : Outcome α → Outcome α
  | .ok (x, _) => .ok (x, rest)
  | .error e => .error ⟨e.expected, rest⟩

end Outcome

/-- The answer of a production without its bound. -/
def Reply.outcome {α : Type} {n : Nat} : Reply α n → Outcome α
  | .ok p => .ok (p.value, p.rest)
  | .error e => .error e

namespace Reply

variable {α : Type} {n : Nat}

/-- Nothing is lost with the bound: a value of the outcome is one of the answer. -/
theorem outcome_eq_ok {r : Reply α n} {x : α} {rest : List Token} :
    r.outcome = .ok (x, rest) ↔ ∃ h, r = .ok ⟨x, rest, h⟩ := by
  rcases r with e | ⟨y, left, hleft⟩
  · simp [outcome]
  · constructor
    · rintro ⟨⟩
      exact ⟨hleft, rfl⟩
    · rintro ⟨_, ⟨⟩⟩
      rfl

/-- A failure of the outcome is one of the answer. -/
theorem outcome_eq_error {r : Reply α n} {e : Failed} : r.outcome = .error e ↔ r = .error e := by
  rcases r with e | p <;> simp [outcome]

/-- What an answer leaves is within its bound. -/
theorem length_lt_of_outcome {r : Reply α n} {x : α} {left : List Token}
    (h : r.outcome = .ok (x, left)) : left.length < n := by
  obtain ⟨hlt, -⟩ := outcome_eq_ok.mp h
  exact hlt

@[simp] theorem outcome_ok (p : Parsed α n) :
    Reply.outcome (.ok p : Reply α n) = .ok (p.value, p.rest) := rfl

end Reply

/-- How strongly the operator in front binds; 0 when there is none. -/
def frontPrecedence : List Token → Nat
  | [] => 0
  | token :: _ => token.word.op.precedence

/-- No operator binds tighter than the third level. -/
theorem frontPrecedence_le (ts : List Token) : frontPrecedence ts ≤ 3 := by
  rcases ts with _ | ⟨⟨text | op, loc⟩, rest⟩
  · simp [frontPrecedence]
  · simp [frontPrecedence, Word.op, Operator.precedence]
  · cases op <;> simp [frontPrecedence, Word.op, Operator.precedence]

/-- An operand can begin with the word: a literal, a sign or an opening parenthesis. -/
def opensOperand : Word → Bool
  | .literal _ | .operator .sub | .operator .add | .operator .lparen => true
  | _ => false

/-- The first token decides on the location in front. -/
theorem frontLoc_congr {ts us : List Token} (h : us.head? = ts.head?) :
    frontLoc us = frontLoc ts := by
  cases ts <;> cases us <;> simp_all [frontLoc]

/-- The first token decides on what binds in front. -/
theorem frontPrecedence_congr {ts us : List Token} (h : us.head? = ts.head?) :
    frontPrecedence us = frontPrecedence ts := by
  cases ts <;> cases us <;> simp_all [frontPrecedence]

/-! ## Single tokens

A production that wants one token takes it or fails in front of it. -/

/-- Either the operator `op` is in front, or something else or nothing is. -/
theorem operator_or_other (op : Operator) (ts : List Token) :
    (∃ loc rest, ts = ⟨.operator op, loc⟩ :: rest) ∨
      ∀ token ∈ ts.head?, token.word ≠ .operator op := by
  rcases ts with _ | ⟨⟨word, loc⟩, rest⟩
  · exact .inr (by simp)
  · by_cases hword : word = .operator op
    · exact .inl ⟨loc, rest, by rw [hword]⟩
    · exact .inr (by simpa using hword)

/-- Either a literal is in front, or something else or nothing is. -/
theorem literal_or_other (ts : List Token) :
    (∃ text loc rest, ts = ⟨.literal text, loc⟩ :: rest) ∨
      ∀ token ∈ ts.head?, ∀ text, token.word ≠ .literal text := by
  rcases ts with _ | ⟨⟨text | op, loc⟩, rest⟩
  · exact .inr (by simp)
  · exact .inl ⟨text, loc, rest, rfl⟩
  · exact .inr (by simp)

/-- The operator that is wanted is taken. -/
theorem outcome_want_operator (op : Operator) (expected : Expected) (loc : Location)
    (rest : List Token) :
    (want op expected (⟨.operator op, loc⟩ :: rest)).outcome = .ok ((), rest) := by
  simp [want, Reply.outcome, Parsed.before]

/-- Anything else is left where it is, and so is the end. -/
theorem outcome_want_other {op : Operator} {ts : List Token} (expected : Expected)
    (h : ∀ token ∈ ts.head?, token.word ≠ .operator op) :
    (want op expected ts).outcome = .error ⟨expected, ts⟩ := by
  unfold want
  split
  · next o loc rest =>
    have hne : o ≠ op := fun ho => h _ rfl (by rw [ho])
    rw [if_neg hne]
    rfl
  · rfl

theorem outcome_takeLiteral (expected : Expected) (text : Bytes) (loc : Location)
    (rest : List Token) :
    (takeLiteral expected (⟨.literal text, loc⟩ :: rest)).outcome = .ok (text, rest) := rfl

/-- Anything but a literal is left where it is, and so is the end. -/
theorem outcome_takeLiteral_other {ts : List Token} (expected : Expected)
    (h : ∀ token ∈ ts.head?, ∀ text, token.word ≠ .literal text) :
    (takeLiteral expected ts).outcome = .error ⟨expected, ts⟩ := by
  unfold takeLiteral
  split
  · next text loc rest => exact absurd rfl (h _ rfl text)
  · rfl

/-- What was wanted and taken stood in front. -/
theorem want_eq_ok {op : Operator} {expected : Expected} {ts left : List Token} {x : Unit}
    (h : (want op expected ts).outcome = .ok (x, left)) :
    ∃ loc, ts = ⟨.operator op, loc⟩ :: left := by
  rcases operator_or_other op ts with ⟨loc, rest, rfl⟩ | hother
  · rw [outcome_want_operator] at h
    cases h
    exact ⟨loc, rfl⟩
  · rw [outcome_want_other expected hother] at h
    cases h

/-- A literal that was taken stood in front. -/
theorem takeLiteral_eq_ok {expected : Expected} {ts left : List Token} {text : Bytes}
    (h : (takeLiteral expected ts).outcome = .ok (text, left)) :
    ∃ loc, ts = ⟨.literal text, loc⟩ :: left := by
  rcases literal_or_other ts with ⟨_, loc, rest, rfl⟩ | hother
  · cases h
    exact ⟨loc, rfl⟩
  · rw [outcome_takeLiteral_other expected hother] at h
    cases h

/-! ## Arithmetic

Equations for climbing. The next token is either an operator that binds tight enough, and is taken,
or it stops the loop. -/

/-- The ways an operand can begin, or that none can. -/
theorem operand_or_other (ts : List Token) :
    (∃ text loc rest, ts = ⟨.literal text, loc⟩ :: rest) ∨
      (∃ loc rest, ts = ⟨.operator .sub, loc⟩ :: rest) ∨
      (∃ loc rest, ts = ⟨.operator .add, loc⟩ :: rest) ∨
      (∃ loc rest, ts = ⟨.operator .lparen, loc⟩ :: rest) ∨
      ∀ token ∈ ts.head?, opensOperand token.word = false := by
  rcases ts with _ | ⟨⟨text | op, loc⟩, rest⟩
  · simp
  · simp
  · cases op <;> simp [opensOperand]

/-- Either an operator is in front that binds tighter than `prec`, or climbing stops. -/
theorem tighter_or_stop (prec : Nat) (ts : List Token) :
    (∃ op loc rest, ts = ⟨.operator op, loc⟩ :: rest ∧ prec < op.precedence) ∨
      frontPrecedence ts ≤ prec := by
  rcases ts with _ | ⟨⟨text | op, loc⟩, rest⟩
  · exact .inr (Nat.zero_le prec)
  · exact .inr (Nat.zero_le prec)
  · rcases Nat.lt_or_ge prec op.precedence with hlt | hge
    · exact .inl ⟨op, loc, rest, rfl, hlt⟩
    · exact .inr hge

theorem outcome_atom_literal (text : Bytes) (loc : Location) (rest : List Token) :
    (atom (⟨.literal text, loc⟩ :: rest)).outcome = .ok (.literal loc text, rest) := by
  rw [atom]
  rfl

/-- A minus sign stands for a subtraction from zero, both placed at the sign. -/
theorem outcome_atom_minus (loc : Location) (rest : List Token) :
    (atom (⟨.operator .sub, loc⟩ :: rest)).outcome =
      (atom rest).outcome.andThen fun x left =>
        .ok (.expression loc .sub (.literal loc (Text.utf8 "0")) x, left) := by
  rw [atom]
  cases atom rest <;> rfl

/-- A plus sign leaves no trace. -/
theorem outcome_atom_plus (loc : Location) (rest : List Token) :
    (atom (⟨.operator .add, loc⟩ :: rest)).outcome = (atom rest).outcome := by
  rw [atom]
  cases atom rest <;> rfl

/-- Parentheses hold arithmetic of any level, and leave no trace. -/
theorem outcome_atom_parens (loc : Location) (rest : List Token) :
    (atom (⟨.operator .lparen, loc⟩ :: rest)).outcome =
      (binary 0 rest).outcome.andThen fun x left =>
        (want .rparen .closeParen left).outcome.andThen fun _ left => .ok (x, left) := by
  rw [atom]
  rcases binary 0 rest with e | x
  · rfl
  · simp only [Reply.outcome_ok, Outcome.andThen_ok]
    cases want .rparen .closeParen x.rest <;> rfl

/-- No operand begins with any other token, or at the end. -/
theorem outcome_atom_other {ts : List Token}
    (h : ∀ token ∈ ts.head?, opensOperand token.word = false) :
    (atom ts).outcome = .error ⟨.operand, ts⟩ := by
  rw [atom.eq_def]
  split
  · exact absurd (h _ rfl) (by simp [opensOperand])
  · exact absurd (h _ rfl) (by simp [opensOperand])
  · exact absurd (h _ rfl) (by simp [opensOperand])
  · exact absurd (h _ rfl) (by simp [opensOperand])
  · rfl

/-- A binary expression is an operand and what climbing makes of it; it is placed at the first
token. -/
theorem outcome_binary (prec : Nat) (ts : List Token) :
    (binary prec ts).outcome =
      (atom ts).outcome.andThen fun x left => (climb prec (frontLoc ts) x left).outcome := by
  rw [binary]
  rcases atom ts with e | x
  · rfl
  · simp only [Reply.outcome_ok, Outcome.andThen_ok]
    cases climb prec (frontLoc ts) x.value x.rest <;> rfl

/-- An operator that binds tighter takes its right operand, and climbing goes on from both. -/
theorem outcome_climb_operator {prec : Nat} {op : Operator} (h : prec < op.precedence)
    (loc opLoc : Location) (x : Node) (rest : List Token) :
    (climb prec loc x (⟨.operator op, opLoc⟩ :: rest)).outcome =
      (binary op.precedence rest).outcome.andThen fun y left =>
        (climb prec loc (.expression loc op x y) left).outcome := by
  rw [climb, if_pos h]
  rcases binary op.precedence rest with e | y
  · rfl
  · simp only [Reply.outcome_ok, Outcome.andThen_ok]
    cases climb prec loc (.expression loc op x y.value) y.rest <;> rfl

/-- In front of anything else climbing stops and takes nothing. -/
theorem outcome_climb_stop {prec : Nat} {ts : List Token} (h : frontPrecedence ts ≤ prec)
    (loc : Location) (x : Node) : (climb prec loc x ts).outcome = .ok (x, ts) := by
  rw [climb.eq_def]
  split
  · next op opLoc rest =>
    have hop : ¬ prec < op.precedence := Nat.not_lt.mpr h
    rw [if_neg hop]
    rfl
  · rfl

/-! ## Names and parameters

A type may follow every name. The equations tell the two cases apart by the colon. -/

/-- A colon and the type after it, if there is a colon. -/
def typePart : List Token → Outcome (Option Bytes)
  | ⟨.operator .colon, _⟩ :: rest =>
    (takeLiteral .typeName rest).outcome.andThen fun type left => .ok (some type, left)
  | ts => .ok (none, ts)

/-- The node that a name with or without a type makes. -/
def bindingNode (loc : Location) (name : Bytes) : Option Bytes → Node
  | none => .literal loc name
  | some type => .typed ⟨loc, name, type⟩

/-- Without a colon there is no type, and nothing is taken. -/
theorem typePart_other {ts : List Token}
    (h : ∀ token ∈ ts.head?, token.word ≠ .operator .colon) :
    typePart ts = .ok (none, ts) := by
  unfold typePart
  split
  · exact absurd rfl (h _ rfl)
  · rfl

/-- A name, and the type behind its colon if there is one. -/
theorem outcome_annotated (ts : List Token) :
    (annotated ts).outcome =
      (takeLiteral .name ts).outcome.andThen fun name left =>
        (typePart left).andThen fun type left => .ok (⟨frontLoc ts, name, type⟩, left) := by
  rw [annotated]
  rcases takeLiteral .name ts with e | ⟨name, left, hleft⟩
  · rfl
  · simp only [Reply.outcome_ok, Outcome.andThen_ok]
    rcases operator_or_other .colon left with ⟨loc, rest, rfl⟩ | hother
    · obtain ⟨_, hwant⟩ := Reply.outcome_eq_ok.mp (outcome_want_operator .colon .typeColon loc rest)
      simp only [hwant, typePart]
      cases takeLiteral .typeName rest <;> rfl
    · have hwant := Reply.outcome_eq_error.mp (outcome_want_other .typeColon hother)
      simp only [hwant, typePart_other hother]
      rfl

/-- The name of a binding is an annotated name as a node. -/
theorem outcome_bindingName_annotated (ts : List Token) :
    (bindingName ts).outcome = (annotated ts).outcome.andThen fun a left =>
      .ok (bindingNode a.loc a.name a.type, left) := by
  rw [bindingName]
  rcases annotated ts with e | ⟨⟨loc, name, _ | type⟩, left, hleft⟩ <;> rfl

/-- The name of a binding in single steps. -/
theorem outcome_bindingName (ts : List Token) :
    (bindingName ts).outcome =
      (takeLiteral .name ts).outcome.andThen fun name left =>
        (typePart left).andThen fun type left =>
          .ok (bindingNode (frontLoc ts) name type, left) := by
  rw [outcome_bindingName_annotated, outcome_annotated]
  simp only [Outcome.andThen_assoc, Outcome.andThen_ok]

/-- A parameter is an annotated name that has a type. -/
theorem outcome_parameter_annotated (ts : List Token) :
    (parameter ts).outcome = (annotated ts).outcome.andThen fun a left =>
      match a.type with
      | none => .error ⟨.typeColon, left⟩
      | some type => .ok (⟨a.loc, a.name, type⟩, left) := by
  rw [parameter]
  rcases annotated ts with e | ⟨⟨loc, name, _ | type⟩, left, hleft⟩ <;> rfl

/-- A parameter in single steps. Here the colon is required. -/
theorem outcome_parameter (ts : List Token) :
    (parameter ts).outcome =
      (takeLiteral .name ts).outcome.andThen fun name left =>
        (want .colon .typeColon left).outcome.andThen fun _ left =>
          (takeLiteral .typeName left).outcome.andThen fun type left =>
            .ok (⟨frontLoc ts, name, type⟩, left) := by
  rw [outcome_parameter_annotated, outcome_annotated]
  simp only [Outcome.andThen_assoc, Outcome.andThen_ok]
  congr 1
  funext name left
  -- Without a colon both sides stop in front of the same tokens.
  rcases operator_or_other .colon left with ⟨loc, rest, rfl⟩ | hother
  · simp only [typePart, outcome_want_operator, Outcome.andThen_assoc, Outcome.andThen_ok]
  · simp only [typePart_other hother, outcome_want_other .typeColon hother,
      Outcome.andThen_ok, Outcome.andThen_error]

/-- What follows a parameter: more of them after a comma, or the closing parenthesis. -/
def furtherParameters : List Token → Outcome (List TypedName)
  | ⟨.operator .comma, _⟩ :: rest => (parameters rest).outcome
  | ts => (want .rparen .moreParameters ts).outcome.andThen fun _ left => .ok ([], left)

/-- Without a comma the parameters are at their end. -/
theorem furtherParameters_other {ts : List Token}
    (h : ∀ token ∈ ts.head?, token.word ≠ .operator .comma) :
    furtherParameters ts =
      (want .rparen .moreParameters ts).outcome.andThen fun _ left => .ok ([], left) := by
  unfold furtherParameters
  split
  · exact absurd rfl (h _ rfl)
  · rfl

/-- A parameter, and those that follow it. -/
theorem outcome_parameters (ts : List Token) :
    (parameters ts).outcome =
      (parameter ts).outcome.andThen fun p left =>
        (furtherParameters left).andThen fun more left => .ok (p :: more, left) := by
  rw [parameters]
  rcases parameter ts with e | ⟨p, left, hleft⟩
  · rfl
  · simp only [Reply.outcome_ok, Outcome.andThen_ok]
    rcases operator_or_other .comma left with ⟨loc, rest, rfl⟩ | hother
    · obtain ⟨_, hwant⟩ :=
        Reply.outcome_eq_ok.mp (outcome_want_operator .comma .moreParameters loc rest)
      simp only [hwant, furtherParameters]
      cases parameters rest <;> rfl
    · have hwant := Reply.outcome_eq_error.mp (outcome_want_other .moreParameters hother)
      simp only [hwant, furtherParameters_other hother]
      cases want .rparen .moreParameters left <;> rfl

theorem outcome_parameterList_nil (loc : Location) (rest : List Token) :
    (parameterList (⟨.operator .rparen, loc⟩ :: rest)).outcome = .ok ([], rest) := rfl

theorem outcome_parameterList_literal (text : Bytes) (loc : Location) (rest : List Token) :
    (parameterList (⟨.literal text, loc⟩ :: rest)).outcome =
      (parameters (⟨.literal text, loc⟩ :: rest)).outcome := rfl

/-- A list of parameters begins with a name or is closed at once. -/
theorem outcome_parameterList_other {ts : List Token}
    (hparen : ∀ token ∈ ts.head?, token.word ≠ .operator .rparen)
    (hliteral : ∀ token ∈ ts.head?, ∀ text, token.word ≠ .literal text) :
    (parameterList ts).outcome = .error ⟨.parameter, ts⟩ := by
  unfold parameterList
  split
  · exact absurd rfl (hparen _ rfl)
  · exact absurd rfl (hliteral _ rfl _)
  · rfl

/-- The head of a function literal in single steps. -/
theorem outcome_header (ts : List Token) :
    (header ts).outcome =
      (want .lparen .openParen ts).outcome.andThen fun _ left =>
        (parameterList left).outcome.andThen fun params left =>
          (want .colon .returnColon left).outcome.andThen fun _ left =>
            (takeLiteral .returnType left).outcome.andThen fun ret left =>
              .ok (⟨params, ret⟩, left) := by
  rw [header]
  rcases want .lparen .openParen ts with e | paren
  · rfl
  simp only [Reply.outcome_ok, Outcome.andThen_ok]
  rcases parameterList paren.rest with e | params
  · rfl
  simp only [Reply.outcome_ok, Outcome.andThen_ok]
  rcases want .colon .returnColon params.rest with e | colon
  · rfl
  simp only [Reply.outcome_ok, Outcome.andThen_ok]
  cases takeLiteral .returnType colon.rest <;> rfl

/-! ## Statements

Statements are told apart by their first token, and blocks by whether it closes them. -/

/-- At the end an expression is missing, whatever it was to be. -/
theorem outcome_expression_nil : (expression []).outcome = .error ⟨.expression, []⟩ := by
  rw [expression]
  rfl

/-- A brace opens a block, and the block is placed at the brace. -/
theorem outcome_expression_block (loc : Location) (rest : List Token) :
    (expression (⟨.operator .lcurl, loc⟩ :: rest)).outcome =
      (blockTail rest).outcome.andThen fun body left => .ok (.block loc body, left) := by
  rw [expression]
  cases blockTail rest <;> rfl

/-- The keyword `fn` begins a function literal. Its body is placed at the brace that opens it, which
is the token behind the head. -/
theorem outcome_expression_lambda (loc : Location) (rest : List Token) :
    (expression (⟨.operator .fn, loc⟩ :: rest)).outcome =
      (header rest).outcome.andThen fun head front =>
        (want .lcurl .openBrace front).outcome.andThen fun _ left =>
          (blockTail left).outcome.andThen fun body left =>
            .ok (.lambda loc head.ret head.params (frontLoc front) body, left) := by
  rw [expression]
  rcases header rest with e | head
  · rfl
  simp only [Reply.outcome_ok, Outcome.andThen_ok]
  rcases want .lcurl .openBrace head.rest with e | brace
  · rfl
  simp only [Reply.outcome_ok, Outcome.andThen_ok]
  cases blockTail brace.rest <;> rfl

/-- Everything else is arithmetic, or no expression at all. -/
theorem outcome_expression_arithmetic {ts : List Token} (hne : ts ≠ [])
    (hblock : ∀ token ∈ ts.head?, token.word ≠ .operator .lcurl)
    (hlambda : ∀ token ∈ ts.head?, token.word ≠ .operator .fn) :
    (expression ts).outcome = (binary 0 ts).outcome := by
  rw [expression.eq_def]
  split
  · exact absurd rfl hne
  · exact absurd rfl (hblock _ rfl)
  · exact absurd rfl (hlambda _ rfl)
  · rfl

/-- The keyword `let` begins a binding. -/
theorem outcome_statement_binding (loc : Location) (rest : List Token) :
    (statement (⟨.operator .bind, loc⟩ :: rest)).outcome =
      (bindingName rest).outcome.andThen fun name left =>
        (want .assign .assignment left).outcome.andThen fun _ left =>
          (expression left).outcome.andThen fun value left =>
            (want .semicolon .semicolon left).outcome.andThen fun _ left =>
              .ok (.expression loc .bind name value, left) := by
  rw [statement]
  rcases bindingName rest with e | name
  · rfl
  simp only [Reply.outcome_ok, Outcome.andThen_ok]
  rcases want .assign .assignment name.rest with e | assign
  · rfl
  simp only [Reply.outcome_ok, Outcome.andThen_ok]
  rcases expression assign.rest with e | value
  · rfl
  simp only [Reply.outcome_ok, Outcome.andThen_ok]
  cases want .semicolon .semicolon value.rest <;> rfl

/-- Any other statement is an expression with a semicolon behind it. -/
theorem outcome_statement_expression {ts : List Token}
    (h : ∀ token ∈ ts.head?, token.word ≠ .operator .bind) :
    (statement ts).outcome =
      (expression ts).outcome.andThen fun value left =>
        (want .semicolon .semicolon left).outcome.andThen fun _ left => .ok (value, left) := by
  rw [statement.eq_def]
  split
  · exact absurd rfl (h _ rfl)
  rcases expression _ with e | value
  · rfl
  simp only [Reply.outcome_ok, Outcome.andThen_ok]
  cases want .semicolon .semicolon value.rest <;> rfl

theorem outcome_blockTail_close (loc : Location) (rest : List Token) :
    (blockTail (⟨.operator .rcurl, loc⟩ :: rest)).outcome = .ok ([], rest) := by
  rw [blockTail]
  rfl

/-- A block is not closed by the end. -/
theorem outcome_blockTail_nil : (blockTail []).outcome = .error ⟨.statement, []⟩ := by
  rw [blockTail]
  rfl

/-- Up to its closing brace a block has statements. -/
theorem outcome_blockTail_statement {ts : List Token} (hne : ts ≠ [])
    (h : ∀ token ∈ ts.head?, token.word ≠ .operator .rcurl) :
    (blockTail ts).outcome =
      (statement ts).outcome.andThen fun first left =>
        (blockTail left).outcome.andThen fun more left => .ok (first :: more, left) := by
  rw [blockTail.eq_def]
  split
  · exact absurd rfl (h _ rfl)
  · exact absurd rfl hne
  rcases statement _ with e | first
  · rfl
  simp only [Reply.outcome_ok, Outcome.andThen_ok]
  cases blockTail first.rest <;> rfl

/-! ## Modules -/

/-- All statements up to the end, which leaves nothing. -/
def program (ts : List Token) : Outcome (List Node) :=
  match statements ts with
  | .ok stmts => .ok (stmts, [])
  | .error e => .error e

theorem program_nil : program [] = .ok ([], []) := by
  rw [program, statements]

/-- While there are tokens, there is a statement. -/
theorem program_statement {ts : List Token} (hne : ts ≠ []) :
    program ts =
      (statement ts).outcome.andThen fun first left =>
        (program left).andThen fun more left => .ok (first :: more, left) := by
  rcases ts with _ | ⟨token, rest⟩
  · exact absurd rfl hne
  rw [program, statements]
  case x => exact hne
  rcases statement (token :: rest) with e | first
  · rfl
  simp only [Reply.outcome_ok, Outcome.andThen_ok, program]
  cases statements first.rest <;> rfl

/-- A module is a program, placed at its first token. -/
theorem module_eq_ok {ts : List Token} {m : Node} :
    module ts = .ok m ↔
      ∃ stmts, program ts = .ok (stmts, []) ∧ m = .module (frontLoc ts) stmts := by
  unfold module program
  cases statements ts <;> simp [eq_comm]

/-- What stops a program stops the module. -/
theorem module_eq_error {ts : List Token} {e : Failed} :
    module ts = .error e ↔ program ts = .error e := by
  unfold module program
  cases statements ts <;> simp

end LetFn.Parser
