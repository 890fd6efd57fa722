import LetFn.Parse
import LetFn.Proofs.Parser.Outcome

/-!
# Pulling tokens from a stream

The productions of a session take their tokens from a stream, one at a time, and those of `Parser`
take them off a list. On the tokens ahead of the session both do the same (`Agrees`): they give the
same value or expect the same, and what is left of the list is what is then ahead of the session.
The session itself has done nothing but skip tokens on the way (`Reaches`), as many as were taken.

There is a lemma for each production, by way of the equations for the production on lists. The
productions of arithmetic call one another, as do those of statements, and their lemmas do so, too.
What they come to are `parse_of_ok` and `parse_of_error`: how far a session goes can be told from
what the list leaves.
-/

namespace LetFn.Session

open LetFn.Parser (Outcome Expected)

variable {α β : Type} {m n : Nat} {s s' s'' : Session} {ts : List Token}

/-! ## Skipping tokens

A session moves in one way only: over the token in front of it. To have skipped a number of tokens
is to have advanced by that number. -/

/-- Goes on by `n` tokens. -/
def advance : Nat → Session → Session
  | 0, s => s
  | n + 1, s => advance n s.skip

/-- The session `s'` comes of `s` by skipping some of the tokens ahead. -/
inductive Reaches : Session → Session → Prop
  | refl (s : Session) : Reaches s s
  | skip {s s' : Session} {token : Token} :
    s.front = some token → Reaches s.skip s' → Reaches s s'

/-- Skipping some tokens and then some more. -/
theorem Reaches.trans (h : Reaches s s') (h' : Reaches s' s'') : Reaches s s'' := by
  induction h with
  | refl => exact h'
  | skip hfront _ ih => exact .skip hfront (ih h')

/-- How many tokens were skipped can be told from how many are ahead. -/
theorem Reaches.eq_advance (h : Reaches s s') :
    s'.ahead.length ≤ s.ahead.length ∧ s' = s.advance (s.ahead.length - s'.ahead.length) := by
  induction h with
  | refl s => exact ⟨Nat.le_refl _, by rw [Nat.sub_self]; rfl⟩
  | @skip s s' token hfront _ ih =>
    obtain ⟨hle, heq⟩ := ih
    -- Each token that is skipped is one less ahead.
    have hlength : s.ahead.length = s.skip.ahead.length + 1 := by
      rw [ahead_of_front hfront]
      rfl
    refine ⟨by omega, ?_⟩
    rw [hlength, Nat.sub_add_comm hle]
    exact heq

/-! ## The token looked at

A session looks at one token and knows no more of what is ahead. A production on a list does as
much: its equations go by the first token. -/

/-- The token looked at is the first of what is ahead. -/
theorem head?_ahead (s : Session) : s.ahead.head? = s.front := by
  unfold ahead
  rcases s.front with _ | token <;> rfl

/-- Where the session stands is where the tokens ahead begin. -/
theorem frontLoc_ahead (s : Session) : Parser.frontLoc s.ahead = s.loc := by
  unfold ahead loc
  rcases s.front with _ | token <;> rfl

/-- Where no token is looked at, none is ahead. -/
theorem eq_nil_of_end (h : s.ahead = ts) (hfront : s.front = none) : ts = [] := by
  rw [← h, ← List.head?_eq_none_iff, head?_ahead, hfront]

/-- What is ahead begins with the token looked at. -/
theorem eq_cons_of_front {token : Token} (h : s.ahead = ts) (hfront : s.front = some token) :
    ts = token :: s.skip.ahead := by
  rw [← h, ahead_of_front hfront]

/-- Where a token is looked at, something is ahead. -/
theorem ne_nil_of_front {token : Token} (h : s.ahead = ts) (hfront : s.front = some token) :
    ts ≠ [] := by
  rw [eq_cons_of_front h hfront]
  exact List.cons_ne_nil _ _

/-- What is not looked at is not the first of what is ahead. -/
theorem front_other {p : Token → Prop} (h : s.ahead = ts)
    (hfront : ∀ token, s.front = some token → p token) : ∀ token ∈ ts.head?, p token := by
  rw [← h, head?_ahead]
  exact hfront

/-- A word that is not looked at does not begin what is ahead. -/
theorem front_ne {w : Word} (h : s.ahead = ts) (hfront : ∀ loc, s.front ≠ some ⟨w, loc⟩) :
    ∀ token ∈ ts.head?, token.word ≠ w := by
  refine front_other h ?_
  rintro ⟨_, loc⟩ htoken rfl
  exact hfront loc htoken

/-! ## Agreement

Two outcomes agree if they carry the same and the session is where the list was left. Agreement goes
through a chain of productions link by link, and a token that was skipped in front is one more that
was taken. -/

/-- What was pulled from `s` is what a production makes of the tokens ahead. The session is behind
the tokens that the production took, or in front of those that it did not expect. -/
inductive Agrees (s : Session) : Pull α n → Outcome α → Prop
  | ok {x : α} {s' : Session} (h : s'.ahead.length < n) :
    Reaches s s' → Agrees s (.ok ⟨x, s', h⟩) (.ok (x, s'.ahead))
  | error {expected : Expected} {s' : Session} :
    Reaches s s' → Agrees s (.error ⟨expected, s'⟩) (.error ⟨expected, s'.ahead⟩)

namespace Agrees

variable {p : Pull α n} {o : Outcome α}

/-- A value that a production gives is pulled. -/
theorem exists_ok {x : α} {rest : List Token} (h : Agrees s p (.ok (x, rest))) :
    ∃ s' hs', p = .ok ⟨x, s', hs'⟩ ∧ s'.ahead = rest ∧ Reaches s s' := by
  generalize ho : (.ok (x, rest) : Outcome α) = o at h
  cases h with
  | ok hs' hreach =>
    cases ho
    exact ⟨_, hs', rfl, rfl, hreach⟩
  | error => cases ho

/-- What a production expects is expected. -/
theorem exists_error {e : Parser.Failed} (h : Agrees s p (.error e)) :
    ∃ s', p = .error ⟨e.expected, s'⟩ ∧ s'.ahead = e.rest ∧ Reaches s s' := by
  generalize ho : (.error e : Outcome α) = o at h
  cases h with
  | ok => cases ho
  | error hreach =>
    cases ho
    exact ⟨_, rfl, rfl, hreach⟩

/-- A session may have come from further in front. -/
theorem of_reaches (hreach : Reaches s s') (h : Agrees s' p o) : Agrees s p o := by
  cases h with
  | ok h hon => exact .ok h (hreach.trans hon)
  | error hon => exact .error (hreach.trans hon)

/-- A token that is taken first is one more that was skipped. -/
theorem of_skip {token : Token} (hfront : s.front = some token) (h : Agrees s.skip p o) :
    Agrees s p o :=
  of_reaches (.skip hfront (.refl _)) h

/-- The token looked at is taken. -/
theorem taken {token : Token} (x : α) (hfront : s.front = some token) :
    Agrees s (.ok (.taken x hfront)) (.ok (x, s.skip.ahead)) :=
  .ok (length_skip_lt hfront) (.skip hfront (.refl _))

/-- Where a value has been pulled, the session needs nothing more for it. -/
theorem done {p : Pulled α n} {x : α} (hvalue : p.value = x) (hsession : p.session = s) :
    Agrees s (pure p) (.ok (x, s.ahead)) := by
  subst hvalue hsession
  exact .ok p.shorter (.refl _)

/-- Where nothing is taken, something was expected in front of all that is ahead. -/
theorem refused {expected : Expected} (h : s.ahead = ts) :
    Agrees s (.error ⟨expected, s⟩ : Pull α n) (.error ⟨expected, ts⟩) := by
  rw [← h]
  exact .error (.refl s)

/-- Chains agree if their links do. -/
theorem andThen {f : Pulled α n → Pull β m} {g : α → List Token → Outcome β} (h : Agrees s p o)
    (hlink : ∀ x s' (hs' : s'.ahead.length < n), Agrees s' (f ⟨x, s', hs'⟩) (g x s'.ahead)) :
    Agrees s (p >>= f) (o.andThen g) := by
  cases h with
  | ok h hreach => exact of_reaches hreach (hlink _ _ h)
  | error hreach => exact .error hreach

/-- A chain whose last link hands on what was pulled, within another bound. -/
theorem keep {f : Pulled α n → Pulled α m} (h : Agrees s p o)
    (hf : ∀ x, (f x).value = x.value ∧ (f x).session = x.session) :
    Agrees s (p >>= fun x => pure (f x)) o := by
  cases h with
  | @ok x s' hs' hreach =>
    obtain ⟨hvalue, hsession⟩ := hf ⟨x, s', hs'⟩
    exact of_reaches hreach (done hvalue hsession)
  | error hreach => exact .error hreach

end Agrees

/-! ## Single tokens

These take one token or refuse. -/

/-- Either the operator is looked at and taken, or something else or nothing is. -/
theorem want_cases (op : Operator) (expected : Expected) (s : Session) :
    (∃ loc, ∃ h : s.front = some ⟨.operator op, loc⟩, want op expected s = .ok (.taken () h)) ∨
      ((∀ token ∈ s.ahead.head?, token.word ≠ .operator op) ∧
        want op expected s = .error ⟨expected, s⟩) := by
  rw [want, head?_ahead]
  split
  · next o loc hfront =>
    split
    · next ho =>
      subst ho
      exact .inl ⟨loc, hfront, rfl⟩
    · next ho =>
      refine .inr ⟨?_, rfl⟩
      intro token htoken
      obtain rfl := Option.some.inj (hfront.symm.trans htoken)
      exact mt Word.operator.inj ho
  · next hother =>
    refine .inr ⟨?_, rfl⟩
    rintro ⟨word, loc⟩ hfront rfl
    exact hother op loc hfront

/-- An operator that has to come is taken, or is what was expected. -/
theorem want_agrees (op : Operator) (expected : Expected) (h : s.ahead = ts) :
    Agrees s (want op expected s) (Parser.want op expected ts).outcome := by
  obtain ⟨loc, hfront, hwant⟩ | ⟨hother, hwant⟩ := want_cases op expected s
  · rw [hwant, eq_cons_of_front h hfront, Parser.outcome_want_operator]
    exact .taken () hfront
  · rw [h] at hother
    rw [hwant, Parser.outcome_want_other expected hother]
    exact .refused h

/-- So is a literal. -/
theorem takeLiteral_agrees (expected : Expected) (h : s.ahead = ts) :
    Agrees s (takeLiteral expected s) (Parser.takeLiteral expected ts).outcome := by
  unfold takeLiteral
  split
  · next text loc hfront =>
    rw [eq_cons_of_front h hfront, Parser.outcome_takeLiteral]
    exact .taken _ hfront
  · next hother =>
    rw [Parser.outcome_takeLiteral_other expected]
    · exact .refused h
    · intro token htoken text
      exact front_ne h (hother text) token htoken

/-! ## Arithmetic

The productions call one another with sessions that have fewer tokens ahead, and the lemmas do
likewise. -/

mutual

/-- A sign is taken and the operand behind it pulled; a parenthesis closes what it opened. -/
theorem atom_agrees (s : Session) {ts : List Token} (h : s.ahead = ts) :
    Agrees s (atom s) (Parser.atom ts).outcome := by
  rw [atom]
  split
  · next text loc hfront =>
    rw [eq_cons_of_front h hfront, Parser.outcome_atom_literal]
    exact .taken _ hfront
  · next loc hfront =>
    rw [eq_cons_of_front h hfront, Parser.outcome_atom_minus]
    apply Agrees.of_skip hfront
    apply (atom_agrees s.skip rfl).andThen
    intro x s' hs'
    exact .done rfl rfl
  · next loc hfront =>
    rw [eq_cons_of_front h hfront, Parser.outcome_atom_plus]
    exact .of_skip hfront ((atom_agrees s.skip rfl).keep fun _ => ⟨rfl, rfl⟩)
  · next loc hfront =>
    rw [eq_cons_of_front h hfront, Parser.outcome_atom_parens]
    apply Agrees.of_skip hfront
    apply (binary_agrees 0 s.skip rfl).andThen
    intro x s' hs'
    apply (want_agrees .rparen .closeParen rfl).andThen
    intro _ s'' hs''
    exact .done rfl rfl
  -- None of the four words above is looked at, so no operand begins here.
  · next hliteral hminus hplus hparens =>
    rw [Parser.outcome_atom_other]
    · exact .refused h
    · refine front_other h ?_
      rintro ⟨text | op, loc⟩ hfront
      · exact absurd hfront (hliteral text loc)
      · cases op <;>
          first
          | rfl
          | exact absurd hfront (hminus loc)
          | exact absurd hfront (hplus loc)
          | exact absurd hfront (hparens loc)
termination_by 2 * s.ahead.length
decreasing_by
  all_goals
    have := length_skip_lt ‹s.front = some _›
    omega

/-- Arithmetic is an operand and then the chain behind it. -/
theorem binary_agrees (prec : Nat) (s : Session) {ts : List Token} (h : s.ahead = ts) :
    Agrees s (binary prec s) (Parser.binary prec ts).outcome := by
  rw [binary, Parser.outcome_binary, ← h, frontLoc_ahead]
  apply (atom_agrees s rfl).andThen
  intro x s' hs'
  exact (climb_agrees prec s.loc x s' rfl).keep fun _ => ⟨rfl, rfl⟩
termination_by 2 * s.ahead.length + 1
decreasing_by all_goals omega

/-- Each round of the chain takes an operator that binds tighter, or takes nothing. -/
theorem climb_agrees (prec : Nat) (loc : Location) (x : Node) (s : Session) {ts : List Token}
    (h : s.ahead = ts) :
    Agrees s (climb prec loc x s) (Parser.climb prec loc x ts).outcome := by
  rw [climb]
  split
  · next op opLoc hfront =>
    rw [eq_cons_of_front h hfront]
    split
    -- The operator is taken, then the operand behind it, and the chain goes on from both.
    · next hlt =>
      rw [Parser.outcome_climb_operator hlt]
      apply Agrees.of_skip hfront
      apply (binary_agrees op.precedence s.skip rfl).andThen
      intro y s' hs'
      exact (climb_agrees prec loc _ s' rfl).keep fun _ => ⟨rfl, rfl⟩
    -- An operator that binds no tighter ends the chain and is left where it is.
    · next hle =>
      rw [Parser.outcome_climb_stop (Nat.le_of_not_lt hle), ← ahead_of_front hfront]
      exact .done rfl rfl
  · next hother =>
    rw [Parser.outcome_climb_stop, ← h]
    · exact .done rfl rfl
    -- What is no operator binds nothing.
    · rcases ts with _ | ⟨⟨text | op, opLoc⟩, rest⟩
      · exact Nat.zero_le prec
      · exact Nat.zero_le prec
      · have hfront := head?_ahead s
        rw [h] at hfront
        exact absurd hfront.symm (hother op opLoc)
termination_by 2 * s.ahead.length
decreasing_by
  all_goals
    have := length_skip_lt ‹s.front = some _›
    omega

end

/-! ## Names and parameters

Only the list of parameters recurses. -/

/-- A name is pulled, and a type behind it if a colon is looked at. -/
theorem annotated_agrees (h : s.ahead = ts) :
    Agrees s (annotated s) (Parser.annotated ts).outcome := by
  rw [annotated, Parser.outcome_annotated, ← h, frontLoc_ahead]
  apply (takeLiteral_agrees .name rfl).andThen
  intro name s' hs'
  obtain ⟨loc, hfront, hwant⟩ | ⟨hother, hwant⟩ := want_cases .colon .typeColon s'
  · simp only [hwant, ahead_of_front hfront, Parser.typePart, Parser.Outcome.andThen_assoc]
    apply Agrees.of_skip hfront
    apply (takeLiteral_agrees .typeName rfl).andThen
    intro type s'' hs''
    exact .done rfl rfl
  · simp only [hwant, Parser.typePart_other hother]
    exact .done rfl rfl

/-- What a binding binds is a name with or without a type. -/
theorem bindingName_agrees (h : s.ahead = ts) :
    Agrees s (bindingName s) (Parser.bindingName ts).outcome := by
  rw [bindingName, Parser.outcome_bindingName_annotated]
  apply (annotated_agrees h).andThen
  rintro ⟨loc, name, _ | type⟩ s' hs'
  · exact .done rfl rfl
  · exact .done rfl rfl

/-- A parameter needs its type, which is missed behind the name. -/
theorem parameter_agrees (h : s.ahead = ts) :
    Agrees s (parameter s) (Parser.parameter ts).outcome := by
  rw [parameter, Parser.outcome_parameter_annotated]
  apply (annotated_agrees h).andThen
  rintro ⟨loc, name, _ | type⟩ s' hs'
  · exact .error (.refl s')
  · exact .done rfl rfl

/-- Parameters are pulled one by one, as long as commas follow. -/
theorem parameters_agrees (s : Session) {ts : List Token} (h : s.ahead = ts) :
    Agrees s (parameters s) (Parser.parameters ts).outcome := by
  rw [parameters, Parser.outcome_parameters]
  apply (parameter_agrees h).andThen
  intro p s' hs'
  obtain ⟨loc, hfront, hwant⟩ | ⟨hother, hwant⟩ := want_cases .comma .moreParameters s'
  · simp only [hwant, ahead_of_front hfront, Parser.furtherParameters]
    apply Agrees.of_skip hfront
    apply (parameters_agrees s'.skip rfl).andThen
    intro more s'' hs''
    exact .done rfl rfl
  -- Without a comma the list has to be closed.
  · simp only [hwant, Parser.furtherParameters_other hother, Parser.Outcome.andThen_assoc]
    apply (want_agrees .rparen .moreParameters rfl).andThen
    intro _ s'' hs''
    exact .done rfl rfl
termination_by s.ahead.length
decreasing_by
  have := length_skip_lt hfront
  omega

/-- A list that closes at once is empty. -/
theorem parameterList_agrees (h : s.ahead = ts) :
    Agrees s (parameterList s) (Parser.parameterList ts).outcome := by
  unfold parameterList
  split
  · next loc hfront =>
    rw [eq_cons_of_front h hfront, Parser.outcome_parameterList_nil]
    exact .taken _ hfront
  · next text loc hfront =>
    have hts := eq_cons_of_front h hfront
    rw [hts, Parser.outcome_parameterList_literal, ← hts]
    exact parameters_agrees s h
  · next hparen hliteral =>
    rw [Parser.outcome_parameterList_other]
    · exact .refused h
    · exact front_ne h hparen
    · intro token htoken text
      exact front_ne h (hliteral text) token htoken

/-- The parts of a function in front of its body, each pulled where the one before it ended. -/
theorem header_agrees (h : s.ahead = ts) :
    Agrees s (header s) (Parser.header ts).outcome := by
  rw [header, Parser.outcome_header]
  apply (want_agrees .lparen .openParen h).andThen
  intro _ s₁ hs₁
  apply (parameterList_agrees rfl).andThen
  intro params s₂ hs₂
  apply (want_agrees .colon .returnColon rfl).andThen
  intro _ s₃ hs₃
  apply (takeLiteral_agrees .returnType rfl).andThen
  intro ret s₄ hs₄
  exact .done rfl rfl

/-! ## Statements

As for arithmetic: one lemma for each production, together. -/

mutual

/-- One token tells whether a block, a function or arithmetic is pulled. -/
theorem expression_agrees (s : Session) {ts : List Token} (h : s.ahead = ts) :
    Agrees s (expression s) (Parser.expression ts).outcome := by
  rw [expression]
  split
  · next hfront =>
    have hts := eq_nil_of_end h hfront
    rw [hts, Parser.outcome_expression_nil]
    exact .refused (h.trans hts)
  · next loc hfront =>
    rw [eq_cons_of_front h hfront, Parser.outcome_expression_block]
    apply Agrees.of_skip hfront
    apply (blockTail_agrees s.skip rfl).andThen
    intro body s' hs'
    exact .done rfl rfl
  · next loc hfront =>
    rw [eq_cons_of_front h hfront, Parser.outcome_expression_lambda]
    apply Agrees.of_skip hfront
    apply (header_agrees rfl).andThen
    intro head s₁ hs₁
    -- The body stands where the session is before its brace is taken.
    rw [frontLoc_ahead]
    apply (want_agrees .lcurl .openBrace rfl).andThen
    intro _ s₂ hs₂
    apply (blockTail_agrees s₂ rfl).andThen
    intro body s₃ hs₃
    exact .done rfl rfl
  · next token hblock hlambda hfront =>
    rw [Parser.outcome_expression_arithmetic (ne_nil_of_front h hfront)]
    · exact binary_agrees 0 s h
    · apply front_ne h
      intro loc hother
      exact hblock loc (Option.some.inj (hfront.symm.trans hother))
    · apply front_ne h
      intro loc hother
      exact hlambda loc (Option.some.inj (hfront.symm.trans hother))
termination_by 3 * s.ahead.length
decreasing_by
  all_goals
    have := length_skip_lt ‹s.front = some _›
    omega

/-- One token tells whether a binding or an expression is pulled. -/
theorem statement_agrees (s : Session) {ts : List Token} (h : s.ahead = ts) :
    Agrees s (statement s) (Parser.statement ts).outcome := by
  rw [statement]
  split
  · next loc hfront =>
    rw [eq_cons_of_front h hfront, Parser.outcome_statement_binding]
    apply Agrees.of_skip hfront
    apply (bindingName_agrees rfl).andThen
    intro name s₁ hs₁
    apply (want_agrees .assign .assignment rfl).andThen
    intro _ s₂ hs₂
    apply (expression_agrees s₂ rfl).andThen
    intro value s₃ hs₃
    apply (want_agrees .semicolon .semicolon rfl).andThen
    intro _ s₄ hs₄
    exact .done rfl rfl
  · next hother =>
    rw [Parser.outcome_statement_expression]
    · apply (expression_agrees s h).andThen
      intro value s₁ hs₁
      apply (want_agrees .semicolon .semicolon rfl).andThen
      intro _ s₂ hs₂
      exact .done rfl rfl
    · exact front_ne h hother
termination_by 3 * s.ahead.length + 1
decreasing_by
  · have := length_skip_lt ‹s.front = some _›
    omega
  · omega

/-- Statements are pulled up to the closing brace. -/
theorem blockTail_agrees (s : Session) {ts : List Token} (h : s.ahead = ts) :
    Agrees s (blockTail s) (Parser.blockTail ts).outcome := by
  rw [blockTail]
  split
  · next loc hfront =>
    rw [eq_cons_of_front h hfront, Parser.outcome_blockTail_close]
    exact .taken _ hfront
  · next hfront =>
    have hts := eq_nil_of_end h hfront
    rw [hts, Parser.outcome_blockTail_nil]
    exact .refused (h.trans hts)
  · next token hclose hfront =>
    rw [Parser.outcome_blockTail_statement (ne_nil_of_front h hfront)]
    · apply (statement_agrees s h).andThen
      intro first s₁ hs₁
      apply (blockTail_agrees s₁ rfl).andThen
      intro more s₂ hs₂
      exact .done rfl rfl
    · apply front_ne h
      intro loc hother
      exact hclose loc (Option.some.inj (hfront.symm.trans hother))
termination_by 3 * s.ahead.length + 2
decreasing_by all_goals omega

end

/-! ## Modules

Statements are pulled one after another until no token is left. What was pulled is what the
productions on lists make of the tokens ahead, and as many tokens are gone. -/

/-- Statements are pulled until no token is looked at. -/
theorem statements_agrees (s : Session) {ts : List Token} (h : s.ahead = ts) :
    Agrees s (statements s) (Parser.program ts) := by
  rw [statements]
  split
  · next hfront =>
    have hts := eq_nil_of_end h hfront
    rw [hts, Parser.program_nil, ← hts, ← h]
    exact .done rfl rfl
  · next token hfront =>
    rw [Parser.program_statement (ne_nil_of_front h hfront)]
    apply (statement_agrees s h).andThen
    intro first s₁ hs₁
    apply (statements_agrees s₁ rfl).andThen
    intro more s₂ hs₂
    exact .done rfl rfl
termination_by s.ahead.length
decreasing_by omega

/-- Pulling a module gives what the tokens ahead make up. On the way the session has skipped the
tokens that were taken, all of them if there is a module, and stands in front of the others. -/
theorem module_agrees (s : Session) :
    Agrees s s.module ((Parser.program s.ahead).andThen fun stmts left =>
      .ok (.module (Parser.frontLoc s.ahead) stmts, left)) := by
  -- The module stands at the token that was looked at first.
  rw [module, frontLoc_ahead]
  apply (statements_agrees s rfl).andThen
  intro stmts s' hs'
  exact .done rfl rfl

/-- If what is ahead is a module, the session goes on to the end. -/
theorem parse_of_ok {m : Node} (h : Parser.module s.ahead = .ok m) :
    s.parse = ((s.advance s.ahead.length).verdict (.ok m), s.advance s.ahead.length) := by
  obtain ⟨stmts, hprogram, rfl⟩ := Parser.module_eq_ok.mp h
  have hmodule := module_agrees s
  rw [hprogram] at hmodule
  obtain ⟨s', hs', hpull, hahead, hreach⟩ := hmodule.exists_ok
  -- Nothing is left ahead, so all tokens were skipped.
  have hafter := hreach.eq_advance.2
  rw [hahead, List.length_nil, Nat.sub_zero] at hafter
  rw [← hafter, parse, hpull]

/-- If not, it stands in front of what was not expected. -/
theorem parse_of_error {e : Parser.Failed} (h : Parser.module s.ahead = .error e) :
    s.parse = ((s.advance (s.ahead.length - e.rest.length)).verdict (.error (.ofFailed e)),
      s.advance (s.ahead.length - e.rest.length)) := by
  have hmodule := module_agrees s
  rw [Parser.module_eq_error.mp h] at hmodule
  obtain ⟨s', hpull, hahead, hreach⟩ := hmodule.exists_error
  -- The first token that was left is the one that was not expected.
  have hfault : Halted.fault ⟨e.expected, s'⟩ = .ofFailed e := by
    rw [Halted.fault, ParseFault.ofFailed, ← hahead, head?_ahead, frontLoc_ahead]
  have hafter := hreach.eq_advance.2
  rw [hahead] at hafter
  rw [← hafter, parse, hpull, ← hfault]

end LetFn.Session
