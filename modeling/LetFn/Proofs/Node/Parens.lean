import LetFn.Proofs.Grammar.Signs
import LetFn.Proofs.Node.Names

/-!
# As few parentheses as possible

Canonical text puts an operand into parentheses exactly if its layer is looser than that of its
place in the chain (`tightness_lt`). Words that derive the operand at that place have no choice:
going from a loose layer to a tight one takes a pair of parentheses, or a sign. So of all words that
derive a tree without signs, those of its canonical text have the fewest parentheses, and each sign
saves one pair at most (`parens_format_le`).
-/

namespace LetFn

namespace Step.Spells

/-- The marks that are written are the operators that are read. -/
theorem count_operator {steps : List Step} {ws : List Word} (h : Spells steps ws) {op : Operator}
    (hop : op ∈ Operator.spelled) :
    ws.count (.operator op) = steps.count (Step.mark op) := by
  induction h with
  | nil => rfl
  | @word text w steps words hw _ ih =>
    -- Only a text that spells the operator is read as it.
    have hiff : w = .operator op ↔ Step.word text = Step.mark op := by
      rw [Step.mark, Step.word.injEq, ← Word.spelling_of_classify? hw]
      constructor
      · rintro rfl
        rfl
      · intro hspelling
        have hclass := Word.classify?_spelling (Word.isLexical_operator hop)
        rw [Word.spelling, ← hspelling, Word.spelling_of_classify? hw, hw] at hclass
        exact Option.some.inj hclass
    rw [List.count_cons, List.count_cons, ih]
    simp only [beq_iff_eq, hiff]
  | space _ ih | newline _ ih | indent _ _ ih =>
    rw [ih, List.count_cons_of_ne]
    simp [Step.mark]

end Step.Spells

namespace Node

open Grammar
open Step (mark Spells)

/-! ## Parentheses among the steps

Only arithmetic puts operands between parentheses. All other parts of a tree are written without,
but for the one pair of each function. -/

/-- The number of opening parentheses that the steps write. -/
def parens (steps : List Step) : Nat := steps.count (mark .lparen)

@[simp] theorem parens_nil : parens [] = 0 := rfl

@[simp] theorem parens_append (as bs : List Step) : parens (as ++ bs) = parens as + parens bs :=
  List.count_append

/-- A name is no parenthesis. -/
theorem parens_name {text : Bytes} (h : Word.isName text = true) : parens [.word text] = 0 := by
  have hne : Step.word text ≠ mark .lparen := by
    rintro ⟨⟩
    revert h
    decide
  rw [parens, List.count_cons_of_ne hne, List.count_nil]

/-- No parentheses are written for a name with its type. -/
theorem parens_typedSteps {t : TypedName} (h : AreNames t.texts) : parens (typedSteps t) = 0 := by
  simp only [TypedName.texts, areNames_cons] at h
  show parens ([.word t.name] ++ [mark .colon, .space] ++ [.word t.type]) = 0
  rw [parens_append, parens_append, parens_name h.1, parens_name h.2.1]
  rfl

/-- Parameters stand between commas, without parentheses of their own. -/
theorem parens_paramSteps : ∀ {params : List TypedName},
    AreNames (params.flatMap TypedName.texts) → parens (paramSteps params) = 0
  | [], _ => rfl
  | [p], h => by
    rw [List.flatMap_cons, areNames_append] at h
    exact parens_typedSteps h.1
  | p :: q :: rest, h => by
    rw [List.flatMap_cons, areNames_append] at h
    show parens (typedSteps p ++ [mark .comma, .space] ++ paramSteps (q :: rest)) = 0
    rw [parens_append, parens_append, parens_typedSteps h.1, parens_paramSteps h.2]
    rfl

/-- The parameters of a function stand between the one pair that the grammar asks for. -/
theorem parens_headerSteps {ret : Bytes} {params : List TypedName} (hret : Word.isName ret = true)
    (hparams : AreNames (params.flatMap TypedName.texts)) :
    parens (headerSteps ret params) = 1 := by
  show parens ([mark .fn, mark .lparen] ++ paramSteps params ++
    ([mark .rparen, mark .colon, .space] ++ [.word ret] ++ [.space])) = 1
  simp only [parens_append, parens_paramSteps hparams, parens_name hret]
  rfl

/-- The braces of a block add no parentheses. -/
theorem parens_blockSteps (level : Nat) (stmts : List Step) :
    parens (blockSteps level stmts) = parens stmts := by
  rw [blockSteps, parens_append, parens_append]
  show 0 + parens stmts + 0 = parens stmts
  omega

/-- Parentheses are one pair, and only where they are needed. -/
theorem parens_parenthesized (needed : Bool) (steps : List Step) :
    parens (parenthesized needed steps) = parens steps + if needed then 1 else 0 := by
  cases needed with
  | false => rfl
  | true =>
    rw [parenthesized, if_pos rfl, if_pos rfl, parens_append, parens_append]
    show 1 + parens steps + 0 = parens steps + 1
    omega

/-! ## Arithmetic

The bound of a place is the layer that an operand has to have there. Parentheses are counted
together with the place: those within the operand, and the pair around it if its layer is below the
bound. -/

/-- Parentheses are put around an operand only if its layer is too loose for its place. -/
theorem tightness_lt {x : Node} {n : Nat} {right : Bool}
    (h : x.needsParens (n + 1) right = true) : x.tightness < n + right.toNat := by
  cases x with
  | expression loc op y z =>
    simp only [needsParens, Bool.and_eq_true, Bool.or_eq_true, decide_eq_true_eq, beq_iff_eq] at h
    obtain ⟨harith, hloose⟩ := h
    obtain ⟨-, -, k, -, hprec⟩ := precedence_of_isArithmetic harith
    show op.precedence - 1 < n + right.toNat
    -- It binds looser than the operator, or as tight on the right side.
    rcases hloose with hlt | ⟨rfl, heq⟩
    · omega
    · simp only [Bool.toNat_true]
      omega
  | _ => cases h

/-- The parentheses that an operand takes where its layer has to be above `bound`. -/
def parensAt (level bound : Nat) (x : Node) : Nat :=
  parens (exprSteps level x) + if x.tightness < bound then 1 else 0

/-- In the loosest place no operand needs parentheses around it. -/
theorem parensAt_zero (level : Nat) (x : Node) :
    parensAt level 0 x = parens (exprSteps level x) := by
  rw [parensAt, if_neg (Nat.not_lt_zero _), Nat.add_zero]

/-- A tighter place can only take more parentheses. -/
theorem parensAt_mono (level : Nat) {b c : Nat} (hbc : b ≤ c) (x : Node) :
    parensAt level b x ≤ parensAt level c x := by
  refine Nat.add_le_add_left ?_ _
  split
  · next hlt => rw [if_pos (Nat.lt_of_lt_of_le hlt hbc)]
  · exact Nat.zero_le _

/-- Wherever an operand stands, one pair of parentheses around it is enough. -/
theorem parensAt_le_succ (level bound : Nat) (x : Node) :
    parensAt level bound x ≤ parensAt level 0 x + 1 := by
  rw [parensAt_zero]
  refine Nat.add_le_add_left ?_ _
  split <;> omega

/-- An operand is written with no more parentheses than its place in the chain takes. -/
theorem parens_operandSteps_le (level n : Nat) (right : Bool) (x : Node) :
    parens (parenthesized (x.needsParens (n + 1) right) (exprSteps level x)) ≤
      parensAt level (n + right.toNat) x := by
  rw [parens_parenthesized]
  refine Nat.add_le_add_left ?_ _
  split
  · next hneeds => rw [if_pos (tightness_lt hneeds)]
  · exact Nat.zero_le _

/-- An expression takes the parentheses of its operands at their places in the chain, and none of
its own. -/
theorem parensAt_expression_le (level : Nat) (loc : Location) {op : Operator} {n : Nat}
    (hop : op.isArithmetic = true) (hprec : op.precedence = n + 1) (x y : Node) :
    parensAt level n (expression loc op x y) ≤ parensAt level n x + parensAt level (n + 1) y := by
  obtain ⟨hbind, -, -⟩ := precedence_of_isArithmetic hop
  -- In its own layer the expression itself needs no parentheses.
  have htight : ¬ (expression loc op x y).tightness < n := by
    show ¬ op.precedence - 1 < n
    omega
  have hbetween : parens [.space, mark op, .space] = 0 := by
    cases op with
    | add | sub | mul | div | mod | pow => rfl
    | _ => cases hop
  have hx : parens _ ≤ parensAt level n x := parens_operandSteps_le level n false x
  have hy : parens _ ≤ parensAt level (n + 1) y := parens_operandSteps_le level n true y
  rw [parensAt, if_neg htight, exprSteps, if_neg hbind, hprec, parens_append, parens_append,
    hbetween]
  omega

end Node

/-! ## Parentheses among the words

By induction on the derivation: in the rule for a sum, a product or a power the operands stand at
the places that canonical text gives them, a rule that goes from one layer to the next only tightens
the bound, and a pair of parentheses in the words pays for the one that the operand may need. -/

namespace Grammar.Signed

open Node

/-- The number of opening parentheses among the words. -/
def opened (ws : List Word) : Nat := ws.count (.operator .lparen)

@[simp] theorem opened_append (us vs : List Word) : opened (us ++ vs) = opened us + opened vs :=
  List.count_append

@[simp] theorem opened_literal (text : Bytes) (ws : List Word) :
    opened (.literal text :: ws) = opened ws := List.count_cons_of_ne (by simp)

theorem opened_operator {op : Operator} (hop : op ≠ .lparen) (ws : List Word) :
    opened (.operator op :: ws) = opened ws := List.count_cons_of_ne (by simpa using hop)

@[simp] theorem opened_lparen (ws : List Word) :
    opened (.operator .lparen :: ws) = opened ws + 1 := List.count_cons_self

/-- One operator of a chain: if the words of both operands have enough parentheses, the words of the
whole have. -/
theorem parensAt_chain_le {level m n k : Nat} {us vs : List Word} {x y : Node} {op : Operator}
    (hop : op.isArithmetic = true) (hprec : op.precedence = k + 1)
    (ihx : AreNames x.names → parensAt level k x ≤ opened us + m)
    (ihy : AreNames y.names → parensAt level (k + 1) y ≤ opened vs + n)
    (hnames : AreNames (expression .unknown op x y).names) :
    parensAt level k (expression .unknown op x y) ≤
      opened (us ++ .operator op :: vs) + (m + n) := by
  rw [names_expression, areNames_append] at hnames
  have hlparen : op ≠ .lparen := by
    rintro rfl
    cases hop
  have hle := parensAt_expression_le level .unknown hop hprec x y
  have hx := ihx hnames.1
  have hy := ihy hnames.2
  rw [opened_append, opened_operator hlparen]
  omega

/-- Words that derive an operand of some layer have the parentheses that it takes there, but for
their signs. -/
theorem parensAt_le_of_arith {n : Nat} {l : Layer} {ws : List Word} {x : Node}
    (h : Arith n l ws x) (level : Nat) :
    AreNames x.names → parensAt level l.bound x ≤ opened ws + n := by
  induction h with
  -- A chain of one operand: the place gets looser, so the bound on the tighter one is enough.
  | term _ ih | factor _ ih | atom _ ih =>
    intro hx
    exact Nat.le_trans (parensAt_mono level (by decide) _) (ih hx)
  | sum _ hop _ ihx ihy =>
    have hall : ∀ op ∈ [Operator.add, .sub], op.isArithmetic = true ∧ op.precedence = 0 + 1 := by
      decide
    exact parensAt_chain_le (hall _ hop).1 (hall _ hop).2 ihx ihy
  | product _ hop _ ihx ihy =>
    have hall : ∀ op ∈ [Operator.mul, .div, .mod],
        op.isArithmetic = true ∧ op.precedence = 1 + 1 := by
      decide
    exact parensAt_chain_le (hall _ hop).1 (hall _ hop).2 ihx ihy
  | power _ _ ihx ihy => exact parensAt_chain_le rfl rfl ihx ihy
  | literal text =>
    intro hx
    rw [names_literal, areNames_cons] at hx
    show parens [.word text] + 0 ≤ 0 + 0
    rw [parens_name hx.1]
  | @minus n ws x _ ih =>
    -- The sign pays for the parentheses that the difference may need.
    intro hx
    rw [names_expression, areNames_append, names_literal, areNames_cons] at hx
    have hzero : parensAt level 0 (literal .unknown (Text.utf8 "0")) = 0 := parens_name hx.1.1
    have hsub : Operator.sub.isArithmetic = true := rfl
    have hdifference := parensAt_expression_le level .unknown hsub rfl
      (literal .unknown (Text.utf8 "0")) x
    have hone := parensAt_le_succ level Layer.atom.bound
      (expression .unknown .sub (literal .unknown (Text.utf8 "0")) x)
    have hplace := parensAt_mono level (show 0 + 1 ≤ Layer.atom.bound by decide) x
    have hwords := ih hx.2
    rw [opened_operator (by decide)]
    omega
  | @plus n ws x _ ih =>
    intro hx
    have hle := ih hx
    rw [opened_operator (by decide)]
    omega
  | @parens n ws x _ ih =>
    intro hx
    have hle : parensAt level 0 x ≤ opened ws + n := ih hx
    -- The pair in the words pays for the pair around the operand, whose inner place is the loosest.
    have hone := parensAt_le_succ level Layer.atom.bound x
    rw [opened_append, opened_lparen]
    omega

/-- What a binding binds is written without parentheses. -/
theorem parens_of_bindingName {ws : List Word} {x : Node} (h : BindingName ws x)
    (hx : AreNames x.names) (level : Nat) : parens (exprSteps level x) = 0 := by
  cases h with
  | plain name =>
    rw [names_literal, areNames_cons] at hx
    exact parens_name hx.1
  | typed h => exact parens_typedSteps hx

mutual

/-- Words that derive an expression have its parentheses, but for their signs. -/
theorem parens_le_of_expression (level : Nat) : ∀ {n : Nat} {ws : List Word} {x : Node},
    Expression n ws x → AreNames x.names → parens (exprSteps level x) ≤ opened ws + n
  | _, _, _, .block h, hx => parens_le_of_block level h hx
  | _, _, _, .lambda h, hx => parens_le_of_lambda level h hx
  | _, _, x, .arith h, hx => by
    have hle := parensAt_le_of_arith h level hx
    rwa [Layer.bound, parensAt_zero] at hle

/-- The pair around the parameters stands in the words as well. -/
theorem parens_le_of_lambda (level : Nat) : ∀ {n : Nat} {ws : List Word} {x : Node},
    Lambda n ws x → AreNames x.names → parens (exprSteps level x) ≤ opened ws + n
  | n, _, _, @Lambda.mk _ us vs params body ret _ hbody, hx => by
    rw [names_lambda, areNames_append, areNames_cons] at hx
    obtain ⟨hparams, hret, hnames⟩ := hx
    have hle := parens_le_of_block level hbody hnames
    -- One parenthesis opens in front of the parameters, the others within them or in the body.
    have hopened : opened (.operator .fn :: .operator .lparen :: us ++
        .operator .rparen :: .operator .colon :: .literal ret :: vs) =
        opened us + opened vs + 1 := by
      rw [opened_append, opened_operator (by decide), opened_lparen, opened_operator (by decide),
        opened_operator (by decide), opened_literal]
      omega
    rw [exprSteps, parens_append, parens_headerSteps hret hparams, hopened]
    omega

/-- Words that derive a block have the parentheses of its statements. -/
theorem parens_le_of_block (level : Nat) : ∀ {n : Nat} {ws : List Word} {stmts : List Node},
    Block n ws stmts → AreNames (namesAll stmts) →
    parens (blockSteps level (stmtSteps (level + 1) stmts)) ≤ opened ws + n
  | _, _, _, .mk h, hstmts => by
    have hle := parens_le_of_statements (level + 1) h hstmts
    rw [parens_blockSteps, opened_append, opened_operator (by decide)]
    omega

/-- The name of a binding takes none, so its value has them all. -/
theorem parens_le_of_assignment (level : Nat) : ∀ {n : Nat} {ws : List Word} {x : Node},
    Assignment n ws x → AreNames x.names → parens (exprSteps level x) ≤ opened ws + n
  | _, _, _, .mk hname hvalue, hx => by
    rw [names_expression, areNames_append] at hx
    have hle := parens_le_of_expression level hvalue hx.2
    rw [exprSteps, if_pos rfl]
    simp only [parens_append, parens_of_bindingName hname hx.1, opened_append]
    rw [opened_operator (by decide), opened_operator (by decide)]
    show 0 + 0 + 0 + parens _ ≤ _
    omega

/-- A semicolon is no parenthesis. -/
theorem parens_le_of_statement (level : Nat) : ∀ {n : Nat} {ws : List Word} {x : Node},
    Statement n ws x → AreNames x.names → parens (exprSteps level x) ≤ opened ws + n
  | _, _, _, .assignment h, hx => by
    have hle := parens_le_of_assignment level h hx
    rw [opened_append]
    omega
  | _, _, _, .expression h, hx => by
    have hle := parens_le_of_expression level h hx
    rw [opened_append]
    omega

/-- The bound adds up over the statements. -/
theorem parens_le_of_statements (level : Nat) : ∀ {n : Nat} {ws : List Word} {stmts : List Node},
    Statements n ws stmts → AreNames (namesAll stmts) →
    parens (stmtSteps level stmts) ≤ opened ws + n
  | _, _, _, .nil, _ => Nat.zero_le _
  | _, _, _, .cons hx hmore, h => by
    rw [namesAll_cons, areNames_append] at h
    have hfirst := parens_le_of_statement level hx h.1
    have hrest := parens_le_of_statements level hmore h.2
    rw [stmtSteps, parens_append, parens_append, parens_append, opened_append]
    show 0 + parens _ + 0 + parens _ ≤ _
    omega

end

/-- Words that derive a module have the parentheses of its canonical text, but for their signs. -/
theorem parens_le_of_module {n : Nat} {ws : List Word} {t : Node} (h : Module n ws t)
    (ht : AreNames t.names) : parens t.steps ≤ opened ws + n := by
  obtain ⟨h⟩ := h
  exact parens_le_of_statements 0 h ht

end Grammar.Signed

open Grammar

/-- Trees that are the same up to locations are written alike. -/
theorem Node.steps_eq_of_same {m t : Node} (h : t.same m = true) : t.steps = m.steps := by
  rw [← steps_relocate (fun _ => .unknown) t, ← steps_relocate (fun _ => .unknown) m]
  exact congrArg steps (erase_eq_of_same h)

/-- The canonical text of a parsed module has no more parentheses than any words that derive the
module without signs, and each sign in a derivation saves one pair at most. -/
theorem parens_format_le {lines : List Bytes} {m t : Node} {ws : List Word} {signs : Nat}
    (hm : parseLines lines = .ok m) (ht : Signed.Module signs ws t) (hsame : t.same m = true) :
    (Lexed.ofLines (Text.splitAt Text.newline m.format)).fault = none ∧
      (Lexed.ofLines (Text.splitAt Text.newline m.format)).words.count (.operator .lparen) ≤
        ws.count (.operator .lparen) + signs := by
  have hwell := Node.isWellFormed_of_parseLines hm
  obtain ⟨words, hwords, -⟩ := Node.spells_module hwell
  have hread := readsLines_of_readsText (Step.readsText_render hwords none) 1
  rw [← Step.write_eq] at hread
  refine ⟨hread.1, ?_⟩
  -- The tree that the words derive has the names of the parsed one.
  have hnames : Node.AreNames t.names := by
    have ht : t.isWellFormed = true := by
      rw [← Node.isWellFormed_erase, Node.erase_eq_of_same hsame, Node.isWellFormed_erase, hwell]
    exact (Node.isWellFormed_iff.mp ht).2
  calc (Lexed.ofLines (Text.splitAt Text.newline m.format)).words.count (.operator .lparen)
    _ = words.count (.operator .lparen) := congrArg _ hread.2
    _ = Node.parens m.steps := hwords.count_operator (by decide)
    _ = Node.parens t.steps := congrArg _ (Node.steps_eq_of_same hsame).symm
    _ ≤ ws.count (.operator .lparen) + signs := Signed.parens_le_of_module ht hnames

/-- The tree of `(0 - 1) * (a - b);`, which can be had with a sign in place of the zero. -/
def negatedTree : Node :=
  .module .unknown [.expression .unknown .mul
    (.expression .unknown .sub (.literal .unknown (Text.utf8 "0"))
      (.literal .unknown (Text.utf8 "1")))
    (.expression .unknown .sub (.literal .unknown (Text.utf8 "a"))
      (.literal .unknown (Text.utf8 "b")))]

/-- The words of `(0 - 1) * (a - b);`. -/
def negatedWords : List Word :=
  [.operator .lparen, .literal (Text.utf8 "0"), .operator .sub, .literal (Text.utf8 "1"),
    .operator .rparen, .operator .mul, .operator .lparen, .literal (Text.utf8 "a"), .operator .sub,
    .literal (Text.utf8 "b"), .operator .rparen, .operator .semicolon]

/-- The words derive the tree without a sign. -/
theorem derives_negatedTree : Signed.Module 0 negatedWords negatedTree := by
  have hatom (text : Bytes) : Signed.Arith 0 .factor [.literal text] (.literal .unknown text) :=
    .atom (.literal text)
  have hdifference (s t : Bytes) : Signed.Arith 0 .atom
      [.operator .lparen, .literal s, .operator .sub, .literal t, .operator .rparen]
      (.expression .unknown .sub (.literal .unknown s) (.literal .unknown t)) :=
    .parens (.sum (.term (.factor (hatom s))) (by decide) (.factor (hatom t)))
  have hmul : Operator.mul ∈ [Operator.mul, .div, .mod] := by decide
  have hproduct := Signed.Arith.product
    (.factor (.atom (hdifference (Text.utf8 "0") (Text.utf8 "1")))) hmul
    (.atom (hdifference (Text.utf8 "a") (Text.utf8 "b")))
  exact .mk (.cons (.expression (.arith (.term hproduct))) .nil)

/-- A source may have a sign and needless parentheses: its canonical text has the two pairs of the
words. -/
theorem parens_format_le_negatedTree :
    ∃ m, parseLines [Text.utf8 "-1 * (a - (b) );"] = .ok m ∧
      Signed.Module 0 negatedWords negatedTree ∧ negatedTree.same m = true ∧
      (Lexed.ofLines (Text.splitAt Text.newline m.format)).words.count (.operator .lparen) ≤ 2 := by
  have hok : (match parseLines [Text.utf8 "-1 * (a - (b) );"] with
      | .ok m => negatedTree.same m
      | .error _ => false) = true := by decide +kernel
  split at hok
  · next m hm =>
    exact ⟨m, hm, derives_negatedTree, hok, (parens_format_le hm derives_negatedTree hok).2⟩
  · cases hok

end LetFn
