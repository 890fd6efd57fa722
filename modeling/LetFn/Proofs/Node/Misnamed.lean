import LetFn.Proofs.Node.Names
import LetFn.Proofs.Parse.Pasting

/-!
# Trees with texts that are no names

A tree built by hand can hold any text where a name belongs. Its canonical text then never reads
back as that tree, but it need not be rejected: `a;b` in the place of a literal is read as two
statements (`parseText_format_split`). What is read are the words of the text on its own, so it
depends on these whether the result is a module.

Keywords, at least, are always found out. In a module they stand in front of what they introduce
(`keywordsFollowed_of_module`), but in canonical text a name stands in front of a mark that closes
its place (`Pastes`). Bytes that no word has are found out too, if there are no comments.
-/

namespace LetFn

open Snippet Grammar
open Step (mark)

/-! ## What follows a keyword

An invariant of everything the grammar derives, one lemma for each rule: behind `let` comes a name,
and behind `fn` a parenthesis. A keyword that stands for a name has an operator or the end behind
it, so the text is refused. -/

namespace Word

/-- A keyword goes only before what it introduces: `let` before a name, `fn` before a
parenthesis. -/
def goesBefore (w : Word) (next : Option Word) : Bool :=
  match w with
  | operator .bind => next.any isLiteral
  | operator .fn => next == some (operator .lparen)
  | _ => true

/-- A word that can be the last one can stand in front of every word. -/
theorem goesBefore_of_none {w : Word} (h : w.goesBefore none = true) (next : Option Word) :
    w.goesBefore next = true := by
  rcases w with text | op
  · rfl
  · cases op <;> first | rfl | cases h

end Word

namespace Grammar

/-- Every keyword stands before what it introduces. -/
def keywordsFollowed : List Word → Bool
  | [] => true
  | w :: rest => w.goesBefore rest.head? && keywordsFollowed rest

@[simp] theorem keywordsFollowed_nil : keywordsFollowed [] = true := rfl

@[simp] theorem keywordsFollowed_cons (w : Word) (rest : List Word) :
    keywordsFollowed (w :: rest) = (w.goesBefore rest.head? && keywordsFollowed rest) := rfl

@[simp] theorem goesBefore_literal (text : Bytes) (next : Option Word) :
    (Word.literal text).goesBefore next = true := rfl

/-- An operator that is no keyword can stand in front of every word. -/
theorem goesBefore_operator {op : Operator} (hop : op.isKeyword = false) (next : Option Word) :
    (Word.operator op).goesBefore next = true := by
  cases op <;> first | rfl | cases hop

/-- Words in a row have their keywords followed if those in front and those behind have them: what
can be the last word can stand in front of every word. -/
theorem keywordsFollowed_append {us vs : List Word} (hus : keywordsFollowed us = true)
    (hvs : keywordsFollowed vs = true) : keywordsFollowed (us ++ vs) = true := by
  induction us with
  | nil => exact hvs
  | cons w us ih =>
    rw [keywordsFollowed_cons, Bool.and_eq_true] at hus
    rw [List.cons_append, keywordsFollowed_cons, ih hus.2, Bool.and_true]
    cases us with
    | nil => exact Word.goesBefore_of_none hus.1 _
    | cons => exact hus.1

/-- An operator that is no keyword can be put in front. -/
theorem keywordsFollowed_operator {op : Operator} {ws : List Word} (hop : op.isKeyword = false)
    (hws : keywordsFollowed ws = true) : keywordsFollowed (.operator op :: ws) = true := by
  rw [keywordsFollowed_cons, goesBefore_operator hop, hws]
  rfl

/-- An operator that is no keyword may stand between. -/
theorem keywordsFollowed_chain {op : Operator} {us vs : List Word} (hop : op.isKeyword = false)
    (hus : keywordsFollowed us = true) (hvs : keywordsFollowed vs = true) :
    keywordsFollowed (us ++ .operator op :: vs) = true :=
  keywordsFollowed_append hus (keywordsFollowed_operator hop hvs)

/-- Words between two marks. -/
theorem keywordsFollowed_between {op op' : Operator} {ws : List Word} (hop : op.isKeyword = false)
    (hop' : op'.isKeyword = false) (hws : keywordsFollowed ws = true) :
    keywordsFollowed (.operator op :: ws ++ [.operator op']) = true :=
  keywordsFollowed_append (keywordsFollowed_operator hop hws) (keywordsFollowed_operator hop' rfl)

/-- Arithmetic has no keywords at all. -/
theorem keywordsFollowed_of_arith {l : Layer} {ws : List Word} {x : Node} (h : Arith l ws x) :
    keywordsFollowed ws = true := by
  induction h with
  | term _ ih | factor _ ih | atom _ ih => exact ih
  | sum _ hop _ ihx ihy =>
    have hmark : ∀ op ∈ [Operator.add, .sub], op.isKeyword = false := by decide
    exact keywordsFollowed_chain (hmark _ hop) ihx ihy
  | product _ hop _ ihx ihy =>
    have hmark : ∀ op ∈ [Operator.mul, .div, .mod], op.isKeyword = false := by decide
    exact keywordsFollowed_chain (hmark _ hop) ihx ihy
  | power _ _ ihx ihy => exact keywordsFollowed_chain rfl ihx ihy
  | literal text => rfl
  | minus _ ih | plus _ ih => exact keywordsFollowed_operator rfl ih
  | parens _ ih => exact keywordsFollowed_between rfl rfl ih

theorem keywordsFollowed_of_typedLiteral {ws : List Word} {t : TypedName}
    (h : TypedLiteral ws t) : keywordsFollowed ws = true := by
  cases h
  rfl

theorem keywordsFollowed_of_paramList {ws : List Word} {params : List TypedName}
    (h : ParamList ws params) : keywordsFollowed ws = true := by
  induction h with
  | last h => exact keywordsFollowed_of_typedLiteral h
  | cons h _ ih => exact keywordsFollowed_chain rfl (keywordsFollowed_of_typedLiteral h) ih

theorem keywordsFollowed_of_params {ws : List Word} {params : List TypedName}
    (h : Params ws params) : keywordsFollowed ws = true := by
  cases h with
  | none => rfl
  | some h => exact keywordsFollowed_of_paramList h

/-- A binding begins with the name that it binds. -/
theorem keywordsFollowed_bind {ws more : List Word} {x : Node} (h : BindingName ws x)
    (hmore : keywordsFollowed (ws ++ more) = true) :
    keywordsFollowed (.operator .bind :: (ws ++ more)) = true := by
  rw [keywordsFollowed_cons, hmore, Bool.and_true]
  rcases h with _ | ⟨_, _⟩ <;> rfl

theorem keywordsFollowed_of_bindingName {ws : List Word} {x : Node} (h : BindingName ws x) :
    keywordsFollowed ws = true := by
  cases h with
  | plain name => rfl
  | typed h => exact keywordsFollowed_of_typedLiteral h

mutual

/-- In an expression keywords are followed. The proofs for the other forms go with this one, as the
forms contain one another. -/
theorem keywordsFollowed_of_expression {ws : List Word} {x : Node} :
    Expression ws x → keywordsFollowed ws = true
  | .block h => keywordsFollowed_of_block h
  | .lambda h => keywordsFollowed_of_lambda h
  | .arith h => keywordsFollowed_of_arith h

/-- Behind `fn` stands an opening parenthesis. -/
theorem keywordsFollowed_of_lambda {ws : List Word} {x : Node} :
    Lambda ws x → keywordsFollowed ws = true
  | @Lambda.mk us vs _ _ ret hparams hbody => by
    have hret : keywordsFollowed ([.literal ret] ++ vs) = true :=
      keywordsFollowed_append rfl (keywordsFollowed_of_block hbody)
    have hopen : keywordsFollowed ([.operator .fn, .operator .lparen] ++ us) = true :=
      keywordsFollowed_append rfl (keywordsFollowed_of_params hparams)
    exact keywordsFollowed_chain rfl hopen (keywordsFollowed_operator rfl hret)

theorem keywordsFollowed_of_block {ws : List Word} {stmts : List Node} :
    Block ws stmts → keywordsFollowed ws = true
  | .mk h => keywordsFollowed_between rfl rfl (keywordsFollowed_of_statements h)

/-- Behind `let` stands a name. -/
theorem keywordsFollowed_of_assignment {ws : List Word} {x : Node} :
    Assignment ws x → keywordsFollowed ws = true
  | .mk hname hvalue =>
    keywordsFollowed_bind hname (keywordsFollowed_chain rfl
      (keywordsFollowed_of_bindingName hname) (keywordsFollowed_of_expression hvalue))

theorem keywordsFollowed_of_statement {ws : List Word} {x : Node} :
    Statement ws x → keywordsFollowed ws = true
  | .assignment h => keywordsFollowed_chain rfl (keywordsFollowed_of_assignment h) rfl
  | .expression h => keywordsFollowed_chain rfl (keywordsFollowed_of_expression h) rfl

/-- In statements keywords are followed, so they are in a module. -/
theorem keywordsFollowed_of_statements {ws : List Word} {stmts : List Node} :
    Statements ws stmts → keywordsFollowed ws = true
  | .nil => rfl
  | .cons h hrest =>
    keywordsFollowed_append (keywordsFollowed_of_statement h)
      (keywordsFollowed_of_statements hrest)

end

/-- In a module every keyword stands before what it introduces. -/
theorem keywordsFollowed_of_module {ws : List Word} {t : Node} (h : Module ws t) :
    keywordsFollowed ws = true := by
  obtain ⟨h⟩ := h
  exact keywordsFollowed_of_statements h

end Grammar

/-! ## What follows a name

The writer puts a mark behind every name, perhaps with a blank between. So a name is read by itself,
whatever bytes it has: what stands behind it never joins it. -/

namespace Step

/-- The steps go on with a mark other than an opening parenthesis. -/
inductive Closes : List Step → Prop
  | mark {op : Operator} (hop : op ∈ Operator.spelled) (hne : op ≠ .lparen) (rest : List Step) :
      Closes (mark op :: rest)
  | space {rest : List Step} : Closes rest → Closes (.space :: rest)

/-- The steps write these names, each in front of a mark that closes its place, and otherwise marks
and white space. -/
inductive Pastes : List Step → List Bytes → Prop
  | nil : Pastes [] []
  | name {rest : List Step} {names : List Bytes} (s : Bytes) (hclose : Closes rest) :
      Pastes rest names → Pastes (.word s :: rest) (s :: names)
  | mark {op : Operator} {rest : List Step} {names : List Bytes} (hop : op ∈ Operator.spelled) :
      Pastes rest names → Pastes (mark op :: rest) names
  | space {rest : List Step} {names : List Bytes} : Pastes rest names → Pastes (.space :: rest) names
  | newline {rest : List Step} {names : List Bytes} :
      Pastes rest names → Pastes (.newline :: rest) names
  | indent {rest : List Step} {names : List Bytes} (levels : Nat) :
      Pastes rest names → Pastes (.indent levels :: rest) names

end Step

namespace Node

open Step (Closes Pastes)

/-- The steps write the names `own` wherever a mark closes their place. -/
def PastesBefore (steps : List Step) (own : List Bytes) : Prop :=
  ∀ rest names, Closes rest → Pastes rest names → Pastes (steps ++ rest) (own ++ names)

/-- A word that is written pastes as itself. -/
theorem pastesBefore_word (s : Bytes) : PastesBefore [.word s] [s] :=
  fun _ _ hclose hrest => .name s hclose hrest

/-- Parentheses do not add to the names. -/
theorem pastesBefore_parenthesized {steps : List Step} {own : List Bytes} (needed : Bool)
    (h : PastesBefore steps own) : PastesBefore (parenthesized needed steps) own := by
  cases needed with
  | false => exact h
  | true =>
    intro rest names hclose hrest
    have hinner := h (mark .rparen :: rest) names (.mark (by decide) (by decide) _)
      (.mark (by decide) hrest)
    rw [parenthesized, if_pos rfl, List.append_assoc, List.append_assoc]
    exact .mark (by decide) hinner

/-- Two texts with an operator between them. -/
theorem pastesBefore_infix {us vs : List Step} {a b : List Bytes} {op : Operator}
    (hop : op ∈ Operator.spelled) (hne : op ≠ .lparen) (hus : PastesBefore us a)
    (hvs : PastesBefore vs b) : PastesBefore (us ++ [.space, mark op, .space] ++ vs) (a ++ b) := by
  intro rest names hclose hrest
  rw [List.append_assoc, List.append_assoc, List.append_assoc]
  exact hus _ _ (.space (.mark hop hne _)) (.space (.mark hop (.space (hvs _ _ hclose hrest))))

/-- A name with a type pastes as the two texts. -/
theorem pastesBefore_typed (t : TypedName) : PastesBefore (typedSteps t) t.texts :=
  fun _ _ hclose hrest =>
    .name t.name (.mark (by decide) (by decide) _)
      (.mark (by decide) (.space (.name t.type hclose hrest)))

/-- The parameters paste as their names and types, in order. -/
theorem pastesBefore_params : ∀ params : List TypedName,
    PastesBefore (paramSteps params) (params.flatMap TypedName.texts)
  | [] => fun _ _ _ hrest => hrest
  | [p] => by
    rw [List.flatMap_cons, List.flatMap_nil, List.append_nil]
    exact pastesBefore_typed p
  | p :: q :: rest => by
    intro steps names hclose hsteps
    have hmore := pastesBefore_params (q :: rest) steps names hclose hsteps
    show Pastes (typedSteps p ++ [mark .comma, .space] ++ paramSteps (q :: rest) ++ steps) _
    rw [List.flatMap_cons, List.append_assoc, List.append_assoc, List.append_assoc]
    exact pastesBefore_typed p _ _ (.mark (by decide) (by decide) _) (.mark (by decide) (.space hmore))

/-- The return type stands in front of the brace of a body. -/
theorem pastes_header (ret : Bytes) (params : List TypedName) {body : List Step}
    {names : List Bytes} (hclose : Closes body) (hbody : Pastes body names) :
    Pastes (headerSteps ret params ++ body)
      (params.flatMap TypedName.texts ++ ret :: names) := by
  have hret : Pastes (mark .rparen :: mark .colon :: .space :: .word ret :: .space :: body)
      (ret :: names) :=
    .mark (by decide) (.mark (by decide) (.space (.name ret (.space hclose) (.space hbody))))
  have hparams := pastesBefore_params params _ _ (.mark (by decide) (by decide) _) hret
  rw [headerSteps, List.append_assoc, List.append_assoc]
  exact .mark (by decide) (.mark (by decide) hparams)

/-- A block pastes as its statements do. -/
theorem pastesBefore_block (level : Nat) {stmts : List Step} {own : List Bytes}
    (h : ∀ rest names, Pastes rest names → Pastes (stmts ++ rest) (own ++ names)) :
    PastesBefore (blockSteps level stmts) own := by
  intro rest names hclose hrest
  rw [blockSteps, List.append_assoc, List.append_assoc]
  exact .mark (by decide) (.newline (h _ _ (.indent level (.mark (by decide) hrest))))

/-- An operand pastes as the names in it, by recursion on the operand. -/
theorem pastesBefore_operand (level : Nat) : ∀ {x : Node}, x.hasOperandShape = true →
    PastesBefore (exprSteps level x) x.names
  | literal _ value, _ => pastesBefore_word value
  | expression _ op x y, h => by
    simp only [hasOperandShape, Bool.and_eq_true] at h
    obtain ⟨hbind, hspelled, -⟩ := precedence_of_isArithmetic h.1.1
    have hne : op ≠ .lparen := by
      rintro rfl
      cases h.1.1
    rw [exprSteps, if_neg hbind]
    exact pastesBefore_infix hspelled hne
      (pastesBefore_parenthesized _ (pastesBefore_operand level h.1.2))
      (pastesBefore_parenthesized _ (pastesBefore_operand level h.2))

/-- The left side of a binding pastes as its name, with its type if it has one. -/
theorem pastesBefore_bindable (level : Nat) {x : Node} (h : x.hasBindableShape = true) :
    PastesBefore (exprSteps level x) x.names := by
  cases x with
  | literal _ value => exact pastesBefore_word value
  | typed t => exact pastesBefore_typed t
  | _ => cases h

mutual

/-- A block, a function literal or arithmetic pastes as the names in it. -/
theorem pastesBefore_value (level : Nat) : ∀ {x : Node}, x.hasValueShape = true →
    PastesBefore (exprSteps level x) x.names
  | block _ stmts, h => pastesBefore_block level (pastes_statements (level + 1) h)
  | lambda _ ret params _ body, h => by
    intro rest names hclose hrest
    have hbody := pastesBefore_block level (pastes_statements (level + 1) h) rest names hclose hrest
    rw [exprSteps, names_lambda, List.append_assoc, List.append_assoc]
    exact pastes_header ret params (.mark (by decide) (by decide) _) hbody
  | literal loc value, h => pastesBefore_operand level (x := literal loc value) h
  | expression loc op x y, h => pastesBefore_operand level (x := expression loc op x y) h

/-- A binding pastes as the names on both sides. -/
theorem pastesBefore_binding (level : Nat) : ∀ {x : Node}, x.hasBindingShape = true →
    PastesBefore (exprSteps level x) x.names
  | expression _ op x y, h => by
    simp only [hasBindingShape, Bool.and_eq_true, beq_iff_eq] at h
    obtain ⟨⟨rfl, hx⟩, hy⟩ := h
    intro rest names hclose hrest
    have hassign : Operator.assign ∈ Operator.spelled ∧ Operator.assign ≠ .lparen := by decide
    have hinfix := pastesBefore_infix hassign.1 hassign.2 (pastesBefore_bindable level hx)
      (pastesBefore_value level hy) rest names hclose hrest
    rw [exprSteps, if_pos rfl]
    rw [names_expression, List.append_assoc, List.append_assoc] at *
    exact .mark (by decide) (.space hinfix)

/-- Statements paste as the names in them; the names of what follows come behind. -/
theorem pastes_statements (level : Nat) : ∀ {stmts : List Node}, haveStatementShape stmts = true →
    ∀ rest names, Pastes rest names →
      Pastes (stmtSteps level stmts ++ rest) (namesAll stmts ++ names)
  | [], _ => fun _ _ hrest => hrest
  | n :: more, h => by
    simp only [haveStatementShape, Bool.and_eq_true, Bool.or_eq_true] at h
    intro rest names hrest
    have hmore := pastes_statements level h.2 rest names hrest
    have hn : PastesBefore (exprSteps level n) n.names :=
      h.1.elim (pastesBefore_binding level) (pastesBefore_value level)
    have hstmt := hn (mark .semicolon :: .newline :: _) _ (.mark (by decide) (by decide) _)
      (.mark (by decide) (.newline hmore))
    rw [namesAll_cons, List.append_assoc, stmtSteps]
    simp only [List.append_assoc]
    exact .indent level hstmt

end

/-- A module pastes as all names in it. -/
theorem pastes_module {m : Node} (h : m.hasShape = true) : Pastes m.steps m.names := by
  cases m with
  | module loc stmts =>
    have hpastes := pastes_statements 0 h [] [] .nil
    rw [List.append_nil, List.append_nil] at hpastes
    exact hpastes
  | _ => cases h

end Node

/-! ## Keywords for names -/

/-- Letters and digits are read as a name, or else as a keyword. -/
theorem Word.classify?_of_isAlphanumeric {s : Bytes} (h : isAlphanumeric s = true) :
    ∃ w, classify? s = some w ∧
      (isName s = true ∨ ∃ op, op.isKeyword = true ∧ w = .operator op) := by
  rcases hfound : Operator.ofSpelling? s with _ | op
  · have hword : classify? s = some (.literal s) := by rw [classify?, hfound, if_pos h]
    exact ⟨_, hword, .inl (isLexical_literal.symm.trans (isLexical_of_classify? hword))⟩
  · obtain ⟨hspelled, rfl⟩ := mem_spelled_of_ofSpelling? hfound
    refine ⟨.operator op, by rw [classify?, hfound], .inr ⟨op, ?_, rfl⟩⟩
    rcases keyword_of_isAlphanumeric hspelled h with rfl | rfl <;> rfl

/-- A keyword does not go in front of a mark, but for `fn` in front of a parenthesis. -/
theorem Word.not_goesBefore_of_isKeyword {op op' : Operator} (hop : op.isKeyword = true)
    (hop' : op' ∈ Operator.spelled) (hne : op' ≠ .lparen) :
    (operator op).goesBefore (some (operator op')) = false := by
  have hmarks : ∀ op' ∈ Operator.spelled, op' ≠ .lparen → ∀ op ∈ Operator.spelled,
      op.isKeyword = true → (operator op).goesBefore (some (operator op')) = false := by decide
  have hspelled : op ∈ Operator.spelled := by cases op <;> first | decide | cases hop
  exact hmarks op' hop' hne op hspelled hop

namespace Step

open Node (AreNames areNames_cons areNames_nil)

/-- A mark is read as itself, whatever is written behind it. -/
theorem words?_mark {op : Operator} (hop : op ∈ Operator.spelled) (rest : List Step) :
    words? false (mark op :: rest) = Word.append? (some [.operator op]) (words? false rest) :=
  words?_word (Word.classify?_spelling (Word.isLexical_operator hop)) rest

/-- A mark that closes a place is the first word to be read behind it. -/
theorem Closes.head?_words? {steps : List Step} (h : Closes steps) {ws : List Word}
    (hws : words? false steps = some ws) :
    ∃ op ∈ Operator.spelled, op ≠ .lparen ∧ ws.head? = some (.operator op) := by
  induction h with
  | @mark op hop hne rest =>
    rw [words?_mark hop] at hws
    rcases hrest : words? false rest with _ | more
    · rw [hrest] at hws
      cases hws
    · rw [hrest] at hws
      cases hws
      exact ⟨op, hop, hne, rfl⟩
  | space _ ih =>
    rw [words?_space] at hws
    exact ih hws

/-- If all texts are letters and digits and the keywords among the words stand where they may, then
the texts are names. -/
theorem Pastes.areNames {steps : List Step} {names : List Bytes} (h : Pastes steps names)
    (hletters : ∀ s ∈ names, Word.isAlphanumeric s = true) :
    ∃ ws, words? false steps = some ws ∧ (keywordsFollowed ws = true → AreNames names) := by
  induction h with
  | nil => exact ⟨[], rfl, fun _ => areNames_nil.mpr trivial⟩
  | @name rest names s hclose _ ih =>
    obtain ⟨hs, hnames⟩ := List.forall_mem_cons.mp hletters
    obtain ⟨ws, hws, hfollowed⟩ := ih hnames
    obtain ⟨w, hw, hcase⟩ := Word.classify?_of_isAlphanumeric hs
    refine ⟨w :: ws, by rw [words?_word hw, hws]; rfl, fun hall => ?_⟩
    rw [keywordsFollowed_cons, Bool.and_eq_true] at hall
    refine areNames_cons.mpr ⟨hcase.resolve_right ?_, hfollowed hall.2⟩
    -- A keyword would stand before the mark that closes its place.
    rintro ⟨op, hkeyword, rfl⟩
    obtain ⟨op', hspelled, hne, hhead⟩ := hclose.head?_words? hws
    rw [hhead, Word.not_goesBefore_of_isKeyword hkeyword hspelled hne] at hall
    cases hall.1
  | @mark op rest names hop _ ih =>
    obtain ⟨ws, hws, hfollowed⟩ := ih hletters
    refine ⟨.operator op :: ws, by rw [words?_mark hop, hws]; rfl, fun hall => ?_⟩
    rw [keywordsFollowed_cons, Bool.and_eq_true] at hall
    exact hfollowed hall.2
  | space _ ih => simpa using ih hletters
  | newline _ ih => simpa using ih hletters
  | indent levels _ ih => simpa using ih hletters

/-! ## Foreign bytes in names -/

/-- Without comments a byte that no word has is seen. -/
theorem Pastes.words?_of_foreign {steps : List Step} {names : List Bytes} (h : Pastes steps names)
    (hcomment : ∀ s ∈ names, ¬HasComment s) {s : Bytes} (hs : s ∈ names) {b : UInt8} (hmem : b ∈ s)
    (hb : Category.of b = .other) : words? false steps = none := by
  induction h with
  | nil => cases hs
  | @name rest names t _ _ ih =>
    obtain ⟨ht, hnames⟩ := List.forall_mem_cons.mp hcomment
    rw [words?, text, endsCommented_of_not_hasComment ht]
    rcases List.mem_cons.mp hs with rfl | hs
    · rw [textWords?_of_foreign ht hmem hb, Word.append?_none_left]
    · rw [ih hnames hs, Word.append?_none_right]
  | mark hop _ ih => rw [words?_mark hop, ih hcomment hs, Word.append?_none_right]
  | space _ ih | newline _ ih | indent _ _ ih => simpa using ih hcomment hs

end Step

/-! ## Misnamed trees

A text that is not accepted is no text for the tree; one that is accepted has names only, so its
tree is another one. -/

/-- Parsing fails if and only if it does not succeed. -/
theorem exists_error_iff {text : Bytes} :
    (∃ f, parseText text = .error f) ↔ ¬∃ m, parseText text = .ok m := by
  cases parseText text <;> simp

namespace Node

/-- Canonical text never comes back as the tree if a text of the tree is no name. -/
theorem not_same_of_misnamed {m : Node} {s : Bytes} (hs : s ∈ m.names)
    (hbad : Word.isName s = false) {n : Node} (hn : parseText m.format = .ok n) :
    n.same m = false := by
  rw [Bool.eq_false_iff]
  intro hsame
  have hnames := (isWellFormed_iff.mp (isWellFormed_of_parseText hn hsame)).2 s hs
  rw [hnames] at hbad
  cases hbad

/-- A module that holds a text that is no name has canonical text that is never read back as that
module. As long as no line is over the limit, the text is rejected exactly if the words of its
steps, each text of the tree read on its own, make up no module. In particular it is rejected if all
texts are letters and digits, and if there are no comments but a byte that no word has. -/
theorem parseText_format_misnamed {m : Node} (hshape : m.hasShape = true) {s : Bytes}
    (hs : s ∈ m.names) (hbad : Word.isName s = false) :
    (∀ n, parseText m.format = .ok n → n.same m = false) ∧
      ((∀ line ∈ Text.splitAt Text.newline m.format, line.length < Source.limit) →
        ((∃ f, parseText m.format = .error f) ↔
          ∀ ws t, Step.words? false m.steps = some ws → ¬Module ws t) ∧
        ((∀ t ∈ m.names, Word.isAlphanumeric t = true) → ∃ f, parseText m.format = .error f) ∧
        ((∀ t ∈ m.names, ¬HasComment t) → (∃ t ∈ m.names, ∃ b ∈ t, Category.of b = .other) →
          ∃ f, parseText m.format = .error f)) := by
  refine ⟨fun n => not_same_of_misnamed hs hbad, fun hlimit => ?_⟩
  have hwritten := parseText_write_iff hlimit
  have hpastes := pastes_module hshape
  have hrejected : (∃ f, parseText m.format = .error f) ↔
      ∀ ws t, Step.words? false m.steps = some ws → ¬Module ws t := by
    rw [exists_error_iff, format, hwritten]
    simp only [not_exists, not_and]
  refine ⟨hrejected, fun hletters => hrejected.mpr fun ws t hws ht => ?_,
    fun hcomment ⟨u, hu, b, hmem, hb⟩ => hrejected.mpr fun ws t hws => ?_⟩
  · obtain ⟨ws', hws', hnames⟩ := hpastes.areNames hletters
    cases hws.symm.trans hws'
    rw [hnames (keywordsFollowed_of_module ht) s hs] at hbad
    cases hbad
  · rw [hpastes.words?_of_foreign hcomment hu hmem hb] at hws
    cases hws

/-- The statement `fn(): fn { };`, in which the return type is a keyword. -/
def keywordTree : Node :=
  module .unknown [lambda .unknown (Text.utf8 "fn") [] .unknown []]

/-- The statement `x_y;`, in which the literal holds a byte that no word has. -/
def foreignTree : Node := module .unknown [literal .unknown (Text.utf8 "x_y")]

/-- A name that is a keyword, and one with a byte that is not ASCII: neither text parses. -/
theorem parseText_format_keyword_and_foreign :
    (∃ f, parseText keywordTree.format = .error f) ∧
      ∃ f, parseText foreignTree.format = .error f := by
  constructor
  · obtain ⟨-, hfits⟩ := parseText_format_misnamed (m := keywordTree) (s := Text.utf8 "fn")
      (by decide) (by decide) (by decide)
    exact (hfits (by decide +kernel)).2.1 (by decide)
  · obtain ⟨-, hfits⟩ := parseText_format_misnamed (m := foreignTree) (s := Text.utf8 "x_y")
      (by decide) (by decide) (by decide)
    exact (hfits (by decide +kernel)).2.2 (by decide) (by decide)

/-- The literal `a;b`, which is not one. -/
def splitTree : Node := module .unknown [literal .unknown (Text.utf8 "a;b")]

/-- The literal `a;b` is read back as two statements. -/
theorem parseText_format_split :
    splitTree.hasShape = true ∧
      (∃ s ∈ splitTree.names, Word.isName s = false) ∧
      ∃ n, parseText splitTree.format = .ok n ∧ n.erase = module .unknown
        [literal .unknown (Text.utf8 "a"), literal .unknown (Text.utf8 "b")] := by
  have hsame : (match parseText splitTree.format with
      | .ok n => n.same (module .unknown
          [literal .unknown (Text.utf8 "a"), literal .unknown (Text.utf8 "b")])
      | .error _ => false) = true := by decide +kernel
  refine ⟨by decide, by decide, ?_⟩
  split at hsame
  · next n hn => exact ⟨n, hn, erase_eq_of_same hsame⟩
  · cases hsame

end Node

end LetFn
