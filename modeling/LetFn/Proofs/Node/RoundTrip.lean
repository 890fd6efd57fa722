import LetFn.Proofs.Node.Steps
import LetFn.Proofs.Node.WellFormed
import LetFn.Proofs.Parse

/-!
# Writing and reading back

The words that canonical text is made of derive the tree it was written from, if that is well
formed. For arithmetic this is where the parentheses count: an operand that stands without them
must be of the layer that its place in the chain asks for (`le_tightness`).

Together with what parsing accepts, this makes well-formed modules exactly those that come back
when they are written and parsed again (`parseText_format_iff`).
-/

namespace LetFn.Node

open Grammar
open Step (Spells)

/-! ## Arithmetic

Parentheses are put around an operand where its layer is too loose, so that the words derive the
tree at its place in the chain. -/

/-- The words of the operand belong to the layer above this number. -/
def tightness : Node → Nat
  | expression _ op _ _ => op.precedence - 1
  | _ => 3

/-- An operand without parentheses binds tightly enough, on the right strictly. -/
theorem le_tightness {x : Node} (hx : x.isOperand = true) {n : Nat} (hn : n < 3) (right : Bool)
    (h : x.needsParens (n + 1) right = false) : n + right.toNat ≤ x.tightness := by
  have hright := Bool.toNat_le right
  cases x with
  | literal loc value =>
    show n + right.toNat ≤ 3
    omega
  | expression loc op y z =>
    simp only [isOperand, Bool.and_eq_true] at hx
    simp only [needsParens, hx.1.1, Bool.true_and, Bool.or_eq_false_iff, decide_eq_false_iff_not]
      at h
    show n + right.toNat ≤ op.precedence - 1
    cases right with
    | false =>
      have hlt := h.1
      simp only [Bool.toNat_false]
      omega
    | true =>
      have hlt := h.1
      have hne : op.precedence ≠ n + 1 := by simpa using h.2
      simp only [Bool.toNat_true]
      omega
  | _ => cases hx

theorem spells_parenthesized {steps : List Step} {ws : List Word} {x : Node} {m n : Nat}
    {needed : Bool} (hws : Spells steps ws) (hx : Arith (.above m) ws x)
    (hle : needed = false → n ≤ m) :
    ∃ vs, Spells (parenthesized needed steps) vs ∧ Arith (.above n) vs x := by
  cases needed with
  | false => exact ⟨ws, hws, hx.loosen_le (hle rfl)⟩
  | true =>
    have hatom : Arith (.above (n + 3)) (.operator .lparen :: ws ++ [.operator .rparen]) x :=
      .parens (hx.loosen_le (Nat.zero_le m))
    refine ⟨_, ?_, hatom.loosen_le (by omega)⟩
    exact ((Spells.mark (by decide)).append hws).append (.mark (by decide))

theorem spells_between {op : Operator} (h : op ∈ Operator.spelled) :
    Spells [.space, Step.mark op, .space] [.operator op] :=
  .space ((Spells.mark h).append (.space .nil))

theorem precedence_of_isArithmetic {op : Operator} (h : op.isArithmetic = true) :
    op ≠ .bind ∧ op ∈ Operator.spelled ∧ ∃ n < 3, op.precedence = n + 1 := by
  cases op <;> cases h <;> decide

/-- Arithmetic spells words of its own layer. -/
theorem spells_operand (level : Nat) : ∀ {x : Node}, x.isOperand = true →
    ∃ ws, Spells (exprSteps level x) ws ∧ Arith (.above x.tightness) ws x.erase
  | literal _ value, h => ⟨[.literal value], .name h, .literal value⟩
  -- Each operand is in parentheses if its layer is too loose for its place.
  | expression loc op x y, h => by
    simp only [isOperand, Bool.and_eq_true] at h
    obtain ⟨⟨hop, hx⟩, hy⟩ := h
    obtain ⟨hbind, hspelled, n, hn, hprec⟩ := precedence_of_isArithmetic hop
    obtain ⟨us, hus, hux⟩ := spells_operand level hx
    obtain ⟨vs, hvs, hvy⟩ := spells_operand level hy
    obtain ⟨us, hus, hux⟩ := spells_parenthesized hus hux (le_tightness hx hn false)
    obtain ⟨vs, hvs, hvy⟩ := spells_parenthesized hvs hvy (le_tightness hy hn true)
    have hchain := Arith.chain hprec hux hvy
    have htight : (expression loc op x y).tightness = n := by
      show op.precedence - 1 = n
      omega
    refine ⟨us ++ .operator op :: vs, ?_, ?_⟩
    · rw [exprSteps, if_neg hbind, hprec, List.append_assoc]
      exact hus.append ((spells_between hspelled).append hvs)
    · rw [htight]
      exact hchain

/-! ## Names and parameters

Marks and blanks stand between the names; blanks spell nothing. -/

theorem spells_typed {t : TypedName} (h : t.isNamed = true) :
    ∃ ws, Spells (typedSteps t) ws ∧ TypedLiteral ws t.erase := by
  simp only [TypedName.isNamed, Bool.and_eq_true] at h
  refine ⟨[.literal t.name, .operator .colon, .literal t.type], ?_, .mk t.name t.type⟩
  exact (Spells.name h.1).append ((Spells.mark (by decide)).append (.space (.name h.2)))

theorem spells_paramList (p : TypedName) (rest : List TypedName)
    (h : (p :: rest).all TypedName.isNamed = true) :
    ∃ ws, Spells (paramSteps (p :: rest)) ws ∧
      ParamList ws ((p :: rest).map TypedName.erase) := by
  induction rest generalizing p with
  | nil =>
    rw [List.all_cons, Bool.and_eq_true] at h
    obtain ⟨ws, hws, hp⟩ := spells_typed h.1
    exact ⟨ws, hws, .last hp⟩
  | cons q rest ih =>
    rw [List.all_cons, Bool.and_eq_true] at h
    obtain ⟨us, hus, hp⟩ := spells_typed h.1
    obtain ⟨vs, hvs, hrest⟩ := ih q h.2
    refine ⟨us ++ .operator .comma :: vs, ?_, .cons hp hrest⟩
    show Spells (typedSteps p ++ [Step.mark .comma, .space] ++ paramSteps (q :: rest)) _
    rw [List.append_assoc]
    exact hus.append ((Spells.mark (by decide)).append (.space hvs))

theorem spells_params {params : List TypedName} (h : params.all TypedName.isNamed = true) :
    ∃ ws, Spells (paramSteps params) ws ∧ Params ws (params.map TypedName.erase) := by
  cases params with
  | nil => exact ⟨[], .nil, .none⟩
  | cons p rest =>
    obtain ⟨ws, hws, hparams⟩ := spells_paramList p rest h
    exact ⟨ws, hws, .some hparams⟩

theorem spells_bindable {x : Node} (level : Nat) (h : x.isBindable = true) :
    ∃ ws, Spells (exprSteps level x) ws ∧ BindingName ws x.erase := by
  cases x with
  | literal loc name => exact ⟨[.literal name], .name h, .plain name⟩
  | typed t =>
    obtain ⟨ws, hws, ht⟩ := spells_typed h
    exact ⟨ws, hws, .typed ht⟩
  | _ => cases h

/-! ## Statements

The rules follow the shape of a well-formed tree. -/

theorem spells_header {ret : Bytes} {params : List TypedName} {ws : List Word}
    (hret : Word.isName ret = true) (hws : Spells (paramSteps params) ws) :
    Spells (headerSteps ret params) (.operator .fn :: .operator .lparen :: ws ++
      [.operator .rparen, .operator .colon, .literal ret]) := by
  have hopen : Spells [Step.mark .fn, Step.mark .lparen] [.operator .fn, .operator .lparen] :=
    (Spells.mark (by decide)).append (.mark (by decide))
  have hclose : Spells [Step.mark .rparen, Step.mark .colon, .space, .word ret, .space]
      [.operator .rparen, .operator .colon, .literal ret] :=
    (Spells.mark (by decide)).append ((Spells.mark (by decide)).append
      (.space ((Spells.name hret).append (.space .nil))))
  exact (hopen.append hws).append hclose

theorem spells_block (level : Nat) {steps : List Step} {ws : List Word} {stmts : List Node}
    (hws : Spells steps ws) (h : Statements ws stmts) :
    ∃ vs, Spells (blockSteps level steps) vs ∧ Block vs stmts := by
  refine ⟨.operator .lcurl :: ws ++ [.operator .rcurl], ?_, .mk h⟩
  have hopen : Spells [Step.mark .lcurl, .newline] [.operator .lcurl] :=
    (Spells.mark (by decide)).append (.newline .nil)
  exact (hopen.append hws).append (.indent level (.mark (by decide)))

mutual

theorem spells_value (level : Nat) : ∀ {x : Node}, x.isValue = true →
    ∃ ws, Spells (exprSteps level x) ws ∧ Expression ws x.erase
  | block loc stmts, h => by
    obtain ⟨ws, hws, hstmts⟩ := spells_statements (level + 1) h
    obtain ⟨vs, hvs, hblock⟩ := spells_block level hws hstmts
    exact ⟨vs, hvs, .block hblock⟩
  | lambda loc ret params bodyLoc body, h => by
    simp only [isValue, Bool.and_eq_true] at h
    obtain ⟨⟨hret, hparams⟩, hbody⟩ := h
    obtain ⟨us, hus, hparams⟩ := spells_params hparams
    obtain ⟨ws, hws, hstmts⟩ := spells_statements (level + 1) hbody
    obtain ⟨vs, hvs, hblock⟩ := spells_block level hws hstmts
    refine ⟨_, (spells_header hret hus).append hvs, ?_⟩
    rw [List.append_assoc]
    exact .lambda (.mk ret hparams hblock)
  | literal loc value, h => by
    obtain ⟨ws, hws, hx⟩ := spells_operand level (x := literal loc value) h
    exact ⟨ws, hws, .arith (hx.loosen_le (Nat.zero_le _))⟩
  | expression loc op x y, h => by
    obtain ⟨ws, hws, hx⟩ := spells_operand level (x := expression loc op x y) h
    exact ⟨ws, hws, .arith (hx.loosen_le (Nat.zero_le _))⟩

theorem spells_binding (level : Nat) : ∀ {x : Node}, x.isBinding = true →
    ∃ ws, Spells (exprSteps level x) ws ∧ Assignment ws x.erase
  | expression loc op x y, h => by
    simp only [isBinding, Bool.and_eq_true, beq_iff_eq] at h
    obtain ⟨⟨rfl, hx⟩, hy⟩ := h
    obtain ⟨us, hus, hname⟩ := spells_bindable level hx
    obtain ⟨vs, hvs, hvalue⟩ := spells_value level hy
    refine ⟨.operator .bind :: us ++ .operator .assign :: vs, ?_, .mk hname hvalue⟩
    have hlet : Spells [Step.mark .bind, .space] [.operator .bind] :=
      (Spells.mark (by decide)).append (.space .nil)
    rw [exprSteps, if_pos rfl, List.append_assoc]
    exact (hlet.append hus).append ((spells_between (by decide)).append hvs)

theorem spells_statements (level : Nat) : ∀ {stmts : List Node}, areStatements stmts = true →
    ∃ ws, Spells (stmtSteps level stmts) ws ∧ Statements ws (eraseAll stmts)
  | [], _ => ⟨[], .nil, .nil⟩
  | n :: rest, h => by
    simp only [areStatements, Bool.and_eq_true, Bool.or_eq_true] at h
    have hn : ∃ us, Spells (exprSteps level n) us ∧
        Statement (us ++ [.operator .semicolon]) n.erase := by
      rcases h.1 with hbinding | hvalue
      · obtain ⟨us, hus, hn⟩ := spells_binding level hbinding
        exact ⟨us, hus, .assignment hn⟩
      · obtain ⟨us, hus, hn⟩ := spells_value level hvalue
        exact ⟨us, hus, .expression hn⟩
    obtain ⟨us, hus, hn⟩ := hn
    obtain ⟨vs, hvs, hrest⟩ := spells_statements level h.2
    refine ⟨us ++ [.operator .semicolon] ++ vs, ?_, .cons hn hrest⟩
    have hend : Spells [Step.mark .semicolon, .newline] [.operator .semicolon] :=
      (Spells.mark (by decide)).append (.newline .nil)
    exact .indent level ((hus.append hend).append hvs)

end

/-! ## Modules

Words that are spelled are read back, and words that derive a tree are parsed as it. -/

/-- A module spells words that derive it. -/
theorem spells_module {m : Node} (h : m.isWellFormed = true) :
    ∃ ws, Spells m.steps ws ∧ Module ws m.erase := by
  cases m with
  | module loc stmts =>
    obtain ⟨ws, hws, hstmts⟩ := spells_statements 0 h
    exact ⟨ws, hws, .mk hstmts⟩
  | _ => cases h

/-- Canonical text of a well-formed tree is parsed as that tree, as long as no line is over the
limit. -/
theorem parseText_format_of_isWellFormed {n : Node} (h : n.isWellFormed = true)
    (hlimit : ∀ line ∈ Text.splitAt Text.newline n.format, line.length < Source.limit) :
    ∃ m, parseText n.format = .ok m ∧ m.same n = true := by
  obtain ⟨ws, hws, hderives⟩ := spells_module h
  obtain ⟨hfault, hwords⟩ := Step.readsLines_write hws hlimit 1
  rw [← hwords] at hderives
  obtain ⟨m, hm, herase⟩ := Parser.module_of_derives hderives
  have hknown : m.isKnown = true := by
    apply isKnown_of_isWellFormed
    rw [← isWellFormed_erase, herase, isWellFormed_erase, h]
  exact ⟨m, Lexed.parse_eq_ok.mpr ⟨hfault, hm⟩, same_of_erase_eq hknown herase⟩

/-- Whatever is parsed is well formed. -/
theorem isWellFormed_of_parseLines {lines : List Bytes} {m : Node} (h : parseLines lines = .ok m) :
    m.isWellFormed = true := by
  have hderives := Parser.derives_of_module (Lexed.parse_eq_ok.mp h).2
  rw [← isWellFormed_erase]
  exact isWellFormed_of_module hderives (Lexed.lexical_words 1 lines)

/-- So is every tree that is the same as a parsed one. -/
theorem isWellFormed_of_parseText {text : Bytes} {m n : Node} (h : parseText text = .ok m)
    (hsame : m.same n = true) : n.isWellFormed = true := by
  rw [← isWellFormed_erase, ← erase_eq_of_same hsame, isWellFormed_erase]
  exact isWellFormed_of_parseLines h

/-- A module whose canonical text has no line over the limit comes back when that text is parsed,
exactly if the module is well formed. -/
theorem parseText_format_iff (loc : Location) (stmts : List Node)
    (hlimit : ∀ line ∈ Text.splitAt Text.newline (module loc stmts).format,
      line.length + 1 ≤ Source.limit) :
    (∃ m, parseText (module loc stmts).format = .ok m ∧ m.same (module loc stmts) = true) ↔
      (module loc stmts).isWellFormed = true := by
  constructor
  · rintro ⟨m, hm, hsame⟩
    exact isWellFormed_of_parseText hm hsame
  · intro h
    exact parseText_format_of_isWellFormed h hlimit

/-- The statement `let x: t = fn(): r { (1 - 2) * (3 * 4); };`. -/
def sampleStatement : Node :=
  expression .unknown .bind (typed ⟨.unknown, Text.utf8 "x", Text.utf8 "t"⟩)
    (lambda .unknown (Text.utf8 "r") [] .unknown
      [expression .unknown .mul
        (expression .unknown .sub (literal .unknown (Text.utf8 "1"))
          (literal .unknown (Text.utf8 "2")))
        (expression .unknown .mul (literal .unknown (Text.utf8 "3"))
          (literal .unknown (Text.utf8 "4")))])

theorem parseText_format_sampleStatement :
    (∀ line ∈ Text.splitAt Text.newline (module .unknown [sampleStatement]).format,
      line.length + 1 ≤ Source.limit) ∧
      ∃ m, parseText (module .unknown [sampleStatement]).format = .ok m ∧
        m.same (module .unknown [sampleStatement]) = true := by
  have hlimit : ∀ line ∈ Text.splitAt Text.newline (module .unknown [sampleStatement]).format,
      line.length + 1 ≤ Source.limit := by decide +kernel
  refine ⟨hlimit, (parseText_format_iff _ _ hlimit).mpr ?_⟩
  decide +kernel

end LetFn.Node
