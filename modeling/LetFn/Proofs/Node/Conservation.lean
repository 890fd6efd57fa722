import Mathlib.Algebra.Ring.Nat
import LetFn.Proofs.Node.Walk
import LetFn.Proofs.Parse
import LetFn.Proofs.Parser.Origin

/-!
# What becomes of the tokens

No token is lost on the way into a tree, and none is used twice. The literals are the texts of the
tree, in the order of the source; the operators are those that its nodes are written with (`marks`).
Only parentheses and plus signs can go without a trace, and only the zero of a unary minus has a
text that no token gave.

An `Account` says this of some tokens, the texts they gave and the operators they gave. Accounts are
put together as tokens are, so each rule by which a node is made from tokens is a sum of accounts.
-/

namespace LetFn

/-- The text of a literal. -/
def Word.text? : Word → Option Bytes
  | literal text => some text
  | operator _ => none

/-- The operator can stand in a source and leave nothing in the tree. -/
def Operator.isSilent (op : Operator) : Bool := op ∈ [.add, .lparen, .rparen]

/-- The texts of a name with its type. -/
def TypedName.texts (t : TypedName) : List Bytes := [t.name, t.type]

namespace Node

mutual

/-- The texts in a tree in the order of the source, without the literals that stand where `skip`
says. -/
def texts (skip : Location → Bool) : Node → List Bytes
  | module _ stmts | block _ stmts => textsAll skip stmts
  | literal loc value => if skip loc then [] else [value]
  | typed t => t.texts
  | expression _ _ x y => x.texts skip ++ y.texts skip
  | lambda _ ret params _ body => params.flatMap TypedName.texts ++ ret :: textsAll skip body
  | bodiless _ ret params => params.flatMap TypedName.texts ++ [ret]
  | missing | foreign _ => []

/-- The texts in several trees. -/
def textsAll (skip : Location → Bool) : List Node → List Bytes
  | [] => []
  | n :: rest => n.texts skip ++ textsAll skip rest

end

/-- The parameters of a function literal. -/
def params : Node → List TypedName
  | lambda _ _ params _ _ | bodiless _ _ params => params
  | _ => []

/-- The node is an expression with the operator. -/
def joins (op : Operator) : Node → Bool
  | expression _ o _ _ => o == op
  | _ => false

/-- The operators that a node is written with, those in its parts left out. -/
def marks : Node → List Operator
  | module _ stmts => .replicate stmts.length .semicolon
  | block _ stmts => .lcurl :: .rcurl :: .replicate stmts.length .semicolon
  | typed _ => [.colon]
  | expression _ op _ _ =>
    if op = .bind then [.bind, .assign] else if op.isArithmetic then [op] else []
  | lambda _ _ params _ _ | bodiless _ _ params =>
    .fn :: .colon :: .replicate (params.length - 1) .comma
  | literal _ _ | missing | foreign _ => []

end Node

open Node

/-! ## Accounts

How accounts are put together: one token in front, one behind, or two rows of tokens one after the
other. The order of the operators is given up where a node has marks on both sides of its parts. -/

/-- The texts are those of the tokens, in order; the operators are theirs in some order, but silent
ones may be missing. -/
structure Account (ts : List Token) (texts : List Bytes) (ops : List Operator) : Prop where
  texts_eq : (ts.map Token.word).filterMap Word.text? = texts
  count_le : ∀ op, ops.count op ≤ (ts.map Token.word).count (.operator op)
  count_eq : ∀ op, op.isSilent = false → (ts.map Token.word).count (.operator op) = ops.count op

namespace Account

theorem nil : Account [] [] [] := ⟨rfl, by simp, by simp⟩

/-- A literal is a text and no operator. -/
theorem literal {ts : List Token} {texts : List Bytes} {ops : List Operator} (text : Bytes)
    (a : Location) (h : Account ts texts ops) :
    Account (⟨.literal text, a⟩ :: ts) (text :: texts) ops where
  texts_eq := congrArg (text :: ·) h.texts_eq
  count_le op := by simpa using h.count_le op
  count_eq op hop := by simpa using h.count_eq op hop

/-- An operator is kept. -/
theorem operator {ts : List Token} {texts : List Bytes} {ops : List Operator} (o : Operator)
    (a : Location) (h : Account ts texts ops) :
    Account (⟨.operator o, a⟩ :: ts) texts (o :: ops) where
  texts_eq := h.texts_eq
  count_le op := by simpa [List.count_cons] using h.count_le op
  count_eq op hop := by simpa [List.count_cons] using h.count_eq op hop

/-- A silent operator may be dropped. -/
theorem silent {ts : List Token} {texts : List Bytes} {ops : List Operator} {o : Operator}
    (ho : o.isSilent = true) (a : Location) (h : Account ts texts ops) :
    Account (⟨.operator o, a⟩ :: ts) texts ops where
  texts_eq := h.texts_eq
  count_le op := by
    rw [List.map_cons]
    exact Nat.le_trans (h.count_le op) List.count_le_count_cons
  count_eq op hop := by
    have hne : o ≠ op := by
      rintro rfl
      rw [ho] at hop
      cases hop
    simpa [List.count_cons, hne] using h.count_eq op hop

/-- Accounts of tokens one after the other add up. -/
theorem append {us vs : List Token} {as bs : List Bytes} {ps qs : List Operator}
    (h : Account us as ps) (k : Account vs bs qs) : Account (us ++ vs) (as ++ bs) (ps ++ qs) where
  texts_eq := by simp [h.texts_eq, k.texts_eq]
  count_le op := by
    simpa using Nat.add_le_add (h.count_le op) (k.count_le op)
  count_eq op hop := by simp [h.count_eq op hop, k.count_eq op hop]

/-- The order of the operators is of no account. -/
theorem reorder {ts : List Token} {texts : List Bytes} {ps qs : List Operator}
    (h : Account ts texts ps) (hcount : ∀ op, ps.count op = qs.count op) : Account ts texts qs where
  texts_eq := h.texts_eq
  count_le op := hcount op ▸ h.count_le op
  count_eq op hop := hcount op ▸ h.count_eq op hop

/-- A mark at the end counts like one in front. -/
theorem closed {ts : List Token} {texts : List Bytes} {ops : List Operator} (o : Operator)
    (a : Location) (h : Account ts texts ops) :
    Account (ts ++ [⟨.operator o, a⟩]) texts (o :: ops) := by
  have hall := h.append (nil.operator o a)
  rw [List.append_nil] at hall
  refine hall.reorder fun op => ?_
  rw [List.count_append, List.count_cons, List.count_cons, List.count_nil]
  omega

end Account

/-! ## Accounts of what a node is made from

By induction on how the tree was made from the tokens. The zero of a minus sign is told by its
location: no other literal stands where a minus sign stands. -/

/-- Of the locations of the tokens, `skip` picks those of the minus signs. -/
def Skips (skip : Location → Bool) (ts : List Token) : Prop :=
  ∀ t ∈ ts, skip t.loc = decide (t.word = .operator .sub)

theorem Skips.mono {skip : Location → Bool} {us ts : List Token} (h : Skips skip ts)
    (hsub : us ⊆ ts) : Skips skip us :=
  fun t ht => h t (hsub ht)

namespace Origin

variable {skip : Location → Bool}

/-- The texts of an operand are those of its tokens, but for the zero of a minus sign. -/
theorem account_operand {ts : List Token} {x : Node} (h : Operand ts x) (hskip : Skips skip ts) :
    Account ts (x.texts skip) (x.nodes.flatMap marks) := by
  induction h with
  | literal text a =>
    have ha : skip a = false := hskip ⟨.literal text, a⟩ List.mem_cons_self
    simpa [texts, marks, ha] using Account.nil.literal text a
  | minus a _ ih =>
    -- The zero is skipped, and the sign is what the difference is written with.
    have ha : skip a = true := hskip ⟨.operator .sub, a⟩ List.mem_cons_self
    have hx := ih (hskip.mono (List.subset_cons_self _ _))
    simpa [texts, marks, ha, Operator.isArithmetic] using hx.operator .sub a
  | plus a _ ih => exact (ih (hskip.mono (List.subset_cons_self _ _))).silent rfl a
  | parens a b _ ih =>
    have hx := ih (hskip.mono fun t ht => by simp [ht])
    simpa using (hx.append (Account.nil.silent rfl b)).silent (o := .lparen) rfl a
  | @chain us vs x y op a _ harith _ ihx ihy =>
    have hop : op ≠ .bind := (precedence_of_isArithmetic harith).1
    have hx := ihx (hskip.mono (List.subset_append_left _ _))
    have hy := ihy (hskip.mono fun t ht => by simp [ht])
    refine (hx.append (hy.operator op a)).reorder fun o => ?_
    simp only [nodes_expression, marks, if_neg hop, harith, if_true, List.flatMap_cons,
      List.flatMap_append, List.cons_append, List.nil_append, List.count_append, List.count_cons]
    omega

/-- Two texts and a colon. -/
theorem account_typed {ts : List Token} {t : TypedName} (h : Typed ts t) :
    Account ts t.texts (typed t).marks := by
  obtain ⟨name, type, a, b, c⟩ := h
  exact ((Account.nil.literal type c).operator .colon b).literal name a

/-- The texts and marks of what a binding binds. -/
theorem account_name {ts : List Token} {x : Node} (h : Name ts x) (hskip : Skips skip ts) :
    Account ts (x.texts skip) (x.nodes.flatMap marks) := by
  cases h with
  | plain name a => exact account_operand (.literal name a) hskip
  | typed h => simpa [texts] using account_typed h

/-- Between two parameters there is a comma. -/
theorem account_params {ts : List Token} {params : List TypedName} (h : Params ts params) :
    Account ts (params.flatMap TypedName.texts)
      ((params.map typed).flatMap marks ++ .replicate (params.length - 1) .comma) := by
  induction h with
  | none => exact .nil
  | last h => simpa using account_typed h
  | @cons us vs s t rest a hus _ ih =>
    have hall := (account_typed hus).append (ih.operator .comma a)
    refine hall.reorder fun o => ?_
    simp only [List.map_cons, List.flatMap_cons, List.count_append, List.count_cons,
      List.length_cons, Nat.add_sub_cancel, List.replicate_succ]
    omega

mutual

/-- Braces and keywords count for the node that they belong to. -/
theorem account_value {ts : List Token} {x : Node} (h : Value ts x) (hskip : Skips skip ts) :
    Account ts (x.texts skip) (x.nodes.flatMap marks) := by
  cases h with
  | @block ts stmts a b h =>
    have hstmts := account_statements h (hskip.mono fun t ht => by simp [ht])
    exact (hstmts.closed .rcurl b).operator .lcurl a
  | @lambda us vs params body ret a b c d e g k hparams hbody =>
    have hstmts := account_statements hbody (hskip.mono fun t ht => by simp [ht])
    have hfront := ((account_params hparams).silent (o := .lparen) rfl b).operator .fn a
    have hback := (((hstmts.operator .lcurl g).literal ret e).operator .colon d).silent
      (o := .rparen) rfl c
    -- The marks of a function come in another order than its tokens, which does not matter.
    refine ((hfront.append hback).closed .rcurl k).reorder fun o => ?_
    simp only [nodes_lambda, nodes_block, marks, List.flatMap_cons, List.flatMap_append,
      List.cons_append, List.count_append, List.count_cons]
    omega
  | operand h => exact account_operand h hskip

/-- The semicolon of a statement counts for the node that holds the statement. -/
theorem account_statement {ts : List Token} {x : Node} (h : Statement ts x)
    (hskip : Skips skip ts) :
    Account ts (x.texts skip) (.semicolon :: x.nodes.flatMap marks) := by
  cases h with
  | @binding us vs x y a b c hname hvalue =>
    have hx := account_name hname (hskip.mono fun t ht => by simp [ht])
    have hy := account_value hvalue (hskip.mono fun t ht => by simp [ht])
    have hall := (hx.operator .bind a).append (hy.operator .assign b)
    refine (hall.closed .semicolon c).reorder fun o => ?_
    simp only [nodes_expression, marks, List.flatMap_cons, List.flatMap_append, if_true,
      List.cons_append, List.nil_append, List.count_append, List.count_cons]
    omega
  | @value ts x a h =>
    exact (account_value h (hskip.mono (List.subset_append_left _ _))).closed .semicolon a

/-- Each statement has a semicolon. -/
theorem account_statements {ts : List Token} {stmts : List Node} (h : Statements ts stmts)
    (hskip : Skips skip ts) :
    Account ts (textsAll skip stmts)
      (.replicate stmts.length .semicolon ++ (nodesAll stmts).flatMap marks) := by
  cases h with
  | nil => exact .nil
  | cons hfirst hrest =>
    have hx := account_statement hfirst (hskip.mono (List.subset_append_left _ _))
    have hothers := account_statements hrest (hskip.mono (List.subset_append_right _ _))
    refine (hx.append hothers).reorder fun o => ?_
    simp only [nodesAll_cons, List.flatMap_append, List.length_cons, List.replicate_succ,
      List.cons_append, List.count_append, List.count_cons]
    omega

end

end Origin

/-! ## Counting nodes

An operator that is written once for each node of some kind is counted with the nodes of that
kind. -/

namespace Node

/-- What adds up the marks of nodes one by one counts the marks of all. -/
theorem count_marks {op : Operator} (total : List Node → Nat) (hnil : total [] = 0)
    (hcons : ∀ n rest, total (n :: rest) = n.marks.count op + total rest) (ns : List Node) :
    (ns.flatMap marks).count op = total ns := by
  induction ns with
  | nil => exact hnil.symm
  | cons n rest ih => rw [List.flatMap_cons, List.count_append, ih, hcons]

/-- If the operator is written once for each node that `p` picks, it is counted with them. -/
theorem count_marks_eq_countP {op : Operator} {p : Node → Bool}
    (h : ∀ n, n.marks.count op = if p n then 1 else 0) (ns : List Node) :
    (ns.flatMap marks).count op = ns.countP p :=
  -- Nodes are counted one by one, as marks are.
  count_marks (·.countP p) rfl (fun n rest => by rw [List.countP_cons, h, Nat.add_comm]) ns

/-- Operators of arithmetic are those of the expressions. -/
theorem count_marks_arithmetic {op : Operator} (hop : op.isArithmetic = true) (ns : List Node) :
    (ns.flatMap marks).count op = ns.countP (·.joins op) := by
  refine count_marks_eq_countP (fun n => ?_) ns
  cases op with
  | add | sub | mul | div | mod | pow =>
    cases n with
    | expression loc o x y => cases o <;> rfl
    | _ => simp [marks, joins, List.count_replicate]
  | _ => cases hop

/-- Every binding has its keyword and its equals sign. -/
theorem count_marks_binding {op : Operator} (hop : op ∈ [.bind, .assign]) (ns : List Node) :
    (ns.flatMap marks).count op = ns.countP (·.joins .bind) := by
  refine count_marks_eq_countP (fun n => ?_) ns
  cases op with
  | bind | assign =>
    cases n with
    | expression loc o x y => cases o <;> rfl
    | _ => simp [marks, joins, List.count_replicate]
  | _ => simp at hop

/-- Every block has one brace on each side. -/
theorem count_marks_brace {op : Operator} (hop : op ∈ [.lcurl, .rcurl]) (ns : List Node) :
    (ns.flatMap marks).count op = ns.countP (·.kind? == some "Block") := by
  refine count_marks_eq_countP (fun n => ?_) ns
  cases op with
  | lcurl | rcurl =>
    cases n with
    | expression loc o x y => cases o <;> rfl
    | _ => simp [marks, kind?, List.count_replicate]
  | _ => simp at hop

/-- Every function has its keyword. -/
theorem count_marks_fn (ns : List Node) :
    (ns.flatMap marks).count .fn = ns.countP (·.kind? == some "Lambda") := by
  refine count_marks_eq_countP (fun n => ?_) ns
  cases n with
  | expression loc o x y => cases o <;> rfl
  | _ => simp [marks, kind?, List.count_replicate]

/-- Every name with a type has a colon, and every function one in front of its type. -/
theorem count_marks_colon (ns : List Node) :
    (ns.flatMap marks).count .colon =
      ns.countP (·.kind? == some "TypedLiteral") + ns.countP (·.kind? == some "Lambda") := by
  refine count_marks (fun ns => ns.countP _ + ns.countP _) rfl (fun n rest => ?_) ns
  have h : n.marks.count .colon = (if n.kind? == some "TypedLiteral" then 1 else 0) +
      if n.kind? == some "Lambda" then 1 else 0 := by
    cases n with
    | expression loc o x y => cases o <;> rfl
    | _ => simp [marks, kind?, List.count_replicate]
  rw [List.countP_cons, List.countP_cons, h]
  omega

/-- A semicolon for each statement of each module, block and body. -/
theorem count_marks_semicolon (ns : List Node) :
    (ns.flatMap marks).count .semicolon = (ns.map (·.stmts.length)).sum := by
  refine count_marks (fun ns => (ns.map _).sum) rfl (fun n rest => ?_) ns
  rw [List.map_cons, List.sum_cons]
  congr 1
  cases n with
  | expression loc o x y => cases o <;> rfl
  | _ => simp [marks, stmts, List.count_replicate]

/-- A comma between any two parameters. -/
theorem count_marks_comma (ns : List Node) :
    (ns.flatMap marks).count .comma = (ns.map (·.params.length - 1)).sum := by
  refine count_marks (fun ns => (ns.map _).sum) rfl (fun n rest => ?_) ns
  rw [List.map_cons, List.sum_cons]
  congr 1
  cases n with
  | expression loc o x y => cases o <;> rfl
  | _ => simp [marks, params, List.count_replicate]

end Node

/-! ## Parsed trees

The tokens of a source stand in different places, so minus signs are told by their locations. -/

/-- The tokens and the tree hold the same. -/
structure Conserved (l : Lexed) (m : Node) : Prop where
  /-- The texts of the tree, without those at minus signs, are those of the literals in order. -/
  texts : m.texts (fun loc => decide (⟨.operator .sub, loc⟩ ∈ l.tokens)) =
    l.words.filterMap Word.text?
  lets : l.words.count (.operator .bind) = m.nodes.countP (·.joins .bind)
  assigns : l.words.count (.operator .assign) = m.nodes.countP (·.joins .bind)
  functions : l.words.count (.operator .fn) = m.nodes.countP (·.kind? == some "Lambda")
  opened : l.words.count (.operator .lcurl) = m.nodes.countP (·.kind? == some "Block")
  closed : l.words.count (.operator .rcurl) = m.nodes.countP (·.kind? == some "Block")
  semicolons : l.words.count (.operator .semicolon) = (m.nodes.map (·.stmts.length)).sum
  colons : l.words.count (.operator .colon) =
    m.nodes.countP (·.kind? == some "TypedLiteral") + m.nodes.countP (·.kind? == some "Lambda")
  commas : l.words.count (.operator .comma) = (m.nodes.map (·.params.length - 1)).sum
  arithmetic : ∀ op ∈ [.sub, .mul, .div, .mod, .pow],
    l.words.count (.operator op) = m.nodes.countP (·.joins op)
  /-- A plus sign can also be a sign in front of a value. -/
  sums : m.nodes.countP (·.joins .add) ≤ l.words.count (.operator .add)

/-- An account of all tokens says what is conserved. -/
theorem Conserved.of_account {l : Lexed} {m : Node}
    (h : Account l.tokens (m.texts fun loc => decide (⟨.operator .sub, loc⟩ ∈ l.tokens))
      (m.nodes.flatMap marks)) : Conserved l m where
  texts := h.texts_eq.symm
  lets := (h.count_eq .bind rfl).trans (count_marks_binding (by simp) _)
  assigns := (h.count_eq .assign rfl).trans (count_marks_binding (by simp) _)
  functions := (h.count_eq .fn rfl).trans (count_marks_fn _)
  opened := (h.count_eq .lcurl rfl).trans (count_marks_brace (by simp) _)
  closed := (h.count_eq .rcurl rfl).trans (count_marks_brace (by simp) _)
  semicolons := (h.count_eq .semicolon rfl).trans (count_marks_semicolon _)
  colons := (h.count_eq .colon rfl).trans (count_marks_colon _)
  commas := (h.count_eq .comma rfl).trans (count_marks_comma _)
  arithmetic op hop := by
    have hsilent : op.isSilent = false ∧ op.isArithmetic = true := by
      simp only [List.mem_cons, List.not_mem_nil, or_false] at hop
      rcases hop with rfl | rfl | rfl | rfl | rfl <;> exact ⟨rfl, rfl⟩
    exact (h.count_eq op hsilent.1).trans (count_marks_arithmetic hsilent.2 _)
  sums := by
    have hadd : Operator.add.isArithmetic = true := rfl
    rw [← count_marks_arithmetic hadd]
    exact h.count_le .add

/-- Where no two tokens stand in the same place, a place tells a minus sign. -/
theorem skips_minus {ts : List Token} (hplaces : ts.Pairwise fun s t => s.loc.Before t.loc) :
    Skips (fun loc => decide (⟨.operator .sub, loc⟩ ∈ ts)) ts := by
  intro t ht
  refine decide_eq_decide.mpr ⟨fun hminus => ?_, fun hword => ?_⟩
  · obtain ⟨j, hj, hjt⟩ := List.getElem_of_mem ht
    obtain ⟨k, hk, hkminus⟩ := List.getElem_of_mem hminus
    have hindex : j = k := Token.index_eq_of_loc_eq hplaces hj hk (by rw [hjt, hkminus])
    subst hindex
    rw [← hjt, hkminus]
  · rw [← hword]
    exact ht

/-- No token is lost on the way into the tree, and none is used twice. -/
theorem parsed_conserved {lines : List Bytes} {m : Node} (hlines : lines.length < UInt32.size)
    (hcolumns : ∀ line ∈ lines, (Snippet.segment line).1.length < UInt32.size)
    (h : parseLines lines = .ok m) : Conserved (Lexed.ofLines lines) m := by
  have hplaces := Lexed.pairwise_before_ofLines hlines hcolumns
  obtain ⟨stmts, rfl, horigin⟩ := Parser.origin_module (Lexed.parse_eq_ok.mp h).2
  refine Conserved.of_account ?_
  rw [nodes_module, List.flatMap_cons]
  exact Origin.account_statements horigin (skips_minus hplaces)

/-- Three names with types and one function take four colons. -/
theorem parsed_conserved_nestedLines :
    nestedLines.length < UInt32.size ∧
      (∀ line ∈ nestedLines, (Snippet.segment line).1.length < UInt32.size) ∧
      (Lexed.ofLines nestedLines).words.count (.operator .colon) = 4 ∧
      ∃ m, parseLines nestedLines = .ok m ∧ Conserved (Lexed.ofLines nestedLines) m := by
  have hcolumns : ∀ line ∈ nestedLines, (Snippet.segment line).1.length < UInt32.size := by
    decide +kernel
  have hok : (parseLines nestedLines).toBool = true := by decide +kernel
  rcases hm : parseLines nestedLines with f | m
  · rw [hm] at hok
    cases hok
  · exact ⟨by decide, hcolumns, by decide +kernel, m, rfl, parsed_conserved (by decide) hcolumns hm⟩

end LetFn
