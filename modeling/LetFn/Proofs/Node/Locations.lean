import LetFn.Proofs.Node.Walk
import LetFn.Proofs.Parse
import LetFn.Proofs.Parser.Origin

/-!
# Where the nodes of a parsed tree stand

Every node of a parsed tree stands at a token of its source: a block at its brace, a function
literal at its keyword, a name at itself (`Begins`). A walk goes through the source from left to
right: no node stands before the one that was met before it, and what is left of an operator stands
before all that is right of it.

Both follow from the tokens that a node is made from. They lie in the order of their locations, and
the parts of a node are made from parts of its tokens that do not overlap; so it is enough to know,
of a row of nodes, that it is `Sited` at some tokens, and that rows are put together as their tokens
are.
-/

namespace LetFn

/-- The first location is the second one or before it. -/
def Location.AtMost (a b : Location) : Prop := a = b ∨ a.Before b

namespace Node

/-- The tokens hold the one at which a node of this kind begins. The zero of a unary minus has no
token of its own and stands at the sign, as does the difference around it. -/
def Begins (ts : List Token) (n parent : Node) : Prop :=
  match n with
  | block loc _ => ⟨.operator .lcurl, loc⟩ ∈ ts
  | lambda loc _ _ _ _ => ⟨.operator .fn, loc⟩ ∈ ts
  | typed t => ⟨.literal t.name, t.loc⟩ ∈ ts
  | literal loc value =>
    ⟨.literal value, loc⟩ ∈ ts ∨
      value = Text.utf8 "0" ∧ ⟨.operator .sub, loc⟩ ∈ ts ∧
        ∃ y, parent = expression loc .sub (literal loc value) y
  | expression loc op _ _ =>
    if op = .bind then ⟨.operator .bind, loc⟩ ∈ ts
    else ∃ w, Parser.opensOperand w = true ∧ ⟨w, loc⟩ ∈ ts
  | module _ _ | bodiless _ _ _ | missing | foreign _ => False

/-- If the node is an expression, its left side stands before its right side. -/
def Parted : Node → Prop
  | expression _ _ x y => ∀ a ∈ x.nodes, ∀ b ∈ y.nodes, a.loc.Before b.loc
  | _ => True

/-- A node that begins at some tokens begins at any that hold them. -/
theorem Begins.mono {us ts : List Token} {parent n : Node} (h : n.Begins us parent)
    (hsub : us ⊆ ts) : n.Begins ts parent := by
  cases n with
  | block loc stmts | lambda loc ret params bodyLoc body | typed t => exact hsub h
  | literal loc value =>
    rcases h with h | ⟨hvalue, h, hparent⟩
    · exact .inl (hsub h)
    · exact .inr ⟨hvalue, hsub h, hparent⟩
  | expression loc op x y =>
    by_cases hop : op = .bind
    · simp only [Begins, if_pos hop] at h ⊢
      exact hsub h
    · simp only [Begins, if_neg hop] at h ⊢
      obtain ⟨w, hw, h⟩ := h
      exact ⟨w, hw, hsub h⟩
  | module loc stmts | bodiless loc ret params | missing | foreign typeName => exact h

end Node

open Node

/-! ## Rows of nodes

Where the tokens of two rows do not overlap, everything in the first stands before everything in the
second. A node with children is put in front of the rows of its children, at the first of its
tokens. -/

/-- A row of nodes that stand at the tokens, from left to right. -/
structure Sited (ts : List Token) (ns : List Node) : Prop where
  within : ∀ n ∈ ns, ∃ t ∈ ts, n.loc = t.loc
  ordered : ns.Pairwise fun a b => a.loc.AtMost b.loc
  parted : ∀ n ∈ ns, n.Parted
  begins : ∀ n ∈ ns, ∀ q c, (q, c) ∈ n.children → c.Begins ts n

namespace Sited

/-- A row of no nodes stands at any tokens. -/
theorem nil (ts : List Token) : Sited ts [] := by
  constructor <;> simp

/-- A row that stands at some tokens stands at any that hold them. -/
theorem mono {us ts : List Token} {ns : List Node} (h : Sited us ns) (hsub : us ⊆ ts) :
    Sited ts ns where
  within n hn := by
    obtain ⟨t, ht, hloc⟩ := h.within n hn
    exact ⟨t, hsub ht, hloc⟩
  ordered := h.ordered
  parted := h.parted
  begins n hn q c hc := (h.begins n hn q c hc).mono hsub

/-- What stands at earlier tokens stands before what stands at later ones. -/
theorem before {us vs : List Token} {ms ns : List Node}
    (hplaces : (us ++ vs).Pairwise fun s t => s.loc.Before t.loc) (hms : Sited us ms)
    (hns : Sited vs ns) : ∀ a ∈ ms, ∀ b ∈ ns, a.loc.Before b.loc := by
  intro a ha b hb
  obtain ⟨s, hs, hsa⟩ := hms.within a ha
  obtain ⟨t, ht, htb⟩ := hns.within b hb
  rw [hsa, htb]
  exact (List.pairwise_append.mp hplaces).2.2 s hs t ht

/-- Rows that stand at tokens one after the other stand so themselves. -/
theorem append {us vs : List Token} {ms ns : List Node}
    (hplaces : (us ++ vs).Pairwise fun s t => s.loc.Before t.loc) (hms : Sited us ms)
    (hns : Sited vs ns) : Sited (us ++ vs) (ms ++ ns) := by
  have hbefore := before hplaces hms hns
  have hleft := hms.mono (List.subset_append_left us vs)
  have hright := hns.mono (List.subset_append_right us vs)
  -- All but the order is said of one node at a time.
  refine ⟨?_, ?_, ?_, ?_⟩
  · exact List.forall_mem_append.mpr ⟨hleft.within, hright.within⟩
  · exact List.pairwise_append.mpr
      ⟨hleft.ordered, hright.ordered, fun a ha b hb => .inr (hbefore a ha b hb)⟩
  · exact List.forall_mem_append.mpr ⟨hleft.parted, hright.parted⟩
  · exact List.forall_mem_append.mpr ⟨hleft.begins, hright.begins⟩

/-- No node stands before the first token. -/
theorem front_atMost {ts : List Token} {ns : List Node}
    (hplaces : ts.Pairwise fun s t => s.loc.Before t.loc) (h : Sited ts ns) :
    ∀ n ∈ ns, (Parser.frontLoc ts).AtMost n.loc := by
  intro n hn
  obtain ⟨t, ht, hloc⟩ := h.within n hn
  rw [hloc]
  -- Any token but the first is behind the first.
  cases ts with
  | nil => cases ht
  | cons first rest =>
    rcases List.mem_cons.mp ht with rfl | ht
    · exact .inl rfl
    · exact .inr ((List.pairwise_cons.mp hplaces).1 t ht)

/-- In front of a row goes a node that stands at the first token. -/
theorem cons {t : Token} {rest : List Token} {n : Node} {ns : List Node}
    (hplaces : (t :: rest).Pairwise fun s t => s.loc.Before t.loc) (h : Sited (t :: rest) ns)
    (hloc : n.loc = t.loc) (hparted : n.Parted)
    (hbegins : ∀ q c, (q, c) ∈ n.children → c.Begins (t :: rest) n) :
    Sited (t :: rest) (n :: ns) where
  within := List.forall_mem_cons.mpr ⟨⟨t, List.mem_cons_self, hloc⟩, h.within⟩
  ordered := by
    refine .cons ?_ h.ordered
    rw [hloc]
    exact front_atMost hplaces h
  parted := List.forall_mem_cons.mpr ⟨hparted, h.parted⟩
  begins := List.forall_mem_cons.mpr ⟨hbegins, h.begins⟩

/-- A node without children stands at its one token. -/
theorem leaf {t : Token} {n : Node} (hloc : n.loc = t.loc) (hparted : n.Parted)
    (hchildren : n.children = []) : Sited [t] [n] := by
  refine cons (List.pairwise_singleton _ _) (.nil _) hloc hparted ?_
  simp [hchildren]

/-- An expression stands at the first token of its left side, and its sides one after the other. -/
theorem expression {t : Token} {us vs : List Token} {op : Operator} {x y : Node}
    (hplaces : (t :: us ++ vs).Pairwise fun s t => s.loc.Before t.loc)
    (hx : Sited (t :: us) x.nodes) (hy : Sited vs y.nodes)
    (hxbegins : x.Begins (t :: us) (.expression t.loc op x y)) (hybegins : ∀ p, y.Begins vs p) :
    Sited (t :: us ++ vs) (Node.expression t.loc op x y).nodes := by
  rw [nodes_expression]
  refine cons hplaces (append hplaces hx hy) rfl (before hplaces hx hy) ?_
  intro q c hc
  rcases eq_of_child_expression hc with rfl | rfl
  · exact hxbegins.mono (List.subset_append_left (t :: us) vs)
  · exact (hybegins _).mono (List.subset_append_right (t :: us) vs)

/-- A block stands at its brace, its statements behind it. -/
theorem block {us vs : List Token} {t : Token} {stmts : List Node}
    (hplaces : (t :: us ++ vs).Pairwise fun s t => s.loc.Before t.loc)
    (h : Sited us (nodesAll stmts)) (hbegins : ∀ n ∈ stmts, ∀ p, n.Begins us p) :
    Sited (t :: us ++ vs) (Node.block t.loc stmts).nodes := by
  have hsub : us ⊆ t :: us ++ vs := fun u hu => by simp [hu]
  rw [nodes_block]
  refine cons hplaces (h.mono hsub) rfl trivial ?_
  intro q c hc
  obtain ⟨n, hn, ⟨⟩⟩ := List.mem_map.mp hc
  exact (hbegins _ hn _).mono hsub

/-- A function stands at its keyword, its parameters and its body behind it. -/
theorem lambda {t : Token} {us vs : List Token} {ret : Bytes} {params : List TypedName}
    {bodyLoc : Location} {body : List Node}
    (hplaces : (t :: us ++ vs).Pairwise fun s t => s.loc.Before t.loc)
    (hparams : Sited (t :: us) (params.map typed)) (hbody : Sited vs (Node.block bodyLoc body).nodes)
    (hnames : ∀ p, ∀ s ∈ params, (typed s).Begins (t :: us) p)
    (hbrace : ⟨.operator .lcurl, bodyLoc⟩ ∈ vs) :
    Sited (t :: us ++ vs) (Node.lambda t.loc ret params bodyLoc body).nodes := by
  rw [nodes_lambda]
  refine cons hplaces (append hplaces hparams hbody) rfl trivial ?_
  intro q c hc
  rcases List.mem_append.mp hc with hc | hc
  · obtain ⟨s, hs, ⟨⟩⟩ := List.mem_map.mp hc
    exact (hnames _ s hs).mono (List.subset_append_left (t :: us) vs)
  · obtain ⟨⟩ := List.mem_singleton.mp hc
    exact List.mem_append_right (t :: us) hbrace

end Sited

/-! ## Rows made from tokens

By induction on how the tree was made from the tokens. The token of a sign, a comma or a parenthesis
belongs to no node and is left out of the row. -/

namespace Origin

/-- What stands between two tokens is part of the whole. -/
theorem sublist_between (s : Token) (ts : List Token) (t : Token) :
    ts.Sublist (s :: ts ++ [t]) :=
  (List.sublist_append_left ts [t]).trans (List.sublist_cons_self s _)

/-- An operand begins at a token that opens one: a parenthesis around it moves nothing. -/
theorem begins_operand {ts : List Token} {x : Node} (h : Operand ts x) (p : Node) :
    x.Begins ts p := by
  induction h with
  | literal text a => exact .inl (by simp)
  | minus a _ _ => exact ⟨_, rfl, List.mem_cons_self⟩
  | plus a _ ih => exact ih.mono (List.subset_cons_self _ _)
  | parens a b _ ih => exact ih.mono (sublist_between _ _ _).subset
  -- A chain stands at its first token, which opens its first operand.
  | @chain us vs x y op a hus harith _ _ _ =>
    have hop : op ≠ .bind := (precedence_of_isArithmetic harith).1
    obtain ⟨w, b, rest, rfl, hw⟩ := hus.front
    simp only [Begins, if_neg hop]
    exact ⟨w, hw, List.mem_cons_self⟩

/-- A name with its type begins at the name. -/
theorem begins_typed {ts : List Token} {t : TypedName} (h : Typed ts t) (p : Node) :
    (typed t).Begins ts p := by
  obtain ⟨name, type, a, b, c⟩ := h
  exact List.mem_cons_self

/-- So does whatever a binding binds. -/
theorem begins_name {ts : List Token} {x : Node} (h : Name ts x) (p : Node) : x.Begins ts p := by
  cases h with
  | plain name a => exact .inl List.mem_cons_self
  | typed h => exact begins_typed h p

/-- And so does every parameter. -/
theorem begins_params {ts : List Token} {params : List TypedName} (h : Params ts params)
    (p : Node) : ∀ t ∈ params, (typed t).Begins ts p := by
  induction h with
  | none => simp
  | last h => simpa using begins_typed h p
  | cons a h _ ih =>
    refine List.forall_mem_cons.mpr ⟨(begins_typed h p).mono (List.subset_append_left _ _), ?_⟩
    intro t ht
    exact (ih t ht).mono fun u hu => by simp [hu]

/-- A block begins at its brace, a function at its keyword, arithmetic as an operand does. -/
theorem begins_value {ts : List Token} {x : Node} (h : Value ts x) (p : Node) :
    x.Begins ts p := by
  cases h with
  | block a b _ => exact List.mem_cons_self
  | lambda ret a b c d e g h _ _ => exact List.mem_cons_self
  | operand h => exact begins_operand h p

/-- A binding begins at its keyword. -/
theorem begins_statement {ts : List Token} {x : Node} (h : Statement ts x) (p : Node) :
    x.Begins ts p := by
  cases h with
  | binding a b c _ _ => exact List.mem_cons_self
  | value a h => exact (begins_value h p).mono (List.subset_append_left _ _)

/-- Every statement begins at a token of its own. -/
theorem begins_statements {ts : List Token} {stmts : List Node} (h : Statements ts stmts) :
    ∀ n ∈ stmts, ∀ p, n.Begins ts p := by
  induction stmts generalizing ts with
  | nil => simp
  | cons first rest ih =>
    obtain _ | ⟨hfirst, hrest⟩ := h
    refine List.forall_mem_cons.mpr ⟨?_, ?_⟩
    · exact fun p => (begins_statement hfirst p).mono (List.subset_append_left _ _)
    · exact fun n hn p => (ih hrest n hn p).mono (List.subset_append_right _ _)

/-- The nodes of an operand stand at its tokens. -/
theorem sited_operand {ts : List Token} {x : Node} (h : Operand ts x)
    (hplaces : ts.Pairwise fun s t => s.loc.Before t.loc) : Sited ts x.nodes := by
  induction h with
  | literal text a =>
    rw [nodes_literal]
    exact Sited.leaf rfl trivial rfl
  | @minus ts x a h ih =>
    -- The zero takes the sign as its token, so it still stands before the operand.
    let sign : Token := ⟨.operator .sub, a⟩
    have hsplit : ([sign] ++ ts).Pairwise fun s t => s.loc.Before t.loc := hplaces
    have hzero : Sited [sign] (literal a (Text.utf8 "0")).nodes := by
      rw [nodes_literal]
      exact Sited.leaf rfl trivial rfl
    have hx := ih (List.pairwise_cons.mp hplaces).2
    exact Sited.expression hsplit hzero hx (.inr ⟨rfl, List.mem_cons_self, x, rfl⟩)
      (begins_operand h)
  | plus a _ ih =>
    exact (ih (List.pairwise_cons.mp hplaces).2).mono (List.subset_cons_self _ _)
  -- The parentheses are left aside: what is between them has the nodes.
  | @parens ts x a b _ ih =>
    have hinner := sublist_between ⟨.operator .lparen, a⟩ ts ⟨.operator .rparen, b⟩
    exact (ih (hplaces.sublist hinner)).mono hinner.subset
  | @chain us vs x y op a hus _ hvs ihus ihvs =>
    have hright : vs.Sublist (⟨.operator op, a⟩ :: vs) := List.sublist_cons_self _ _
    have hpair := List.pairwise_append.mp hplaces
    have hx := ihus hpair.1
    have hy := (ihvs (hpair.2.1.sublist hright)).mono hright.subset
    obtain ⟨w, b, rest, rfl, -⟩ := hus.front
    exact Sited.expression hplaces hx hy (begins_operand hus _)
      fun p => (begins_operand hvs p).mono hright.subset

/-- The node of a name with its type stands at the name. -/
theorem sited_typed {ts : List Token} {t : TypedName} (h : Typed ts t) : Sited ts [typed t] := by
  obtain ⟨name, type, a, b, c⟩ := h
  have hleaf : Sited [⟨.literal name, a⟩] [typed ⟨a, name, type⟩] := Sited.leaf rfl trivial rfl
  exact hleaf.mono (by simp)

/-- The node that a binding binds stands at its name. -/
theorem sited_name {ts : List Token} {x : Node} (h : Name ts x) : Sited ts x.nodes := by
  cases h with
  | plain name a =>
    rw [nodes_literal]
    exact Sited.leaf rfl trivial rfl
  | typed h =>
    rw [nodes_typed]
    exact sited_typed h

/-- The parameters stand at their names, from left to right. -/
theorem sited_params {ts : List Token} {params : List TypedName} (h : Params ts params)
    (hplaces : ts.Pairwise fun s t => s.loc.Before t.loc) : Sited ts (params.map typed) := by
  induction h with
  | none => exact .nil _
  | last h => exact sited_typed h
  | @cons us vs s t rest a hus _ ih =>
    have hright : vs.Sublist (⟨.operator .comma, a⟩ :: vs) := List.sublist_cons_self _ _
    have hrest := (ih ((List.pairwise_append.mp hplaces).2.1.sublist hright)).mono hright.subset
    exact Sited.append hplaces (sited_typed hus) hrest

mutual

/-- The nodes of a value stand at its tokens. -/
theorem sited_value {ts : List Token} {x : Node} (h : Value ts x)
    (hplaces : ts.Pairwise fun s t => s.loc.Before t.loc) : Sited ts x.nodes := by
  cases h with
  | @block ts stmts a b h =>
    have hstmts := sited_statements h (hplaces.sublist (sublist_between _ ts _))
    exact Sited.block hplaces hstmts (begins_statements h)
  | @lambda us vs params body ret a b c d e g k hparams hbody =>
    rw [List.append_assoc] at hplaces ⊢
    obtain ⟨hleft, hright, -⟩ := List.pairwise_append.mp hplaces
    have hfront : us.Sublist (⟨.operator .fn, a⟩ :: ⟨.operator .lparen, b⟩ :: us) := by simp
    -- The body is a block behind the parameters, made from the last of the tokens.
    have hblock : List.Sublist (⟨.operator .lcurl, g⟩ :: vs ++ [⟨.operator .rcurl, k⟩])
        (⟨.operator .rparen, c⟩ :: ⟨.operator .colon, d⟩ :: ⟨.literal ret, e⟩ ::
          ⟨.operator .lcurl, g⟩ :: vs ++ [⟨.operator .rcurl, k⟩]) :=
      List.sublist_append_right [_, _, _] _
    have hstmts := sited_statements hbody (hright.sublist ((sublist_between _ vs _).trans hblock))
    have hsited := Sited.block (hright.sublist hblock) hstmts (begins_statements hbody)
    refine Sited.lambda hplaces ((sited_params hparams (hleft.sublist hfront)).mono hfront.subset)
      (hsited.mono hblock.subset) ?_ (by simp)
    exact fun p s hs => (begins_params hparams p s hs).mono hfront.subset
  | operand h => exact sited_operand h hplaces

/-- The nodes of a statement stand at its tokens. -/
theorem sited_statement {ts : List Token} {x : Node} (h : Statement ts x)
    (hplaces : ts.Pairwise fun s t => s.loc.Before t.loc) : Sited ts x.nodes := by
  cases h with
  | @binding us vs x y a b c hname hvalue =>
    rw [List.append_assoc] at hplaces ⊢
    -- The value is made from what stands between the two marks.
    have hinner := sublist_between ⟨.operator .assign, b⟩ vs ⟨.operator .semicolon, c⟩
    have hright := (List.pairwise_append.mp hplaces).2.1
    have hy := (sited_value hvalue (hright.sublist hinner)).mono hinner.subset
    exact Sited.expression hplaces ((sited_name hname).mono (List.subset_cons_self _ _)) hy
      ((begins_name hname _).mono (List.subset_cons_self _ _))
      fun p => (begins_value hvalue p).mono hinner.subset
  | @value ts x a h =>
    exact (sited_value h (List.pairwise_append.mp hplaces).1).mono (List.subset_append_left _ _)

/-- The nodes of statements stand at their tokens, those of the first in front. -/
theorem sited_statements {ts : List Token} {stmts : List Node} (h : Statements ts stmts)
    (hplaces : ts.Pairwise fun s t => s.loc.Before t.loc) : Sited ts (nodesAll stmts) := by
  cases h with
  | nil => exact .nil _
  | cons hfirst hrest =>
    have hpair := List.pairwise_append.mp hplaces
    rw [nodesAll_cons]
    exact Sited.append hplaces (sited_statement hfirst hpair.1) (sited_statements hrest hpair.2.1)

end

end Origin

/-! ## Parsed trees

The tokens of a source lie in the order of their locations as long as lines and columns can be
counted, so the rows of its tree are sited. -/

/-- A parsed tree stands at the first token, or nowhere if there is none. Every other node begins at
the token of its kind; a walk meets the nodes from left to right; and all of the left side of an
expression stands before all of its right side. -/
theorem parsed_locations {lines : List Bytes} {m : Node} (hlines : lines.length < UInt32.size)
    (hcolumns : ∀ line ∈ lines, (Snippet.segment line).1.length < UInt32.size)
    (h : parseLines lines = .ok m) :
    (∃ stmts, m = .module (Parser.frontLoc (Lexed.ofLines lines).tokens) stmts) ∧
      (∀ place parent, m.Occurs place parent → ∀ q n, (q, n) ∈ parent.children →
        n.Begins (Lexed.ofLines lines).tokens parent) ∧
      m.nodes.Pairwise (fun a b => a.loc.AtMost b.loc) ∧
      ∀ place loc op x y, m.Occurs place (.expression loc op x y) →
        ∀ a ∈ x.nodes, ∀ b ∈ y.nodes, a.loc.Before b.loc := by
  have hplaces := Lexed.pairwise_before_ofLines hlines hcolumns
  obtain ⟨stmts, rfl, horigin⟩ := Parser.origin_module (Lexed.parse_eq_ok.mp h).2
  have hsited := Origin.sited_statements horigin hplaces
  refine ⟨⟨stmts, rfl⟩, ?_, ?_, ?_⟩
  -- The module is not in the row: its own children are the statements.
  · intro place parent hparent q n hn
    have hmem := mem_nodes_of_occurs hparent (by rintro rfl; cases hn)
    rw [nodes_module] at hmem
    rcases List.mem_cons.mp hmem with rfl | hmem
    · obtain ⟨c, hc, ⟨⟩⟩ := List.mem_map.mp hn
      exact Origin.begins_statements horigin _ hc _
    · exact hsited.begins parent hmem q n hn
  · rw [nodes_module]
    exact .cons (hsited.front_atMost hplaces) hsited.ordered
  · intro place loc op x y hoccurs
    have hmem := mem_nodes_of_occurs hoccurs (by simp)
    rw [nodes_module] at hmem
    rcases List.mem_cons.mp hmem with hmodule | hmem
    · cases hmodule
    · exact hsited.parted _ hmem

/-- The seventeen nodes of a nested source. -/
theorem parsed_locations_nestedLines :
    nestedLines.length < UInt32.size ∧
      (∀ line ∈ nestedLines, (Snippet.segment line).1.length < UInt32.size) ∧
      ∃ m, parseLines nestedLines = .ok m ∧ m.nodes.length = 17 ∧
        (∀ place parent, m.Occurs place parent → ∀ q n, (q, n) ∈ parent.children →
          n.Begins (Lexed.ofLines nestedLines).tokens parent) ∧
        m.nodes.Pairwise fun a b => a.loc.AtMost b.loc := by
  have hcolumns : ∀ line ∈ nestedLines, (Snippet.segment line).1.length < UInt32.size := by
    decide +kernel
  have hcount : (parseLines nestedLines).toOption.map (·.nodes.length) = some 17 := by
    decide +kernel
  rcases hm : parseLines nestedLines with f | m
  · rw [hm] at hcount
    cases hcount
  · rw [hm] at hcount
    obtain ⟨-, hbegins, hordered, -⟩ := parsed_locations (by decide) hcolumns hm
    exact ⟨by decide, hcolumns, m, rfl, Option.some.inj hcount, hbegins, hordered⟩

end LetFn
