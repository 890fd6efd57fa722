import LetFn.Node.Json
import LetFn.Node.Outline
import LetFn.Proofs.Node.RoundTrip

/-!
# Which node stands where

`isWellFormed` goes through a tree from the top. Here the same is said from the view of a single
node: `Occurs m place n` says that `n` stands at `place` somewhere in `m`, and `fits` says which
nodes may stand there. In a well-formed tree every node fits its place (`fits_of_occurs`), because
what a node demands of its children is what their places demand of them (`meets_child`).

Writing a tree, as an outline, in JSON or as source text, comes to the nodes that occur in it and to
no others. So trees that were parsed can be written in all three ways, and no node is met on the way
that cannot (`parsed_fits`).
-/

namespace LetFn

/-- What a node is to the node around it. -/
inductive Place where
  | root
  | statement
  | boundName
  | boundValue
  | operand
  | parameter
  | body
  deriving DecidableEq, Repr

namespace Node

/-- The nodes right inside a node, and their places. -/
def children : Node → List (Place × Node)
  | module _ stmts | block _ stmts => stmts.map (.statement, ·)
  | expression _ op x y =>
    if op = .bind then [(.boundName, x), (.boundValue, y)] else [(.operand, x), (.operand, y)]
  | lambda _ _ params bodyLoc body =>
    params.map (.parameter, typed ·) ++ [(.body, block bodyLoc body)]
  | bodiless _ _ params => params.map (.parameter, typed ·) ++ [(.body, missing)]
  | literal _ _ | typed _ | missing | foreign _ => []

/-- The node stands at the place somewhere in the tree. -/
inductive Occurs (m : Node) : Place → Node → Prop
  | root : Occurs m .root m
  | child {p q : Place} {n c : Node} : Occurs m p n → (q, c) ∈ n.children → Occurs m q c

/-- The node may stand at the place, and its own texts are names. -/
def fits (place : Place) : Node → Bool
  | module _ _ => place = .root
  | block _ _ => place ∈ [.statement, .boundValue, .body]
  | literal _ value =>
    place ∈ [.statement, .boundName, .boundValue, .operand] && Word.isName value
  | typed t => place ∈ [.boundName, .parameter] && t.isNamed
  | expression _ op _ _ =>
    if op = .bind then place = .statement
    else op.isArithmetic && place ∈ [.statement, .boundValue, .operand]
  | lambda _ ret _ _ _ => place ∈ [.statement, .boundValue] && Word.isName ret
  | bodiless _ _ _ | missing | foreign _ => false

/-! ## From the top down

The checks of well-formedness are those of places, each under its own name. Where a kind of node may
stand at several places, the checks come to the same. -/

/-- What well-formedness demands of the node at a place. -/
def meets : Place → Node → Bool
  | .root, n => n.isWellFormed
  | .statement, n => n.isBinding || n.isValue
  | .boundName, n => n.isBindable
  | .boundValue, n => n.isValue
  | .operand, n => n.isOperand
  | .parameter, typed t => t.isNamed
  | .body, block _ stmts => areStatements stmts
  | _, _ => false

/-- Each of several statements is one. -/
theorem meets_of_areStatements {stmts : List Node} (h : areStatements stmts = true) :
    ∀ n ∈ stmts, meets .statement n = true := by
  induction stmts with
  | nil => simp
  | cons n rest ih =>
    rw [areStatements, Bool.and_eq_true] at h
    intro c hc
    rcases List.mem_cons.mp hc with rfl | hc
    · exact h.1
    · exact ih h.2 c hc

/-- A block that may stand somewhere holds statements. -/
theorem areStatements_of_meets_block {p : Place} {loc : Location} {stmts : List Node}
    (h : meets p (block loc stmts) = true) : areStatements stmts = true := by
  cases p with
  | statement | boundValue | body => exact h
  | root | boundName | operand | parameter => cases h

/-- A binding may only be a statement, and binds a name to a value. -/
theorem meets_binding {p : Place} {loc : Location} {x y : Node}
    (h : meets p (expression loc .bind x y) = true) :
    p = .statement ∧ x.isBindable = true ∧ y.isValue = true := by
  cases p with
  | statement =>
    have hvalue : (expression loc .bind x y).isValue = false := rfl
    rw [meets, hvalue, Bool.or_false, isBinding] at h
    simpa using h
  | root | boundName | boundValue | operand | parameter | body => cases h

/-- Arithmetic may stand where a value may, and its sides are operands. -/
theorem meets_arithmetic {p : Place} {loc : Location} {op : Operator} {x y : Node}
    (hop : op ≠ .bind) (h : meets p (expression loc op x y) = true) :
    p ∈ [.statement, .boundValue, .operand] ∧ op.isArithmetic = true ∧
      x.isOperand = true ∧ y.isOperand = true := by
  -- Wherever it may stand, arithmetic is an operand.
  have hoperand : (expression loc op x y).isOperand = true := by
    cases p with
    | statement =>
      have hbinding : (expression loc op x y).isBinding = false := by simp [isBinding, hop]
      rw [meets, hbinding, Bool.false_or] at h
      exact h
    | boundValue | operand => exact h
    | root | boundName | parameter | body => cases h
  simp only [isOperand, Bool.and_eq_true] at hoperand
  refine ⟨?_, hoperand.1.1, hoperand.1.2, hoperand.2⟩
  cases p with
  | statement | boundValue | operand => decide
  | root | boundName | parameter | body => cases h

/-- So may a function, with names for its parameters and statements in its body. -/
theorem meets_lambda {p : Place} {loc bodyLoc : Location} {ret : Bytes} {params : List TypedName}
    {body : List Node} (h : meets p (lambda loc ret params bodyLoc body) = true) :
    p ∈ [.statement, .boundValue] ∧ Word.isName ret = true ∧
      params.all TypedName.isNamed = true ∧ areStatements body = true := by
  have hvalue : (lambda loc ret params bodyLoc body).isValue = true := by
    cases p with
    | statement | boundValue => exact h
    | root | boundName | operand | parameter | body => cases h
  simp only [isValue, Bool.and_eq_true] at hvalue
  refine ⟨?_, hvalue.1.1, hvalue.1.2, hvalue.2⟩
  cases p with
  | statement | boundValue => decide
  | root | boundName | operand | parameter | body => cases h

/-- What a place demands of a node is what the places in the node demand of its children. -/
theorem meets_child {p q : Place} {n c : Node} (h : meets p n = true) (hc : (q, c) ∈ n.children) :
    meets q c = true := by
  -- Statements demand the same of each of them.
  have hgroup : ∀ {stmts : List Node}, areStatements stmts = true →
      (q, c) ∈ stmts.map (Place.statement, ·) → meets q c = true := by
    intro stmts hstmts hmem
    obtain ⟨n, hn, ⟨⟩⟩ := List.mem_map.mp hmem
    exact meets_of_areStatements hstmts _ hn
  cases n with
  | module loc stmts =>
    cases p with
    | root => exact hgroup h hc
    | _ => cases h
  | block loc stmts => exact hgroup (areStatements_of_meets_block h) hc
  | expression loc op x y =>
    -- A binding has a name and a value for its sides, any other expression two operands.
    by_cases hop : op = .bind
    · subst hop
      obtain ⟨-, hx, hy⟩ := meets_binding h
      rw [children, if_pos rfl] at hc
      simp only [List.mem_cons, List.not_mem_nil, or_false, Prod.mk.injEq] at hc
      rcases hc with ⟨rfl, rfl⟩ | ⟨rfl, rfl⟩
      · exact hx
      · exact hy
    · obtain ⟨-, -, hx, hy⟩ := meets_arithmetic hop h
      rw [children, if_neg hop] at hc
      simp only [List.mem_cons, List.not_mem_nil, or_false, Prod.mk.injEq] at hc
      rcases hc with ⟨rfl, rfl⟩ | ⟨rfl, rfl⟩
      · exact hx
      · exact hy
  | lambda loc ret params bodyLoc body =>
    obtain ⟨-, -, hparams, hbody⟩ := meets_lambda h
    rcases List.mem_append.mp hc with hparam | hlast
    · obtain ⟨t, ht, ⟨⟩⟩ := List.mem_map.mp hparam
      exact List.all_eq_true.mp hparams t ht
    · obtain ⟨⟩ := List.mem_singleton.mp hlast
      exact hbody
  | bodiless loc ret params => cases p <;> cases h
  | literal loc value | typed t | missing | foreign typeName => cases hc

/-- In a well-formed tree every place gets what it demands. -/
theorem meets_of_occurs {m n : Node} {p : Place} (hm : m.isWellFormed = true)
    (h : m.Occurs p n) : meets p n = true := by
  induction h with
  | root => exact hm
  | child _ hc ih => exact meets_child ih hc

/-- What meets the demands of a place is of a kind that may stand there. -/
theorem fits_of_meets {p : Place} {n : Node} (h : meets p n = true) : n.fits p = true := by
  cases n with
  | expression loc op x y =>
    by_cases hop : op = .bind
    · subst hop
      simp [fits, (meets_binding h).1]
    · obtain ⟨hp, harith, -, -⟩ := meets_arithmetic hop h
      simp only [fits, if_neg hop, harith, Bool.true_and, decide_eq_true_eq]
      exact hp
  | lambda loc ret params bodyLoc body =>
    obtain ⟨hp, hret, -, -⟩ := meets_lambda h
    simp only [fits, hret, Bool.and_true, decide_eq_true_eq]
    exact hp
  | literal loc value =>
    cases p with
    | statement | boundName | boundValue | operand => exact h
    | root | parameter | body => cases h
  | typed t =>
    cases p with
    | boundName | parameter => exact h
    | root | statement | boundValue | operand | body => cases h
  | module loc stmts | block loc stmts | bodiless loc ret params | missing | foreign typeName =>
    cases p <;> first | rfl | cases h

/-- In a well-formed tree every node is one that may stand where it stands. -/
theorem fits_of_occurs {m n : Node} {p : Place} (hm : m.isWellFormed = true)
    (h : m.Occurs p n) : n.fits p = true :=
  fits_of_meets (meets_of_occurs hm h)

/-- What may stand somewhere is of a kind of this language, and only the root is a module. -/
theorem kind_of_fits {p : Place} {n : Node} (h : n.fits p = true) :
    n.kind? ≠ none ∧ (n.kind? = some "Module" → p = .root) := by
  cases n with
  | module loc stmts => exact ⟨by simp [kind?], fun _ => of_decide_eq_true h⟩
  | bodiless loc ret params | missing | foreign typeName => cases h
  | block loc stmts | literal loc value | typed t | expression loc op x y
  | lambda loc ret params bodyLoc body => simp [kind?]

/-! ## Writing

Each of the three writers has a check for what it cannot write, and no tree that fits its places
fails one. -/

mutual

/-- A tree without missing parts can be written as an outline and in JSON. -/
theorem isComplete_of_meets : ∀ {p : Place} {n : Node}, meets p n = true → n.isComplete = true
  | _, module _ stmts, h =>
    areComplete_of_meets fun _ hc => meets_child h (List.mem_map_of_mem hc)
  | _, block _ stmts, h =>
    areComplete_of_meets fun _ hc => meets_child h (List.mem_map_of_mem hc)
  | _, lambda _ _ _ _ body, h =>
    areComplete_of_meets (meets_of_areStatements (meets_lambda h).2.2.2)
  | _, expression _ op x y, h => by
    obtain ⟨_, _, hx, hy⟩ : ∃ q r, meets q x = true ∧ meets r y = true := by
      by_cases hop : op = .bind
      · subst hop
        exact ⟨.boundName, .boundValue, (meets_binding h).2⟩
      · exact ⟨.operand, .operand, (meets_arithmetic hop h).2.2⟩
    rw [isComplete, isComplete_of_meets hx, isComplete_of_meets hy]
    rfl
  | p, bodiless _ _ _, h => by cases p <;> cases h
  | _, literal _ _, _ | _, typed _, _ | _, missing, _ | _, foreign _, _ => rfl

theorem areComplete_of_meets : ∀ {stmts : List Node},
    (∀ n ∈ stmts, meets .statement n = true) → areComplete stmts = true
  | [], _ => rfl
  | n :: rest, h => by
    rw [areComplete, isComplete_of_meets (h n List.mem_cons_self),
      areComplete_of_meets fun c hc => h c (List.mem_cons_of_mem n hc)]
    rfl

end

mutual

/-- What is written is part of the tree. -/
theorem isWritable_of_isComplete : ∀ {n : Node}, n.isComplete = true → n.isWritable = true
  | block _ _, h => areWritable_of_areComplete h
  | lambda _ _ _ _ _, h => areWritable_of_areComplete h
  | expression _ _ x y, h => by
    rw [isComplete, Bool.and_eq_true] at h
    rw [isWritable, isWritable_of_isComplete h.1, isWritable_of_isComplete h.2]
    rfl
  | module _ _, _ | literal _ _, _ | typed _, _ | missing, _ | foreign _, _ => rfl

theorem areWritable_of_areComplete : ∀ {stmts : List Node}, areComplete stmts = true →
    areWritable stmts = true
  | [], _ => rfl
  | n :: rest, h => by
    rw [areComplete, Bool.and_eq_true] at h
    rw [areWritable, isWritable_of_isComplete h.1, areWritable_of_areComplete h.2]
    rfl

end

/-- And as source text. -/
theorem format?_of_isComplete {n : Node} (h : n.isComplete = true) : n.format? = some n.format := by
  cases n with
  | module loc stmts =>
    rw [format?]
    exact if_pos (areWritable_of_areComplete h)
  | _ =>
    rw [format?]
    · exact if_pos (isWritable_of_isComplete h)
    · simp

end Node

/-! ## Names that must have a type

There is one production for a name with or without a type. Whether a type must follow is an argument
of it. -/

namespace Parser

/-- A name with or without a type; with `strict` set, a type must follow. -/
def typedLiteral (strict : Bool) (ts : List Token) : Outcome Node :=
  (annotated ts).outcome.andThen fun a left =>
    if strict && a.type.isNone then .error ⟨.typeColon, left⟩
    else .ok (bindingNode a.loc a.name a.type, left)

/-- Without `strict` the name is read as that of a binding. -/
theorem typedLiteral_lenient (ts : List Token) :
    typedLiteral false ts = (bindingName ts).outcome := by
  rw [typedLiteral, outcome_bindingName, outcome_annotated]
  simp only [Outcome.andThen_assoc, Outcome.andThen_ok]
  rfl

/-- Where the type must follow, the node is a name with its type. -/
theorem typedLiteral_strict (ts : List Token) :
    typedLiteral true ts =
      (parameter ts).outcome.andThen fun t left => .ok (.typed t, left) := by
  rw [typedLiteral, parameter]
  rcases annotated ts with e | ⟨⟨loc, name, _ | type⟩, left, hleft⟩ <;> rfl

end Parser

/-! ## Parsed trees -/

/-- Every node of a parsed tree is one that may stand where it stands, so no writer meets a node
that is missing, of no kind, or a module inside another node; the tree has an outline, a JSON form
and a canonical text. A name that must have a type is read by the same production as any other, and
as a node with a type or not at all. -/
theorem parsed_fits {lines : List Bytes} {m : Node} (h : parseLines lines = .ok m) :
    (∀ place n, m.Occurs place n →
      n.fits place = true ∧ n.kind? ≠ none ∧ (n.kind? = some "Module" → place = .root)) ∧
      m.outline? = some m.outline ∧ m.json? = some m.json ∧ m.format? = some m.format ∧
      ∀ ts, Parser.typedLiteral false ts = (Parser.bindingName ts).outcome ∧
        ∀ x left, Parser.typedLiteral true ts = .ok (x, left) →
          ∃ t, x = .typed t ∧ (Parser.parameter ts).outcome = .ok (t, left) := by
  have hm := Node.isWellFormed_of_parseLines h
  have hcomplete : m.isComplete = true := Node.isComplete_of_meets (p := .root) hm
  refine ⟨?_, if_pos hcomplete, if_pos hcomplete, Node.format?_of_isComplete hcomplete, ?_⟩
  · intro place n hn
    have hfits := Node.fits_of_occurs hm hn
    exact ⟨hfits, Node.kind_of_fits hfits⟩
  -- With `strict` only parameters are read.
  · intro ts
    refine ⟨Parser.typedLiteral_lenient ts, ?_⟩
    intro x left hx
    rw [Parser.typedLiteral_strict] at hx
    rcases hparameter : (Parser.parameter ts).outcome with e | ⟨t, rest⟩
    · rw [hparameter] at hx
      cases hx
    · rw [hparameter] at hx
      cases hx
      exact ⟨t, rfl, rfl⟩

/-- A function literal that binds, adds up and holds a block, with a comment behind it. -/
def nestedLines : List Bytes :=
  [Text.utf8 "let f: t = fn(a: b, c: d): e \x7b", Text.utf8 "  let x = -a ** (c + 1); \x7b\x7d;",
    Text.utf8 "\x7d; // f"]

/-- In the nested source every node fits. -/
theorem parsed_fits_nestedLines : ∃ m, parseLines nestedLines = .ok m ∧
    (∀ place n, m.Occurs place n → n.fits place = true) ∧ m.format? = some m.format := by
  have hok : (parseLines nestedLines).toBool = true := by decide +kernel
  rcases hm : parseLines nestedLines with f | m
  · rw [hm] at hok
    cases hok
  · obtain ⟨hfits, -, -, hformat, -⟩ := parsed_fits hm
    exact ⟨m, rfl, fun place n hn => (hfits place n hn).1, hformat⟩

end LetFn
