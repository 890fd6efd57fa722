import LetFn.Node.Format
import LetFn.Node.Walk

/-!
# Trees without their locations

`relocate` changes every location of a tree, and `erase` forgets them all. Comparing two trees with
`same` is comparing what is left of them when their locations are forgotten (`same_iff_erase_eq`),
as long as there is no node of an unknown kind, which is the same as nothing. Trees that are the
same have the same canonical text (`format_eq_of_same`).
-/

namespace LetFn

/-- The name at another location. -/
def TypedName.relocate (f : Location → Location) (t : TypedName) : TypedName :=
  ⟨f t.loc, t.name, t.type⟩

namespace Node

mutual

/-- The tree with every location changed by `f`. -/
def relocate (f : Location → Location) : Node → Node
  | module loc stmts => module (f loc) (relocateAll f stmts)
  | block loc stmts => block (f loc) (relocateAll f stmts)
  | literal loc value => literal (f loc) value
  | typed name => typed (name.relocate f)
  | expression loc op x y => expression (f loc) op (x.relocate f) (y.relocate f)
  | lambda loc ret params bodyLoc body =>
    lambda (f loc) ret (params.map (TypedName.relocate f)) (f bodyLoc) (relocateAll f body)
  | bodiless loc ret params => bodiless (f loc) ret (params.map (TypedName.relocate f))
  | missing => missing
  | foreign typeName => foreign typeName

/-- The trees with every location changed by `f`. -/
def relocateAll (f : Location → Location) : List Node → List Node
  | [] => []
  | n :: rest => n.relocate f :: relocateAll f rest

end

/-- The tree without its locations. -/
def erase (n : Node) : Node := n.relocate fun _ => .unknown

/-- The trees without their locations. -/
def eraseAll (ns : List Node) : List Node := relocateAll (fun _ => .unknown) ns

end Node

/-- The name without its location. -/
def TypedName.erase (t : TypedName) : TypedName := t.relocate fun _ => .unknown

namespace Node

/-! ## Erasure, kind by kind

One equation for each kind, with `erase` on the right as well, so that the equations can be used
without unfolding. -/

@[simp] theorem erase_module (loc : Location) (stmts : List Node) :
    (module loc stmts).erase = module .unknown (eraseAll stmts) := rfl

@[simp] theorem erase_block (loc : Location) (stmts : List Node) :
    (block loc stmts).erase = block .unknown (eraseAll stmts) := rfl

@[simp] theorem erase_literal (loc : Location) (value : Bytes) :
    (literal loc value).erase = literal .unknown value := rfl

@[simp] theorem erase_typed (t : TypedName) : (typed t).erase = typed t.erase := rfl

@[simp] theorem erase_expression (loc : Location) (op : Operator) (x y : Node) :
    (expression loc op x y).erase = expression .unknown op x.erase y.erase := rfl

@[simp] theorem erase_lambda (loc bodyLoc : Location) (ret : Bytes) (params : List TypedName)
    (body : List Node) :
    (lambda loc ret params bodyLoc body).erase =
      lambda .unknown ret (params.map TypedName.erase) .unknown (eraseAll body) := rfl

@[simp] theorem erase_bodiless (loc : Location) (ret : Bytes) (params : List TypedName) :
    (bodiless loc ret params).erase = bodiless .unknown ret (params.map TypedName.erase) := rfl

@[simp] theorem erase_missing : missing.erase = missing := rfl

@[simp] theorem erase_foreign (typeName : Bytes) : (foreign typeName).erase = foreign typeName :=
  rfl

@[simp] theorem eraseAll_nil : eraseAll [] = [] := rfl

@[simp] theorem eraseAll_cons (n : Node) (rest : List Node) :
    eraseAll (n :: rest) = n.erase :: eraseAll rest := rfl

@[simp] theorem eraseAll_append (xs ys : List Node) :
    eraseAll (xs ++ ys) = eraseAll xs ++ eraseAll ys := by
  induction xs with
  | nil => rfl
  | cons x rest ih => simp [ih]

/-- The statements without their locations are those of the tree without its own. -/
theorem stmts_erase (n : Node) : n.erase.stmts = eraseAll n.stmts := by
  cases n <;> rfl

/-! ## Comparison

Two trees are compared by their kinds first and then by their parts. A node of an unknown kind is
not even the same as itself, so the way back from equality needs trees of known kinds. -/

mutual

/-- No node of an unknown kind is in the tree. -/
def isKnown : Node → Bool
  | module _ stmts | block _ stmts | lambda _ _ _ _ stmts => areKnown stmts
  | expression _ _ x y => x.isKnown && y.isKnown
  | foreign _ => false
  | literal _ _ | typed _ | bodiless _ _ _ | missing => true

/-- No node of an unknown kind is in the trees. -/
def areKnown : List Node → Bool
  | [] => true
  | n :: rest => n.isKnown && areKnown rest

end

/-- Two rows of trees are of known kinds if each is. -/
theorem areKnown_append (xs ys : List Node) :
    areKnown (xs ++ ys) = (areKnown xs && areKnown ys) := by
  induction xs with
  | nil => simp [areKnown]
  | cons x rest ih => simp [areKnown, ih, Bool.and_assoc]

/-- Names with their types are the same up to their locations. -/
theorem sameTyped_iff {s t : TypedName} : sameTyped s t = true ↔ s.erase = t.erase := by
  simp [sameTyped, TypedName.erase, TypedName.relocate]

/-- So are parameters, in order and number. -/
theorem sameBy_sameTyped_iff {ps qs : List TypedName} :
    sameBy sameTyped ps qs = true ↔ ps.map TypedName.erase = qs.map TypedName.erase := by
  induction ps generalizing qs with
  | nil => cases qs <;> simp [sameBy]
  | cons p ps ih =>
    cases qs with
    | nil => simp [sameBy]
    | cons q qs => simp [sameBy, sameTyped_iff, ih]

mutual

/-- Trees that are the same differ at most in their locations. -/
theorem erase_eq_of_same : ∀ {a b : Node}, a.same b = true → a.erase = b.erase
  -- Nodes of two kinds are never the same, which leaves one case for each kind.
  | module _ xs, b, h => by
    cases b <;> simp only [same, Bool.false_eq_true] at h
    rw [erase_module, erase_module, eraseAll_eq_of_sameAll h]
  | block _ xs, b, h => by
    cases b <;> simp only [same, Bool.false_eq_true] at h
    rw [erase_block, erase_block, eraseAll_eq_of_sameAll h]
  | literal _ v, b, h => by
    cases b <;> simp_all [same]
  | typed s, b, h => by
    cases b <;> simp_all [same, sameTyped_iff]
  | expression _ p x y, b, h => by
    cases b <;> simp only [same, Bool.false_eq_true, Bool.and_eq_true, beq_iff_eq] at h
    obtain ⟨⟨hop, hx⟩, hy⟩ := h
    rw [erase_expression, erase_expression, hop, erase_eq_of_same hx, erase_eq_of_same hy]
  | lambda _ r ps _ xs, b, h => by
    cases b <;> simp only [same, Bool.false_eq_true, Bool.and_eq_true, beq_iff_eq] at h
    obtain ⟨⟨hret, hparams⟩, hbody⟩ := h
    rw [erase_lambda, erase_lambda, hret, sameBy_sameTyped_iff.mp hparams,
      eraseAll_eq_of_sameAll hbody]
  | bodiless _ r ps, b, h => by
    cases b <;> simp_all [same, sameBy_sameTyped_iff]
  | missing, b, h => by
    cases b <;> simp_all [same]
  | foreign _, b, h => by
    cases b <;> simp_all [same]

/-- Trees in a row that are the same differ at most in their locations. -/
theorem eraseAll_eq_of_sameAll : ∀ {xs ys : List Node}, sameAll xs ys = true →
    eraseAll xs = eraseAll ys
  | [], ys, h => by
    cases ys <;> simp_all [sameAll]
  | x :: xs, ys, h => by
    cases ys <;> simp only [sameAll, Bool.false_eq_true, Bool.and_eq_true] at h
    rw [eraseAll_cons, eraseAll_cons, erase_eq_of_same h.1, eraseAll_eq_of_sameAll h.2]

end

mutual

/-- Trees that differ at most in their locations are the same. -/
theorem same_of_erase_eq : ∀ {a b : Node}, a.isKnown = true → a.erase = b.erase → a.same b = true
  | module _ xs, b, hknown, h => by
    cases b <;> simp at h
    exact sameAll_of_eraseAll_eq hknown h
  | block _ xs, b, hknown, h => by
    cases b <;> simp at h
    exact sameAll_of_eraseAll_eq hknown h
  | literal _ v, b, _, h => by
    cases b <;> simp_all [same]
  | typed s, b, _, h => by
    cases b <;> simp_all [same, sameTyped_iff]
  -- An operand of an unknown kind is the same as nothing, hence the condition on both.
  | expression _ p x y, b, hknown, h => by
    cases b <;> simp at h
    obtain ⟨hop, hx, hy⟩ := h
    simp only [isKnown, Bool.and_eq_true] at hknown
    simp [same, hop, same_of_erase_eq hknown.1 hx, same_of_erase_eq hknown.2 hy]
  | lambda _ r ps _ xs, b, hknown, h => by
    cases b <;> simp at h
    obtain ⟨hret, hparams, hbody⟩ := h
    simp [same, hret, sameBy_sameTyped_iff.mpr hparams, sameAll_of_eraseAll_eq hknown hbody]
  | bodiless _ r ps, b, _, h => by
    cases b <;> simp_all [same, sameBy_sameTyped_iff]
  | missing, b, _, h => by
    cases b <;> simp_all [same]
  | foreign _, b, hknown, _ => by
    simp [isKnown] at hknown

/-- Trees in a row that differ at most in their locations are the same. -/
theorem sameAll_of_eraseAll_eq : ∀ {xs ys : List Node}, areKnown xs = true →
    eraseAll xs = eraseAll ys → sameAll xs ys = true
  | [], ys, _, h => by
    cases ys <;> simp_all [sameAll]
  | x :: xs, ys, hknown, h => by
    cases ys <;> simp at h
    simp only [areKnown, Bool.and_eq_true] at hknown
    simp [sameAll, same_of_erase_eq hknown.1 h.1, sameAll_of_eraseAll_eq hknown.2 h.2]

end

/-- Comparison is equality up to locations. -/
theorem same_iff_erase_eq {a b : Node} (h : a.isKnown = true) :
    a.same b = true ↔ a.erase = b.erase :=
  ⟨erase_eq_of_same, same_of_erase_eq h⟩

/-! ## Canonical text

The writer looks at names, operators and kinds, never at locations. -/

/-- Parameters are written without their locations. -/
theorem paramSteps_relocate (f : Location → Location) : ∀ params : List TypedName,
    paramSteps (params.map (TypedName.relocate f)) = paramSteps params
  | [] | [_] => rfl
  | p :: q :: rest => by
    show typedSteps p ++ [Step.mark .comma, .space] ++
      paramSteps ((q :: rest).map (TypedName.relocate f)) = _
    rw [paramSteps_relocate f (q :: rest)]
    rfl

/-- So are the parameters and the type of a function. -/
theorem headerSteps_relocate (f : Location → Location) (ret : Bytes) (params : List TypedName) :
    headerSteps ret (params.map (TypedName.relocate f)) = headerSteps ret params := by
  rw [headerSteps, paramSteps_relocate, headerSteps]

/-- Whether an operand takes parentheses is up to its kind and operator. -/
theorem needsParens_relocate (f : Location → Location) (prec : Nat) (right : Bool) (n : Node) :
    (n.relocate f).needsParens prec right = n.needsParens prec right := by
  cases n <;> rfl

mutual

/-- An expression is written without its locations. -/
theorem exprSteps_relocate (f : Location → Location) : ∀ (level : Nat) (n : Node),
    exprSteps level (n.relocate f) = exprSteps level n
  | level, expression _ op x y => by
    simp only [relocate, exprSteps, needsParens_relocate, exprSteps_relocate f level x,
      exprSteps_relocate f level y]
  | level, lambda _ ret params _ body => by
    simp only [relocate, exprSteps, headerSteps_relocate, stmtSteps_relocate f (level + 1) body]
  | _, bodiless _ ret params => headerSteps_relocate f ret params
  | level, block _ stmts => by
    simp only [relocate, exprSteps, stmtSteps_relocate f (level + 1) stmts]
  | _, module _ _ | _, literal _ _ | _, typed _ | _, missing | _, foreign _ => rfl

/-- So are statements. -/
theorem stmtSteps_relocate (f : Location → Location) : ∀ (level : Nat) (stmts : List Node),
    stmtSteps level (relocateAll f stmts) = stmtSteps level stmts
  | _, [] => rfl
  | level, n :: rest => by
    rw [relocateAll, stmtSteps, stmtSteps, exprSteps_relocate f level n,
      stmtSteps_relocate f level rest]

end

/-- A tree is written the same wherever it stands. -/
theorem steps_relocate (f : Location → Location) (n : Node) : (n.relocate f).steps = n.steps := by
  have hexpr := exprSteps_relocate f 0 n
  -- The tree as a whole is written as an expression, but for modules and for blocks.
  cases n with
  | module loc stmts => exact stmtSteps_relocate f 0 stmts
  | block loc stmts => exact congrArg (· ++ [Step.newline]) hexpr
  | _ => exact hexpr

/-- Canonical text says nothing about locations. -/
theorem format_relocate (f : Location → Location) (n : Node) : (n.relocate f).format = n.format :=
  congrArg Step.write (steps_relocate f n)

/-- Trees that are the same have the same canonical text. -/
theorem format_eq_of_same {a b : Node} (h : a.same b = true) : a.format = b.format := by
  rw [← format_relocate (fun _ => .unknown) a, ← format_relocate (fun _ => .unknown) b]
  exact congrArg format (erase_eq_of_same h)

end Node

end LetFn
