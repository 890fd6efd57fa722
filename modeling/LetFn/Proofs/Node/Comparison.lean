import LetFn.Proofs.Node.Places

/-!
# Comparison is equality up to locations

Two trees are the same exactly if both are made of known kinds only and nothing but their locations
tells them apart (`same_eq_true_iff`). All that comparison promises follows: on trees of known kinds
it is an equivalence, a node of an unknown kind makes it fail from either side, and canonical text
does not tell apart what comparison does not (`same_is_equality_up_to_locations`).
-/

namespace LetFn.Node

/-! ## What forgetting locations keeps -/

mutual

theorem isKnown_erase : ∀ n : Node, n.erase.isKnown = n.isKnown
  | module _ stmts | block _ stmts | lambda _ _ _ _ stmts => areKnown_eraseAll stmts
  | expression _ _ x y => by
    rw [erase_expression, isKnown, isKnown, isKnown_erase x, isKnown_erase y]
  | literal _ _ | typed _ | bodiless _ _ _ | missing | foreign _ => rfl

theorem areKnown_eraseAll : ∀ ns : List Node, areKnown (eraseAll ns) = areKnown ns
  | [] => rfl
  | n :: rest => by
    rw [eraseAll_cons, areKnown, areKnown, isKnown_erase n, areKnown_eraseAll rest]

end

mutual

theorem isComplete_erase : ∀ n : Node, n.erase.isComplete = n.isComplete
  | module _ stmts | block _ stmts | lambda _ _ _ _ stmts => areComplete_eraseAll stmts
  | expression _ _ x y => by
    rw [erase_expression, isComplete, isComplete, isComplete_erase x, isComplete_erase y]
  | literal _ _ | typed _ | bodiless _ _ _ | missing | foreign _ => rfl

theorem areComplete_eraseAll : ∀ ns : List Node, areComplete (eraseAll ns) = areComplete ns
  | [] => rfl
  | n :: rest => by
    rw [eraseAll_cons, areComplete, areComplete, isComplete_erase n, areComplete_eraseAll rest]

end

/-! ## What comparison looks at

Comparison of trees is equality of what is left without locations, for trees whose nodes are all
known. The laws of an equivalence follow from those of equality. -/

mutual

/-- Comparison looks at every node, and fails at one of an unknown kind. -/
theorem isKnown_of_same : ∀ {a b : Node}, a.same b = true → a.isKnown = true
  | module _ xs, b, h => by
    cases b <;> simp only [same, Bool.false_eq_true] at h
    exact areKnown_of_sameAll h
  | block _ xs, b, h => by
    cases b <;> simp only [same, Bool.false_eq_true] at h
    exact areKnown_of_sameAll h
  | expression _ _ x y, b, h => by
    cases b <;> simp only [same, Bool.false_eq_true, Bool.and_eq_true] at h
    rw [isKnown, isKnown_of_same h.1.2, isKnown_of_same h.2]
    rfl
  | lambda _ _ _ _ body, b, h => by
    cases b <;> simp only [same, Bool.false_eq_true, Bool.and_eq_true] at h
    exact areKnown_of_sameAll h.2
  | foreign _, b, h => by
    cases b <;> simp only [same, Bool.false_eq_true] at h
  | literal _ _, _, _ | typed _, _, _ | bodiless _ _ _, _, _ | missing, _, _ => rfl

theorem areKnown_of_sameAll : ∀ {xs ys : List Node}, sameAll xs ys = true → areKnown xs = true
  | [], _, _ => rfl
  | x :: xs, ys, h => by
    cases ys <;> simp only [sameAll, Bool.false_eq_true, Bool.and_eq_true] at h
    rw [areKnown, isKnown_of_same h.1, areKnown_of_sameAll h.2]
    rfl

end

/-- Trees are the same exactly if they are of known kinds and differ at most in their locations. -/
theorem same_eq_true_iff {a b : Node} :
    a.same b = true ↔ a.isKnown = true ∧ b.isKnown = true ∧ a.erase = b.erase := by
  constructor
  · intro h
    have hknown := isKnown_of_same h
    have herase := erase_eq_of_same h
    refine ⟨hknown, ?_, herase⟩
    rw [← isKnown_erase, ← herase, isKnown_erase]
    exact hknown
  · rintro ⟨hknown, -, herase⟩
    exact same_of_erase_eq hknown herase

theorem same_comm (a b : Node) : a.same b = b.same a := by
  rw [Bool.eq_iff_iff, same_eq_true_iff, same_eq_true_iff]
  constructor
  · rintro ⟨ha, hb, h⟩
    exact ⟨hb, ha, h.symm⟩
  · rintro ⟨hb, ha, h⟩
    exact ⟨ha, hb, h.symm⟩

theorem same_trans {a b c : Node} (hab : a.same b = true) (hbc : b.same c = true) :
    a.same c = true := by
  rw [same_eq_true_iff] at hab hbc ⊢
  exact ⟨hab.1, hbc.2.1, hab.2.2.trans hbc.2.2⟩

theorem same_eq_false {a b : Node} (h : a.isKnown = false ∨ b.isKnown = false) :
    a.same b = false := by
  rw [Bool.eq_false_iff, ne_eq, same_eq_true_iff]
  rintro ⟨ha, hb, -⟩
  rcases h with h | h
  · exact Bool.false_ne_true (h.symm.trans ha)
  · exact Bool.false_ne_true (h.symm.trans hb)

/-- Trees that are the same can both be written, to the same text, if one has all its bodies. -/
theorem format?_eq_of_same {a b : Node} (h : a.same b = true) (ha : a.isComplete = true) :
    a.format? = some b.format ∧ b.format? = some b.format := by
  have hb : b.isComplete = true := by
    rw [← isComplete_erase, ← erase_eq_of_same h, isComplete_erase]
    exact ha
  rw [format?_of_isComplete ha, format?_of_isComplete hb, format_eq_of_same h]
  exact ⟨rfl, rfl⟩

/-- On trees of known kinds comparison is equality once all locations are forgotten, so it is
reflexive, symmetric and transitive there. If a node of an unknown kind is anywhere in one of two
trees, they are not the same, whichever comes first. And trees that are the same have the same
canonical text if their function literals have bodies. -/
theorem same_is_equality_up_to_locations (a b c : Node) :
    (a.isKnown = true → b.isKnown = true → (a.same b = true ↔ a.erase = b.erase)) ∧
      (a.isKnown = true → a.same a = true) ∧
      (a.same b = true → b.same a = true) ∧
      (a.same b = true → b.same c = true → a.same c = true) ∧
      (a.isKnown = false ∨ b.isKnown = false → a.same b = false ∧ b.same a = false) ∧
      (a.same b = true → a.isComplete = true →
        ∃ text, a.format? = some text ∧ b.format? = some text) := by
  refine ⟨fun ha _ => same_iff_erase_eq ha, fun ha => same_of_erase_eq ha rfl, ?_, same_trans, ?_,
    ?_⟩
  · intro h
    rw [same_comm, h]
  · intro h
    exact ⟨same_eq_false h, same_eq_false h.symm⟩
  · intro h ha
    exact ⟨b.format, format?_eq_of_same h ha⟩

/-- A tree no source has: its operator has no name, an operand is missing, and all of it but the
statement of the function's body stands at `loc`. -/
def patchwork (loc : Location) (stmt : Node) : Node :=
  module loc [expression loc (.unnamed 3) missing
    (lambda loc (Text.utf8 "t") [⟨loc, Text.utf8 "a", Text.utf8 "b"⟩] loc [stmt])]

theorem same_is_equality_for_patchwork :
    (patchwork ⟨1, 2⟩ (bodiless ⟨3, 4⟩ [] [])).same (patchwork ⟨5, 6⟩ (bodiless .unknown [] [])) =
        true ∧
      (∃ text, (patchwork ⟨1, 2⟩ missing).format? = some text ∧
        (patchwork ⟨5, 6⟩ missing).format? = some text) ∧
      (patchwork ⟨1, 2⟩ missing).same (patchwork ⟨7, 8⟩ missing) = true ∧
      (patchwork ⟨1, 2⟩ missing).same (patchwork ⟨1, 2⟩ (foreign [])) = false ∧
      (patchwork ⟨1, 2⟩ (foreign [])).same (patchwork ⟨1, 2⟩ missing) = false := by
  have hbodiless := (same_is_equality_up_to_locations (patchwork ⟨1, 2⟩ (bodiless ⟨3, 4⟩ [] []))
    (patchwork ⟨5, 6⟩ (bodiless .unknown [] [])) missing).1 rfl rfl
  obtain ⟨hiff, -, -, htrans, -, hformat⟩ := same_is_equality_up_to_locations
    (patchwork ⟨1, 2⟩ missing) (patchwork ⟨5, 6⟩ missing) (patchwork ⟨7, 8⟩ missing)
  have hsame := (hiff rfl rfl).mpr rfl
  have hforeign := (same_is_equality_up_to_locations (patchwork ⟨1, 2⟩ missing)
    (patchwork ⟨1, 2⟩ (foreign [])) missing).2.2.2.2.1 (.inr rfl)
  exact ⟨hbodiless.mpr rfl, hformat hsame rfl, htrans hsame rfl, hforeign⟩

end LetFn.Node
