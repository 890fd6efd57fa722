import LetFn.Node.Walk
import LetFn.Proofs.Node.Places

/-!
# The nodes of a tree in a row

A walk that enters every node gives all nodes of a tree, parents before children and children from
left to right (`nodes`). What occurs somewhere in the tree is one of them (`mem_nodes_of_occurs`),
so a fact about the row is a fact about every node, wherever it stands.
-/

namespace LetFn.Node

/-- All nodes of a tree, in the order of a walk. -/
def nodes (n : Node) : List Node := n.walk fun _ => true

/-- All nodes of several trees, in the order of a walk. -/
def nodesAll (ns : List Node) : List Node := walkAll (fun _ => true) ns

/-! ## One kind at a time -/

@[simp] theorem nodes_module (loc : Location) (stmts : List Node) :
    (module loc stmts).nodes = module loc stmts :: nodesAll stmts := rfl

@[simp] theorem nodes_block (loc : Location) (stmts : List Node) :
    (block loc stmts).nodes = block loc stmts :: nodesAll stmts := rfl

@[simp] theorem nodes_literal (loc : Location) (value : Bytes) :
    (literal loc value).nodes = [literal loc value] := rfl

@[simp] theorem nodes_typed (t : TypedName) : (typed t).nodes = [typed t] := rfl

@[simp] theorem nodes_expression (loc : Location) (op : Operator) (x y : Node) :
    (expression loc op x y).nodes = expression loc op x y :: (x.nodes ++ y.nodes) := rfl

/-- A function literal is followed by its parameters and by its body, which is a block. -/
@[simp] theorem nodes_lambda (loc bodyLoc : Location) (ret : Bytes) (params : List TypedName)
    (body : List Node) :
    (lambda loc ret params bodyLoc body).nodes =
      lambda loc ret params bodyLoc body ::
        (params.map typed ++ (block bodyLoc body).nodes) := rfl

@[simp] theorem nodes_bodiless (loc : Location) (ret : Bytes) (params : List TypedName) :
    (bodiless loc ret params).nodes = bodiless loc ret params :: params.map typed := rfl

@[simp] theorem nodes_missing : missing.nodes = [] := rfl

@[simp] theorem nodes_foreign (typeName : Bytes) :
    (foreign typeName).nodes = [foreign typeName] := rfl

@[simp] theorem nodesAll_nil : nodesAll [] = [] := rfl

@[simp] theorem nodesAll_cons (n : Node) (rest : List Node) :
    nodesAll (n :: rest) = n.nodes ++ nodesAll rest := rfl

/-! ## What occurs is met

By induction on how a node occurs: the nodes of a child are among those of its parent. -/

/-- The nodes of one of several trees are among the nodes of all. -/
theorem nodes_subset_nodesAll {n : Node} {ns : List Node} (h : n ∈ ns) :
    n.nodes ⊆ nodesAll ns := by
  induction ns with
  | nil => cases h
  | cons first rest ih =>
    rw [nodesAll_cons]
    rcases List.mem_cons.mp h with rfl | h
    · exact List.subset_append_left _ _
    · exact List.subset_append_of_subset_right _ (ih h)

/-- The children of an expression are its two sides, whatever their places are called. -/
theorem eq_of_child_expression {q : Place} {c x y : Node} {loc : Location} {op : Operator}
    (h : (q, c) ∈ (expression loc op x y).children) : c = x ∨ c = y := by
  have hpair : ∀ {p r : Place}, (q, c) ∈ [(p, x), (r, y)] → c = x ∨ c = y := by
    intro p r hmem
    simp only [List.mem_cons, List.not_mem_nil, or_false, Prod.mk.injEq] at hmem
    exact hmem.imp And.right And.right
  rw [children] at h
  split at h
  · exact hpair h
  · exact hpair h

/-- The nodes of a child are among those of its parent. -/
theorem nodes_subset_of_child {q : Place} {n c : Node} (h : (q, c) ∈ n.children) :
    c.nodes ⊆ n.nodes := by
  -- Statements and parameters are children of several kinds of nodes.
  have hgroup : ∀ {stmts : List Node}, (q, c) ∈ stmts.map (Place.statement, ·) →
      c.nodes ⊆ nodesAll stmts := by
    intro stmts hmem
    obtain ⟨n, hn, ⟨⟩⟩ := List.mem_map.mp hmem
    exact nodes_subset_nodesAll hn
  have hparam : ∀ {params : List TypedName}, (q, c) ∈ params.map (Place.parameter, typed ·) →
      c.nodes ⊆ params.map typed := by
    intro params hmem
    obtain ⟨t, ht, ⟨⟩⟩ := List.mem_map.mp hmem
    simp [ht]
  cases n with
  | module loc stmts =>
    rw [nodes_module]
    exact List.subset_cons_of_subset _ (hgroup h)
  | block loc stmts =>
    rw [nodes_block]
    exact List.subset_cons_of_subset _ (hgroup h)
  | expression loc op x y =>
    rw [nodes_expression]
    refine List.subset_cons_of_subset _ ?_
    rcases eq_of_child_expression h with rfl | rfl
    · exact List.subset_append_left _ _
    · exact List.subset_append_right _ _
  | lambda loc ret params bodyLoc body =>
    rw [nodes_lambda]
    refine List.subset_cons_of_subset _ ?_
    rcases List.mem_append.mp h with h | h
    · exact List.subset_append_of_subset_left _ (hparam h)
    · obtain ⟨⟩ := List.mem_singleton.mp h
      exact List.subset_append_right _ _
  | bodiless loc ret params =>
    rw [nodes_bodiless]
    refine List.subset_cons_of_subset _ ?_
    rcases List.mem_append.mp h with h | h
    · exact hparam h
    · obtain ⟨⟩ := List.mem_singleton.mp h
      simp
  | literal loc value | typed t | missing | foreign typeName => cases h

/-- The nodes of what occurs in a tree are nodes of the tree. -/
theorem nodes_subset_of_occurs {m n : Node} {p : Place} (h : m.Occurs p n) :
    n.nodes ⊆ m.nodes := by
  induction h with
  | root => exact List.Subset.refl _
  | child _ hc ih => exact List.Subset.trans (nodes_subset_of_child hc) ih

/-- A walk begins at the node itself. -/
theorem mem_nodes_self {n : Node} (h : n ≠ missing) : n ∈ n.nodes := by
  cases n with
  | missing => exact absurd rfl h
  | _ => simp

/-- A walk meets every node that occurs in the tree. -/
theorem mem_nodes_of_occurs {m n : Node} {p : Place} (h : m.Occurs p n) (hn : n ≠ missing) :
    n ∈ m.nodes :=
  nodes_subset_of_occurs h (mem_nodes_self hn)

end LetFn.Node
