import LetFn.Proofs.Node.Walk
import Mathlib.Data.List.Infix
import Mathlib.Tactic.Choose

/-!
# Where the nodes of a tree stand

Equal nodes can stand at several places of a tree, so what a walk does with each of them is said of
addresses: the address of a node says which child to take at the root, which one there, and so on
(`nodeAt?`). Addresses in alphabetical order are the nodes from parents to children and from left
to right. A walk goes through them in this order and leaves out what stands under a node that it
does not enter (`walk_unpruned`).
-/

namespace LetFn.Node

/-! ## Parts of a node

The places of the children do not matter here, only their order. -/

/-- The nodes right inside a node, from left to right. -/
def parts (n : Node) : List Node := n.children.map Prod.snd

@[simp] theorem parts_module (loc : Location) (stmts : List Node) :
    (module loc stmts).parts = stmts := by
  rw [parts, children, List.map_map]
  exact List.map_id stmts

@[simp] theorem parts_block (loc : Location) (stmts : List Node) :
    (block loc stmts).parts = stmts := by
  rw [parts, children, List.map_map]
  exact List.map_id stmts

@[simp] theorem parts_expression (loc : Location) (op : Operator) (x y : Node) :
    (expression loc op x y).parts = [x, y] := by
  rw [parts, children]
  split <;> rfl

@[simp] theorem parts_lambda (loc bodyLoc : Location) (ret : Bytes) (params : List TypedName)
    (body : List Node) :
    (lambda loc ret params bodyLoc body).parts = params.map typed ++ [block bodyLoc body] := by
  rw [parts, children, List.map_append, List.map_map]
  rfl

@[simp] theorem parts_bodiless (loc : Location) (ret : Bytes) (params : List TypedName) :
    (bodiless loc ret params).parts = params.map typed ++ [missing] := by
  rw [parts, children, List.map_append, List.map_map]
  rfl

/-- A part is smaller than its node, also where it is put together for the walk. -/
theorem sizeOf_lt_of_mem_parts {n c : Node} (h : c ∈ n.parts) : sizeOf c < sizeOf n := by
  have hloc (loc : Location) : 0 < sizeOf loc := by
    rw [Location.mk.sizeOf_spec]
    omega
  -- A parameter and a body become nodes only as children, so their sizes are compared with what
  -- they come from.
  have hparam {params : List TypedName} (hc : c ∈ params.map typed) :
      sizeOf c < sizeOf params + 1 := by
    obtain ⟨t, ht, rfl⟩ := List.mem_map.mp hc
    have hlt := List.sizeOf_lt_of_mem ht
    simp only [typed.sizeOf_spec]
    omega
  cases n with
  | module loc stmts | block loc stmts =>
    simp only [parts_module, parts_block] at h
    have hlt := List.sizeOf_lt_of_mem h
    simp only [module.sizeOf_spec, block.sizeOf_spec]
    omega
  | expression loc op x y =>
    rw [parts_expression, List.mem_pair] at h
    simp only [expression.sizeOf_spec]
    rcases h with rfl | rfl <;> omega
  | lambda loc ret params bodyLoc body =>
    rw [parts_lambda, List.mem_append, List.mem_singleton] at h
    simp only [lambda.sizeOf_spec]
    rcases h with hc | rfl
    · have hlt := hparam hc
      omega
    · have hpos := hloc loc
      simp only [block.sizeOf_spec]
      omega
  | bodiless loc ret params =>
    rw [parts_bodiless, List.mem_append, List.mem_singleton] at h
    simp only [bodiless.sizeOf_spec]
    rcases h with hc | rfl
    · have hlt := hparam hc
      omega
    · have hpos := hloc loc
      simp only [missing.sizeOf_spec]
      omega
  | literal loc value | typed t | missing | foreign typeName => cases h

/-- What holds of a node whose parts it holds of, holds of every tree. -/
theorem parts_induction {motive : Node → Prop}
    (step : ∀ n : Node, (∀ c ∈ n.parts, motive c) → motive n) (n : Node) : motive n :=
  step n fun c _ => parts_induction step c
termination_by sizeOf n
decreasing_by exact sizeOf_lt_of_mem_parts ‹_›

/-! ## Walks and parts

A walk does the same at every kind of node, so what follows need not distinguish them. -/

variable {enter : Node → Bool}

/-- Walking through several trees is walking through one after the other. -/
theorem walkAll_eq_flatMap (ns : List Node) : walkAll enter ns = ns.flatMap (walk enter) := by
  induction ns with
  | nil => rfl
  | cons n rest ih => rw [walkAll, ih, List.flatMap_cons]

/-- A parameter has nothing inside. -/
theorem flatMap_walk_typed (params : List TypedName) :
    (params.map typed).flatMap (walk enter) = params.map typed := by
  rw [List.flatMap_map]
  exact List.flatMap_pure_eq_map typed params

/-- A walk visits a node and then walks through its parts, if it enters it. -/
theorem walk_eq {n : Node} (h : n ≠ missing) :
    n.walk enter = n :: if enter n then n.parts.flatMap (walk enter) else [] := by
  cases n with
  | module loc stmts => rw [walk, parts_module, walkAll_eq_flatMap]
  | block loc stmts => rw [walk, parts_block, walkAll_eq_flatMap]
  | expression loc op x y => simp only [walk, parts_expression, List.flatMap_cons,
      List.flatMap_nil, List.append_nil]
  | lambda loc ret params bodyLoc body =>
    simp only [walk, parts_lambda, List.flatMap_append, flatMap_walk_typed, List.flatMap_singleton,
      walkAll_eq_flatMap]
  | bodiless loc ret params =>
    simp only [walk, parts_bodiless, List.flatMap_append, flatMap_walk_typed,
      List.flatMap_singleton, List.append_nil]
  | literal loc value | typed t | foreign typeName => exact congrArg (_ :: ·) (ite_self []).symm
  | missing => exact absurd rfl h

/-! ## Addresses

An address is read from the root on. Its beginnings are the addresses of the nodes above. -/

/-- The node at an address: the child it names first, and in it the node at the rest. -/
def nodeAt? : Node → List Nat → Option Node
  | n, [] => some n
  | n, i :: p => n.parts[i]?.bind (nodeAt? · p)

/-- The nodes above an address, from the root on. -/
def ancestors (n : Node) (p : List Nat) : List Node := p.inits.dropLast.filterMap n.nodeAt?

/-- An address that begins in a part goes on in it. -/
theorem nodeAt?_cons {n c : Node} {i : Nat} (h : n.parts[i]? = some c) (p : List Nat) :
    n.nodeAt? (i :: p) = c.nodeAt? p := by
  rw [nodeAt?, h, Option.bind_some]

theorem nodeAt?_cons_eq_some {n m : Node} {i : Nat} {p : List Nat} :
    n.nodeAt? (i :: p) = some m ↔ ∃ c, n.parts[i]? = some c ∧ c.nodeAt? p = some m :=
  Option.bind_eq_some_iff

/-- Above an address in a part stands the node itself, and then what stands above it in the part. -/
theorem ancestors_cons {n c : Node} {i : Nat} (h : n.parts[i]? = some c) (p : List Nat) :
    n.ancestors (i :: p) = n :: c.ancestors p := by
  have hinits : p.inits ≠ [] := List.ne_nil_of_mem ((List.mem_inits p p).mpr List.prefix_rfl)
  have hne : p.inits.map (i :: ·) ≠ [] := by simpa using hinits
  have hpart : n.nodeAt? ∘ (i :: ·) = c.nodeAt? := funext (nodeAt?_cons h)
  -- The beginnings of the address are none of it, and then those of the rest with the number in
  -- front.
  rw [ancestors, List.inits_cons, List.dropLast_cons_of_ne_nil hne, ← List.map_dropLast,
    List.filterMap_cons_some (f := n.nodeAt?) (b := n) rfl, List.filterMap_map, hpart, ancestors]

/-! ## The addresses of a tree in order

Alphabetical order puts a node in front of what is inside it, and its parts one after the other. -/

/-- The addresses at which a node stands, in order. -/
structure IsPreorder (n : Node) (all : List (List Nat)) : Prop where
  sorted : all.Pairwise (· < ·)
  mem_iff : ∀ p, p ∈ all ↔ ∃ m, n.nodeAt? p = some m ∧ m ≠ missing

/-- A tree has its addresses once each, and in one order only. -/
theorem IsPreorder.unique {n : Node} {xs ys : List (List Nat)} (hxs : IsPreorder n xs)
    (hys : IsPreorder n ys) : xs = ys := by
  have hnodup {all : List (List Nat)} (h : IsPreorder n all) : all.Nodup := by
    refine h.sorted.imp ?_
    rintro p q hlt rfl
    exact List.lt_irrefl p hlt
  -- Both hold the same addresses, each of them once.
  have hperm : xs.Perm ys := by
    rw [List.perm_ext_iff_of_nodup (hnodup hxs) (hnodup hys)]
    intro p
    rw [hxs.mem_iff, hys.mem_iff]
  exact hperm.eq_of_pairwise (fun p q _ _ hpq hqp => absurd hqp (List.lt_asymm hpq)) hxs.sorted
    hys.sorted

/-- The addresses in the parts of a node, given those in each part. -/
def partAddresses (inside : Node → List (List Nat)) (parts : List Node) : List (List Nat) :=
  parts.zipIdx.flatMap fun part => (inside part.1).map (part.2 :: ·)

/-- An address in a part begins with the number of the part. -/
theorem mem_partAddresses {inside : Node → List (List Nat)} {parts : List Node} {p : List Nat} :
    p ∈ partAddresses inside parts ↔ ∃ i c, parts[i]? = some c ∧ ∃ q ∈ inside c, i :: q = p := by
  rw [partAddresses, List.mem_flatMap]
  constructor
  · rintro ⟨⟨c, i⟩, hpart, hp⟩
    exact ⟨i, c, List.mem_zipIdx_iff_getElem?.mp hpart, List.mem_map.mp hp⟩
  · rintro ⟨i, c, hc, hp⟩
    exact ⟨(c, i), List.mem_zipIdx_iff_getElem?.mpr hc, List.mem_map.mpr hp⟩

/-- Addresses in order within each part are in order in the whole. -/
theorem sorted_partAddresses {inside : Node → List (List Nat)} {parts : List Node}
    (h : ∀ c ∈ parts, (inside c).Pairwise (· < ·)) :
    (partAddresses inside parts).Pairwise (· < ·) := by
  have hindices : parts.zipIdx.Pairwise fun a b => a.2 < b.2 := by
    rw [← List.pairwise_map (f := Prod.snd), List.zipIdx_map_snd]
    exact List.pairwise_lt_range' 1
  rw [partAddresses, List.pairwise_flatMap]
  -- Within a part the first number is the same; between two parts it decides.
  constructor
  · rintro ⟨c, i⟩ hpart
    have hc := List.mem_of_getElem? (List.mem_zipIdx_iff_getElem?.mp hpart)
    rw [List.pairwise_map]
    exact (h c hc).imp fun hlt => List.cons_lt_cons_iff.mpr (.inr ⟨rfl, hlt⟩)
  · refine hindices.imp ?_
    rintro a b hlt p hp q hq
    obtain ⟨r, -, rfl⟩ := List.mem_map.mp hp
    obtain ⟨s, -, rfl⟩ := List.mem_map.mp hq
    exact List.cons_lt_cons_iff.mpr (.inl hlt)

/-- The addresses of a tree are the root and those in its parts. -/
theorem isPreorder_cons {n : Node} (hn : n ≠ missing) {inside : Node → List (List Nat)}
    (h : ∀ c ∈ n.parts, IsPreorder c (inside c)) :
    IsPreorder n ([] :: partAddresses inside n.parts) := by
  constructor
  · rw [List.pairwise_cons]
    refine ⟨?_, sorted_partAddresses fun c hc => (h c hc).sorted⟩
    intro p hp
    obtain ⟨i, c, -, q, -, rfl⟩ := mem_partAddresses.mp hp
    exact List.nil_lt_cons i q
  · intro p
    rw [List.mem_cons, mem_partAddresses]
    -- The empty address is the root, any other leads into a part.
    cases p with
    | nil =>
      constructor
      · intro _
        exact ⟨n, rfl, hn⟩
      · intro _
        exact .inl rfl
    | cons i p =>
      constructor
      · rintro (hnil | ⟨j, c, hc, q, hq, heq⟩)
        · cases hnil
        · cases heq
          rw [nodeAt?_cons hc]
          exact ((h c (List.mem_of_getElem? hc)).mem_iff p).mp hq
      · rintro ⟨m, hm, hne⟩
        obtain ⟨c, hc, hm⟩ := nodeAt?_cons_eq_some.mp hm
        exact .inr ⟨i, c, hc, p,
          ((h c (List.mem_of_getElem? hc)).mem_iff p).mpr ⟨m, hm, hne⟩, rfl⟩

theorem isPreorder_missing : IsPreorder missing [] := by
  constructor
  · exact .nil
  · intro p
    cases p with
    | nil => simp [nodeAt?]
    | cons i p => simp [nodeAt?, parts, children]

/-! ## What a walk visits -/

/-- A walk visits the nodes at the given addresses, but for those under a node it does not enter. -/
def VisitsUnpruned (n : Node) (all : List (List Nat)) : Prop :=
  ∀ enter, (n.walk enter).map some =
    (all.filter fun p => (n.ancestors p).all enter).map n.nodeAt?

/-- In a part the walk visits what a walk through the part visits, if it enters the node. -/
theorem visited_part {n c : Node} {i : Nat} {all : List (List Nat)} (hc : n.parts[i]? = some c)
    (h : VisitsUnpruned c all) (enter : Node → Bool) :
    ((all.map (i :: ·)).filter fun p => (n.ancestors p).all enter).map n.nodeAt? =
      if enter n then (c.walk enter).map some else [] := by
  have hopen : ((fun p => (n.ancestors p).all enter) ∘ (i :: ·)) =
      fun p => enter n && (c.ancestors p).all enter := by
    funext p
    rw [Function.comp_apply, ancestors_cons hc, List.all_cons]
  have hpart : n.nodeAt? ∘ (i :: ·) = c.nodeAt? := funext (nodeAt?_cons hc)
  rw [List.filter_map, List.map_map, hpart, hopen]
  by_cases henter : enter n = true
  · simp only [henter, Bool.true_and, if_true]
    exact (h enter).symm
  · simp [henter]

theorem visitsUnpruned_cons {n : Node} (hn : n ≠ missing) {inside : Node → List (List Nat)}
    (h : ∀ c ∈ n.parts, VisitsUnpruned c (inside c)) :
    VisitsUnpruned n ([] :: partAddresses inside n.parts) := by
  intro enter
  have hinner : ((partAddresses inside n.parts).filter fun p => (n.ancestors p).all enter).map
      n.nodeAt? = n.parts.zipIdx.flatMap fun part =>
        if enter n then (part.1.walk enter).map some else [] := by
    rw [partAddresses, List.filter_flatMap, List.map_flatMap]
    apply List.flatMap_congr
    rintro ⟨c, i⟩ hpart
    have hc := List.mem_zipIdx_iff_getElem?.mp hpart
    exact visited_part hc (h c (List.mem_of_getElem? hc)) enter
  -- The walk does not number the parts, the addresses do.
  have hparts : n.parts.flatMap (walk enter) = n.parts.zipIdx.flatMap fun part =>
      part.1.walk enter := by
    rw [← List.flatMap_map Prod.fst (walk enter), List.zipIdx_map_fst]
  rw [walk_eq hn, List.filter_cons_of_pos rfl, List.map_cons, List.map_cons, hinner, hparts]
  refine congrArg (some n :: ·) ?_
  by_cases henter : enter n = true
  · simp only [henter, if_true]
    exact List.map_flatMap
  · simp [henter]

/-- A walk visits the nodes of a tree in order, each as often as it occurs, but for those under a
node that it does not enter. What is entered is said by a predicate on nodes: a walk sees the node
and not its address, so it enters equal nodes alike. A child may be missing, in a statement list as
well as in an expression, and is passed over; the parameters of a function literal are names with
types and cannot be missing. -/
theorem walk_unpruned (n : Node) : ∃ all, IsPreorder n all ∧ VisitsUnpruned n all := by
  induction n using parts_induction with
  | step n ih =>
    by_cases hn : n = missing
    · subst hn
      exact ⟨[], isPreorder_missing, fun _ => rfl⟩
    · choose! inside hinside using ih
      exact ⟨[] :: partAddresses inside n.parts,
        isPreorder_cons hn fun c hc => (hinside c hc).1,
        visitsUnpruned_cons hn fun c hc => (hinside c hc).2⟩

end LetFn.Node
