import LetFn.Proofs.Json
import LetFn.Proofs.Node.Names

/-!
# A tree can be read back from its JSON form

The JSON form of a tree is the text of a JSON value (`jsonLines_eq`), and its text tells a value.
The value of a node names the kind of the node under `type` and holds all it is made of, locations
and operators by how they are shown, a missing child as null. So two trees with the same JSON form
are the same (`json_keeps_tree`), if JSON can write them at all: every function has a body, every
node is of a known kind and every text is made of characters. A stray byte is not kept.
-/

namespace LetFn

open Json (Value)
open Text

/-! ## The value of a node

The writer of JSON makes lines at once; `jsonLines_eq` below says that they are those of this
value. -/

/-- A text under a key. -/
def Json.text (key : String) (s : Bytes) : String × Value := (key, .string (chars s))

/-- The name of a kind. -/
def Json.kind (kind : String) : String × Value := ("type", .string kind.toList)

/-- The value of a name with its type. -/
def TypedName.value (t : TypedName) : Value :=
  .object [Json.text "loc" t.loc.text, Json.text "name" t.name, Json.kind "TypedLiteral",
    Json.text "typename" t.type]

namespace Node

/-- The value of a module or block. -/
def groupValue (kind : String) (loc : Location) (stmts : List Value) : Value :=
  .object [Json.text "loc" loc.text, ("stmts", .array stmts), Json.kind kind]

/-- The value of a function literal. -/
def lambdaValue (loc : Location) (ret : Bytes) (params : List TypedName) (body : Value) : Value :=
  .object [("body", body), Json.text "loc" loc.text, ("params", .array (params.map TypedName.value)),
    Json.text "returns" ret, Json.kind "Lambda"]

mutual

/-- The value of a node. -/
def value : Node → Value
  | module loc stmts => groupValue "Module" loc (valueAll stmts)
  | block loc stmts => groupValue "Block" loc (valueAll stmts)
  | literal loc s => .object [Json.text "loc" loc.text, Json.kind "Literal", Json.text "value" s]
  | typed t => t.value
  | expression loc op x y =>
    .object [Json.text "loc" loc.text, Json.text "op" op.spelling, Json.kind "Expression",
      ("x", x.value), ("y", y.value)]
  | lambda loc ret params bodyLoc body =>
    lambdaValue loc ret params (groupValue "Block" bodyLoc (valueAll body))
  | bodiless loc ret params => lambdaValue loc ret params .null
  | missing => .null
  | foreign _ => .object [Json.kind "Unknown"]

/-- The value of each node. -/
def valueAll : List Node → List Value
  | [] => []
  | n :: rest => n.value :: valueAll rest

end

/-! ## Its lines

`jsonLines` writes line by line what the value of the node has in its fields. Each kind of node has
its own equation, and the fields that hold texts share one. -/

/-- A text is written between quotes as in every JSON text. -/
theorem lines_text (s : Bytes) : (Value.string (chars s)).lines = Json.string s := by
  -- Strings of JSON values are written character by character, those of nodes byte by byte.
  have hstray : Json.treeStyle.stray = jsonChar Json.treeStyle replacement := by decide
  rw [Value.lines, Json.string, Json.string, ← jsonString_eq hstray]

/-- A field that holds a text takes one line. -/
theorem linesFields_text (key : String) (s : Bytes) (rest : List (String × Value)) :
    Value.linesFields (Json.text key s :: rest) =
      Json.field key (Json.string s) :: Value.linesFields rest := by
  rw [Json.text, Value.linesFields, lines_text]

/-- So does the field that names the kind. -/
theorem linesFields_kind (kind : String) (rest : List (String × Value)) :
    Value.linesFields (Json.kind kind :: rest) = jsonType kind :: Value.linesFields rest := rfl

/-- The lines of values that come from the same function, one item after the other. -/
theorem linesAll_map {α : Type} (f : α → Value) (as : List α) :
    Value.linesAll (as.map f) = as.map fun a => (f a).lines := by
  induction as with
  | nil => rfl
  | cons a as ih => rw [List.map_cons, Value.linesAll, ih, List.map_cons]

/-- A name with its type is written as its value. -/
theorem jsonTyped_eq (t : TypedName) : jsonTyped t = t.value.lines := by
  rw [TypedName.value, Value.lines, linesFields_text, linesFields_text, linesFields_kind,
    linesFields_text]
  rfl

/-- A group of statements is written as its value, once its statements are. -/
theorem jsonGroup_eq (kind : String) (loc : Location) (stmts : List Value) :
    jsonGroup kind loc (Value.linesAll stmts) = (groupValue kind loc stmts).lines := by
  rw [groupValue, Value.lines, linesFields_text]
  rfl

/-- A function is written as its value, whatever stands for its body. -/
theorem jsonLambda_eq (loc : Location) (ret : Bytes) (params : List TypedName) (body : Value) :
    jsonLambda loc ret params body.lines = (lambdaValue loc ret params body).lines := by
  have hparams : Value.linesAll (params.map TypedName.value) = params.map jsonTyped := by
    rw [linesAll_map]
    exact List.map_congr_left fun t _ => (jsonTyped_eq t).symm
  -- The fields stand in the order of their keys: body, location, parameters, type.
  rw [lambdaValue, Value.lines, Value.linesFields, linesFields_text, Value.linesFields,
    linesFields_text, Value.lines, hparams]
  rfl

mutual

/-- A tree is written as its value. -/
theorem jsonLines_eq : ∀ n : Node, n.jsonLines = n.value.lines
  | module loc stmts => by rw [jsonLines, jsonAll_eq stmts, jsonGroup_eq, value]
  | block loc stmts => by rw [jsonLines, jsonAll_eq stmts, jsonGroup_eq, value]
  | literal loc s => by
    rw [value, Value.lines, linesFields_text, linesFields_kind, linesFields_text]
    rfl
  | typed t => jsonTyped_eq t
  | expression loc op x y => by
    rw [jsonLines, jsonLines_eq x, jsonLines_eq y, value, Value.lines, linesFields_text,
      linesFields_text]
    rfl
  | lambda loc ret params bodyLoc body => by
    rw [jsonLines, jsonAll_eq body, jsonGroup_eq, jsonLambda_eq, value]
  | bodiless loc ret params => jsonLambda_eq loc ret params .null
  | missing => rfl
  | foreign _ => rfl

/-- Trees are written as their values. -/
theorem jsonAll_eq : ∀ ns : List Node, jsonAll ns = Value.linesAll (valueAll ns)
  | [] => rfl
  | n :: rest => by rw [jsonAll, jsonLines_eq n, jsonAll_eq rest, valueAll, Value.linesAll]

end

/-! ## Trees that JSON can write

What is asked of a tree is passed on to its children, so that the proof below can go down the
tree. -/

/-- Every node is of a known kind, every function has a body, and every text is made of
characters. -/
structure IsPlain (n : Node) : Prop where
  isKnown : n.isKnown = true
  isComplete : n.isComplete = true
  isValid : ∀ s ∈ n.names, isValid s = true

/-- Every tree is plain. -/
structure ArePlain (ns : List Node) : Prop where
  areKnown : areKnown ns = true
  areComplete : areComplete ns = true
  areValid : ∀ s ∈ namesAll ns, isValid s = true

/-- Plain trees are plain one by one. -/
theorem arePlain_cons {n : Node} {rest : List Node} (h : ArePlain (n :: rest)) :
    n.IsPlain ∧ ArePlain rest := by
  obtain ⟨hknown, hcomplete, hvalid⟩ := h
  rw [Node.areKnown, Bool.and_eq_true] at hknown
  rw [Node.areComplete, Bool.and_eq_true] at hcomplete
  rw [namesAll_cons, List.forall_mem_append] at hvalid
  exact ⟨⟨hknown.1, hcomplete.1, hvalid.1⟩, ⟨hknown.2, hcomplete.2, hvalid.2⟩⟩

/-- The operands of a plain expression are plain. -/
theorem isPlain_expression {loc : Location} {op : Operator} {x y : Node}
    (h : (expression loc op x y).IsPlain) : x.IsPlain ∧ y.IsPlain := by
  obtain ⟨hknown, hcomplete, hvalid⟩ := h
  rw [Node.isKnown, Bool.and_eq_true] at hknown
  rw [Node.isComplete, Bool.and_eq_true] at hcomplete
  rw [names_expression, List.forall_mem_append] at hvalid
  exact ⟨⟨hknown.1, hcomplete.1, hvalid.1⟩, ⟨hknown.2, hcomplete.2, hvalid.2⟩⟩

/-- What a plain function is made of can be written: its parameters, its type and its body. -/
theorem isPlain_lambda {loc bodyLoc : Location} {ret : Bytes} {params : List TypedName}
    {body : List Node} (h : (lambda loc ret params bodyLoc body).IsPlain) :
    (∀ t ∈ params, ∀ s ∈ t.texts, Text.isValid s = true) ∧ Text.isValid ret = true ∧
      ArePlain body := by
  obtain ⟨hknown, hcomplete, hvalid⟩ := h
  rw [names_lambda, List.forall_mem_append, List.forall_mem_cons] at hvalid
  refine ⟨?_, hvalid.2.1, hknown, hcomplete, hvalid.2.2⟩
  intro t ht s hs
  exact hvalid.1 s (List.mem_flatMap.mpr ⟨t, ht, hs⟩)

/-! ## The value tells the tree

Texts, locations and operators are told by what stands under their keys. The kind stands under
`type`, so values of different kinds differ there, and values of one kind agree key by key. -/

/-- Two texts of characters under the same key are the same, if their values are. -/
theorem text_inj {key : String} {s t : Bytes} (hs : isValid s = true) (ht : isValid t = true)
    (h : Json.text key s = Json.text key t) : s = t := by
  have hchars := Value.string.inj (Prod.mk.inj h).2
  rw [← encode_chars hs, hchars, encode_chars ht]

/-- A location is told by how it is shown. -/
theorem loc_inj {key : String} {k l : Location} (h : Json.text key k.text = Json.text key l.text) :
    k = l :=
  Location.text_injective
    (text_inj k.allVisible_text.isValid l.allVisible_text.isValid h)

/-- An operator is told by how it is spelled, also one that has no name. -/
theorem op_inj {key : String} {o p : Operator}
    (h : Json.text key o.spelling = Json.text key p.spelling) : o = p :=
  Operator.spelling_injective
    (text_inj o.allVisible_spelling.isValid p.allVisible_spelling.isValid h)

/-- A name with its type is told by its value. -/
theorem typed_value_inj {t u : TypedName} (ht : ∀ s ∈ t.texts, Text.isValid s = true)
    (hu : ∀ s ∈ u.texts, Text.isValid s = true) (h : t.value = u.value) : t = u := by
  rcases t with ⟨loc, name, type⟩
  rcases u with ⟨l, name', type'⟩
  simp only [TypedName.value, Value.object.injEq, List.cons.injEq, and_true, true_and] at h
  obtain ⟨hloc, hname, htype⟩ := h
  simp only [TypedName.texts, List.forall_mem_cons] at ht hu
  obtain rfl := loc_inj hloc
  obtain rfl := text_inj ht.1 hu.1 hname
  obtain rfl := text_inj ht.2.1 hu.2.1 htype
  rfl

/-- Parameters are told by their values, in order. -/
theorem params_value_inj {ps qs : List TypedName}
    (hps : ∀ t ∈ ps, ∀ s ∈ t.texts, Text.isValid s = true)
    (hqs : ∀ t ∈ qs, ∀ s ∈ t.texts, Text.isValid s = true)
    (h : ps.map TypedName.value = qs.map TypedName.value) : ps = qs := by
  induction ps generalizing qs with
  | nil => exact (List.map_eq_nil_iff.mp h.symm).symm
  | cons t ps ih =>
    cases qs with
    | nil => cases h
    | cons u qs =>
      rw [List.forall_mem_cons] at hps hqs
      obtain ⟨hhead, htail⟩ := List.cons.inj h
      rw [typed_value_inj hps.1 hqs.1 hhead, ih hps.2 hqs.2 htail]

/-- The location and the statements of a group are told by its value. -/
theorem groupValue_inj {kind : String} {k l : Location} {vs ws : List Value}
    (h : groupValue kind k vs = groupValue kind l ws) : k = l ∧ vs = ws := by
  obtain ⟨hloc, hrest⟩ := List.cons.inj (Value.object.inj h)
  have hstmts := (Prod.mk.inj (List.cons.inj hrest).1).2
  exact ⟨loc_inj hloc, Value.array.inj hstmts⟩

/-- What stands under the key `type`. -/
def kindOf? : Value → Option Value
  | .object fields => fields.lookup "type"
  | _ => none

/-- The key `type` holds the kind, at any node that has one. -/
theorem kindOf?_value {n : Node} (h : n.isKnown = true) :
    kindOf? n.value = n.kind?.map fun kind => .string kind.toList := by
  cases n with
  | foreign _ => cases h
  | _ => rfl

/-- The value of a node names its kind. -/
theorem kind?_eq_of_value_eq {a b : Node} (ha : a.IsPlain) (hb : b.IsPlain)
    (h : a.value = b.value) : a.kind? = b.kind? := by
  have hkinds := kindOf?_value ha.isKnown
  rw [h, kindOf?_value hb.isKnown] at hkinds
  -- The name of a kind tells the kind.
  apply Option.map_injective _ hkinds.symm
  intro k l hkl
  exact String.toList_injective (Value.string.inj hkl)

mutual

/-- Plain trees with the same value are the same. -/
theorem eq_of_value_eq : ∀ {a b : Node}, a.IsPlain → b.IsPlain → a.value = b.value → a = b
  -- Values of one kind have the same keys, so they agree field by field.
  | module loc xs, b, ha, hb, h => by
    have hkind := kind?_eq_of_value_eq ha hb h
    cases b with
    | module l ys =>
      obtain ⟨rfl, hstmts⟩ := groupValue_inj h
      rw [eq_of_valueAll_eq ⟨ha.1, ha.2, ha.3⟩ ⟨hb.1, hb.2, hb.3⟩ hstmts]
    | _ => simp [kind?] at hkind
  | block loc xs, b, ha, hb, h => by
    have hkind := kind?_eq_of_value_eq ha hb h
    cases b with
    | block l ys =>
      obtain ⟨rfl, hstmts⟩ := groupValue_inj h
      rw [eq_of_valueAll_eq ⟨ha.1, ha.2, ha.3⟩ ⟨hb.1, hb.2, hb.3⟩ hstmts]
    | _ => simp [kind?] at hkind
  | literal loc s, b, ha, hb, h => by
    have hkind := kind?_eq_of_value_eq ha hb h
    cases b with
    | literal l t =>
      simp only [value, Value.object.injEq, List.cons.injEq, and_true, true_and] at h
      obtain rfl := loc_inj h.1
      obtain rfl := text_inj (ha.isValid s List.mem_cons_self) (hb.isValid t List.mem_cons_self) h.2
      rfl
    | _ => simp [kind?] at hkind
  | typed t, b, ha, hb, h => by
    have hkind := kind?_eq_of_value_eq ha hb h
    cases b with
    | typed u => rw [typed_value_inj ha.isValid hb.isValid h]
    | _ => simp [kind?] at hkind
  | expression loc op x y, b, ha, hb, h => by
    have hkind := kind?_eq_of_value_eq ha hb h
    cases b with
    | expression l p z w =>
      simp only [value, Value.object.injEq, List.cons.injEq, Prod.mk.injEq, and_true, true_and] at h
      obtain ⟨hloc, hop, hx, hy⟩ := h
      obtain rfl := loc_inj hloc
      obtain rfl := op_inj hop
      rw [eq_of_value_eq (isPlain_expression ha).1 (isPlain_expression hb).1 hx,
        eq_of_value_eq (isPlain_expression ha).2 (isPlain_expression hb).2 hy]
    | _ => simp [kind?] at hkind
  | lambda loc ret ps bodyLoc xs, b, ha, hb, h => by
    have hkind := kind?_eq_of_value_eq ha hb h
    cases b with
    | lambda l ret' qs m ys =>
      obtain ⟨hps, hret, hxs⟩ := isPlain_lambda ha
      obtain ⟨hqs, hret', hys⟩ := isPlain_lambda hb
      simp only [value, lambdaValue, Value.object.injEq, Value.array.injEq, List.cons.injEq,
        Prod.mk.injEq, and_true, true_and] at h
      obtain ⟨hbody, hloc, hparams, hreturns⟩ := h
      -- The body goes first: its location and its statements are those of a group.
      obtain ⟨rfl, hstmts⟩ := groupValue_inj hbody
      obtain rfl := loc_inj hloc
      obtain rfl := text_inj hret hret' hreturns
      rw [params_value_inj hps hqs hparams, eq_of_valueAll_eq hxs hys hstmts]
    | bodiless _ _ _ => cases hb.isComplete
    | _ => simp [kind?] at hkind
  | missing, b, ha, hb, h => by
    have hkind := kind?_eq_of_value_eq ha hb h
    cases b with
    | missing => rfl
    | foreign _ => cases hb.isKnown
    | _ => simp [kind?] at hkind
  -- A function without a body and a node of no known kind are not plain.
  | bodiless _ _ _, _, ha, _, _ => nomatch ha.isComplete
  | foreign _, _, ha, _, _ => nomatch ha.isKnown

/-- Plain trees in a row with the same values are the same. -/
theorem eq_of_valueAll_eq : ∀ {xs ys : List Node}, ArePlain xs → ArePlain ys →
    valueAll xs = valueAll ys → xs = ys
  | [], [], _, _, _ => rfl
  | [], _ :: _, _, _, h => nomatch h
  | _ :: _, [], _, _, h => nomatch h
  | x :: xs, y :: ys, hxs, hys, h => by
    obtain ⟨hhead, htail⟩ := List.cons.inj h
    obtain ⟨hx, hxs⟩ := arePlain_cons hxs
    obtain ⟨hy, hys⟩ := arePlain_cons hys
    rw [eq_of_value_eq hx hy hhead, eq_of_valueAll_eq hxs hys htail]

end

/-! ## The JSON form -/

/-- Trees that JSON can write have a JSON form, and no two of them have the same. Children may be
missing, and the whole tree may be. -/
theorem json_keeps_tree {a b : Node} (ha : a.isKnown = true) (hb : b.isKnown = true)
    (hacomplete : a.isComplete = true) (hbcomplete : b.isComplete = true)
    (havalid : ∀ s ∈ a.names, Text.isValid s = true)
    (hbvalid : ∀ s ∈ b.names, Text.isValid s = true) :
    ∃ s t, a.json? = some s ∧ b.json? = some t ∧ (s = t → a = b) := by
  refine ⟨a.json, b.json, if_pos hacomplete, if_pos hbcomplete, ?_⟩
  -- Equal texts have equal lines, equal lines come from equal values.
  intro h
  rw [json, json, jsonLines_eq, jsonLines_eq] at h
  exact eq_of_value_eq ⟨ha, hacomplete, havalid⟩ ⟨hb, hbcomplete, hbvalid⟩
    (Value.unlines_lines_injective h)

/-- A function with a parameter named `name`, and with `y` behind an operator that has no name. -/
def writtenTree (name : String) (y : Node) : Node :=
  lambda ⟨1, 0⟩ (utf8 "int") [⟨⟨1, 2⟩, utf8 name, utf8 "]"⟩] ⟨1, 6⟩
    [expression ⟨2, 0⟩ (.unnamed 3) (block ⟨2, 0⟩ []) y]

/-- The texts of the function are valid, if those of `y` are. -/
theorem isValid_writtenTree (name : String) {y : Node}
    (hy : ∀ s ∈ y.names, Text.isValid s = true) :
    ∀ s ∈ (writtenTree name y).names, Text.isValid s = true := by
  simp only [writtenTree, names_lambda, names_expression, names_block, namesAll_cons, namesAll_nil,
    List.flatMap_cons, List.flatMap_nil, TypedName.texts, List.append_nil, List.nil_append,
    List.forall_mem_append, List.forall_mem_cons]
  exact ⟨⟨isValid_encode _, isValid_encode _, List.forall_mem_nil _⟩, isValid_encode _, hy⟩

/-- A sign that is escaped is not taken for its escape, nor a missing child for the text `null`. -/
theorem json_keeps_writtenTree :
    (∃ s t, (writtenTree "<\u2028" missing).json? = some s ∧
      (writtenTree "\\u003c\u2028" missing).json? = some t ∧ s ≠ t) ∧
      ∃ s t, (writtenTree "<" missing).json? = some s ∧
        (writtenTree "<" (literal ⟨2, 4⟩ (utf8 "null"))).json? = some t ∧ s ≠ t := by
  have hmissing (name : String) := @isValid_writtenTree name missing (List.forall_mem_nil _)
  have hnull (name : String) := @isValid_writtenTree name (literal ⟨2, 4⟩ (utf8 "null"))
    (List.forall_mem_singleton.mpr (isValid_encode _))
  constructor
  · obtain ⟨s, t, hs, ht, h⟩ := json_keeps_tree (a := writtenTree "<\u2028" missing)
      (b := writtenTree "\\u003c\u2028" missing) rfl rfl rfl rfl (hmissing _) (hmissing _)
    refine ⟨s, t, hs, ht, ?_⟩
    intro heq
    exact absurd (congrArg names (h heq)) (by decide)
  · obtain ⟨s, t, hs, ht, h⟩ := json_keeps_tree (a := writtenTree "<" missing)
      (b := writtenTree "<" (literal ⟨2, 4⟩ (utf8 "null"))) rfl rfl rfl rfl (hmissing _) (hnull _)
    refine ⟨s, t, hs, ht, ?_⟩
    intro heq
    exact absurd (congrArg names (h heq)) (by decide)

end Node

end LetFn
