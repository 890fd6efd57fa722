import LetFn.Proofs.Node.Places
import LetFn.Proofs.Text.Escape

/-!
# An outline can be read back

The lines of an outline say by their indentation where a node ends: what belongs to a node stands
deeper than its own line. So the lines of a node are told from whatever follows that is not as deep
(`outlineLines_unique`), and since nothing that is shown on a line breaks it, two trees with the
same outline are the same, locations included (`outline_keeps_tree`). The trees are those that a
source can have, with any texts for names and literals; only a return type is shown without quotes
and must not have a line feed.
-/

namespace LetFn.Node

open Text

/-! ## Trees with an outline -/

mutual

/-- Every node of the tree is there and of a known kind, every function literal has a body, and no
return type goes over its line. -/
def isWhole : Node → Bool
  | module _ stmts | block _ stmts => areWhole stmts
  | literal _ _ | typed _ => true
  | expression _ _ x y => x.isWhole && y.isWhole
  | lambda _ ret _ _ body => !ret.contains newline && areWhole body
  | bodiless _ _ _ | missing | foreign _ => false

/-- Every tree is whole. -/
def areWhole : List Node → Bool
  | [] => true
  | n :: rest => n.isWhole && areWhole rest

end

/-! ## Lines and their depth

What follows a node is told from what belongs to it by its depth alone: `Above` says so of the first
line that follows, or that there is none. -/

/-- A line tells its depth and its text, if the text does not begin with a blank. -/
theorem outlineLine_inj {d e : Nat} {s t : Bytes} (hs : isFlush s = true) (ht : isFlush t = true)
    (h : outlineLine d s = outlineLine e t) : d = e ∧ s = t := by
  obtain ⟨hdepth, htext⟩ := indent_injective hs ht h
  exact ⟨by omega, htext⟩

/-- The first of the lines, if there is one, is not as deep as `depth`. -/
def Above (depth : Nat) (lines : List Bytes) : Prop :=
  ∀ line ∈ lines.head?, ∃ d < depth, ∃ text, isFlush text = true ∧ line = outlineLine d text

/-- Where no line follows, nothing is as deep as `depth`. -/
theorem above_nil (depth : Nat) : Above depth [] := nofun

/-- A line that is less deep is above, whatever follows it. -/
theorem above_cons {d depth : Nat} {text : Bytes} (htext : isFlush text = true) (hd : d < depth)
    (rest : List Bytes) : Above depth (outlineLine d text :: rest) := by
  rintro line ⟨⟩
  exact ⟨d, hd, text, htext, rfl⟩

/-- What is above is above anything deeper. -/
theorem Above.mono {d e : Nat} {lines : List Bytes} (h : Above d lines) (hde : d ≤ e) :
    Above e lines := by
  intro line hline
  obtain ⟨k, hk, htext⟩ := h line hline
  exact ⟨k, Nat.lt_of_lt_of_le hk hde, htext⟩

/-- A line is not above its own depth. -/
theorem not_above_cons {depth : Nat} {text : Bytes} (htext : isFlush text = true)
    (rest : List Bytes) : ¬ Above depth (outlineLine depth text :: rest) := by
  intro h
  obtain ⟨d, hd, other, hother, hline⟩ := h _ rfl
  obtain ⟨rfl, -⟩ := outlineLine_inj htext hother hline
  exact absurd hd (Nat.lt_irrefl _)

/-! ## The line of a node

The line of a node names its kind and shows its location, its operator and its texts. Locations and
operators are visible bytes without a blank, texts are quoted, so each of them is told from what
stands behind it. -/

/-- What the line of a node says behind its kind. -/
def details : Node → Bytes
  | module loc _ | block loc _ | lambda loc _ _ _ _ | bodiless loc _ _ => loc.text
  | literal loc value => loc.text ++ blank :: quote value
  | typed t => t.loc.text ++ blank :: (quote t.name ++ (utf8 ": " ++ quote t.type))
  | expression loc op _ _ => op.spelling ++ blank :: loc.text
  | missing | foreign _ => []

/-- The line of a node without its indentation. -/
def title (n : Node) : Bytes := utf8 (n.kind?.getD "") ++ blank :: n.details

/-- The lines of the parameters of a function at a given depth. -/
def paramLines (depth : Nat) (params : List TypedName) : List Bytes :=
  if params.isEmpty then []
  else outlineLine (depth + 1) (utf8 "Params:") :: params.map (outlineTyped (depth + 2))

/-- The line in front of the body of a function at a given depth. -/
def bodyLine (depth : Nat) : Bytes := outlineLine (depth + 1) (utf8 "Body:")

/-- The lines behind the line of a node that belong to it. -/
def inner (depth : Nat) : Node → List Bytes
  | module _ stmts | block _ stmts => outlineAll (depth + 1) stmts
  | expression _ _ x y => outlineLines (depth + 1) x ++ outlineLines (depth + 1) y
  | lambda _ ret params bodyLoc body =>
    outlineLine (depth + 1) (utf8 "Returns: " ++ ret) ::
      (paramLines depth params ++ bodyLine depth ::
        outlineLine (depth + 2) (utf8 "Block " ++ bodyLoc.text) :: outlineAll (depth + 3) body)
  | bodiless _ ret params =>
    outlineLine (depth + 1) (utf8 "Returns: " ++ ret) ::
      (paramLines depth params ++ [bodyLine depth])
  | literal _ _ | typed _ | missing | foreign _ => []

/-- The lines of a node are its title and what belongs to it. -/
theorem outlineLines_eq {n : Node} (h : n.kind? ≠ none) (depth : Nat) :
    outlineLines depth n = outlineLine depth n.title :: inner depth n := by
  cases n with
  | missing | foreign _ => exact absurd rfl h
  | _ =>
    simp only [outlineLines, outlineTyped, outlineHeader, title, details, inner, kind?,
      Option.getD_some, List.append_assoc, List.cons_append, List.nil_append]
    rfl

/-- A whole node is of a known kind. -/
theorem kind?_of_isWhole {n : Node} (h : n.isWhole = true) : n.kind? ≠ none := by
  cases n with
  | missing | foreign _ | bodiless _ _ _ => cases h
  | _ => nofun

/-- The name of the kind is a plain word. -/
theorem kind_is_word {n : Node} (h : n.kind? ≠ none) :
    isFlush (utf8 (n.kind?.getD "")) = true ∧ AllVisible (utf8 (n.kind?.getD "")) := by
  have hword : ∀ kind ∈ ["Module", "Block", "Literal", "TypedLiteral", "Expression", "Lambda"],
      isFlush (utf8 kind) = true ∧ (utf8 kind).all isVisible = true := by decide
  refine (hword _ ?_).imp_right List.all_eq_true.mp
  cases n with
  | missing | foreign _ => exact absurd rfl h
  | _ => simp [kind?]

/-- A title begins with a letter. -/
theorem isFlush_title {n : Node} (h : n.kind? ≠ none) : isFlush n.title = true :=
  isFlush_append (kind_is_word h).1 _

/-- The node with nothing inside. -/
def bare : Node → Node
  | module loc _ => module loc []
  | block loc _ => block loc []
  | expression loc op _ _ => expression loc op missing missing
  | lambda loc _ _ _ _ | bodiless loc _ _ => bodiless loc [] []
  | n => n

/-- The line of a node says all about it but what is inside. -/
theorem bare_eq_of_title_eq {a b : Node} (ha : a.isWhole = true) (hb : b.isWhole = true)
    (h : a.title = b.title) : a.bare = b.bare := by
  have hblank {s : Bytes} (hs : AllVisible s) : blank ∉ s := hs.not_mem (by decide)
  have hloc {k l : Location} {s t : Bytes}
      (h : k.text ++ blank :: s = l.text ++ blank :: t) : k = l ∧ s = t := by
    obtain ⟨htext, hrest⟩ :=
      eq_of_append_mark (hblank k.allVisible_text) (hblank l.allVisible_text) h
    exact ⟨Location.text_injective htext, hrest⟩
  have hquote {s t r u : Bytes} (h : quote s ++ r = quote t ++ u) : s = t ∧ r = u :=
    selfDelimiting_quote trivial trivial h
  obtain ⟨hword, hdetails⟩ :=
    eq_of_append_mark (hblank (kind_is_word (kind?_of_isWhole ha)).2)
      (hblank (kind_is_word (kind?_of_isWhole hb)).2) h
  -- The first word of the title names the kind, so both nodes are of one kind.
  have hkind := utf8_injective hword
  cases a with
  | module loc xs =>
    cases b with
    | module l ys => rw [bare, bare, Location.text_injective hdetails]
    | missing | foreign _ | bodiless _ _ _ => cases hb
    | _ => simp [kind?] at hkind
  | block loc xs =>
    cases b with
    | block l ys => rw [bare, bare, Location.text_injective hdetails]
    | missing | foreign _ | bodiless _ _ _ => cases hb
    | _ => simp [kind?] at hkind
  | literal loc v =>
    cases b with
    | literal l w =>
      obtain ⟨rfl, hvalue⟩ := hloc hdetails
      -- Nothing follows the closing quote.
      rw [← List.append_nil (quote v), ← List.append_nil (quote w)] at hvalue
      rw [(hquote hvalue).1]
    | missing | foreign _ | bodiless _ _ _ => cases hb
    | _ => simp [kind?] at hkind
  | typed t =>
    cases b with
    | typed u =>
      rcases t with ⟨loc, name, type⟩
      rcases u with ⟨l, name', type'⟩
      obtain ⟨rfl, htexts⟩ := hloc hdetails
      obtain ⟨rfl, htype⟩ := hquote htexts
      have htype := List.append_cancel_left htype
      rw [← List.append_nil (quote type), ← List.append_nil (quote type')] at htype
      rw [(hquote htype).1]
    | missing | foreign _ | bodiless _ _ _ => cases hb
    | _ => simp [kind?] at hkind
  | expression loc op x y =>
    cases b with
    | expression l p z w =>
      obtain ⟨hop, htext⟩ :=
        eq_of_append_mark (hblank op.allVisible_spelling) (hblank p.allVisible_spelling) hdetails
      rw [bare, bare, Operator.spelling_injective hop, Location.text_injective htext]
    | missing | foreign _ | bodiless _ _ _ => cases hb
    | _ => simp [kind?] at hkind
  | lambda loc ret params bodyLoc body =>
    cases b with
    | lambda l s qs m ys => rw [bare, bare, Location.text_injective hdetails]
    | missing | foreign _ | bodiless _ _ _ => cases hb
    | _ => simp [kind?] at hkind
  | missing | foreign _ | bodiless _ _ _ => cases ha

/-! ## What belongs to a node

Behind the line of a node come the lines of its children, one level deeper. They are read in order:
the lines of a child end where the next one begins, and those of the last child end where something
less deep follows. -/

theorem kind?_typed (t : TypedName) : (typed t).kind? ≠ none := nofun

/-- A parameter is shown on the line that a name with its type has as a node. -/
theorem outlineTyped_eq (depth : Nat) (t : TypedName) :
    outlineTyped depth t = outlineLine depth (typed t).title := by
  have hlines := outlineLines_eq (kind?_typed t) depth
  rw [outlineLines] at hlines
  exact (List.cons.inj hlines).1

/-- Parameters are told up to the line in front of the body. -/
theorem paramLines_unique {depth : Nat} {ps qs : List TypedName} {r s : List Bytes}
    (h : paramLines depth ps ++ bodyLine depth :: r = paramLines depth qs ++ bodyLine depth :: s) :
    ps = qs ∧ r = s := by
  have hlabel : outlineLine (depth + 1) (utf8 "Params:") ≠ bodyLine depth := by
    intro heq
    exact absurd (outlineLine_inj (by decide) (by decide) heq).2 (by decide)
  have hflush (t : TypedName) := isFlush_title (kind?_typed t)
  -- The line of a parameter tells the parameter, and is not the one in front of the body.
  have hcode : SelfDelimiting (fun _ => True) fun t => [outlineTyped (depth + 2) t] := by
    intro t u r s _ _ h
    obtain ⟨hline, hrest⟩ := List.cons.inj h
    rw [outlineTyped_eq, outlineTyped_eq] at hline
    have htitle := (outlineLine_inj (hflush t) (hflush u) hline).2
    have hbare := bare_eq_of_title_eq (a := typed t) (b := typed u) rfl rfl htitle
    exact ⟨typed.inj hbare, hrest⟩
  have hdeeper (t : TypedName) : outlineTyped (depth + 2) t ≠ bodyLine depth := by
    intro heq
    rw [outlineTyped_eq] at heq
    have hdepth := (outlineLine_inj (hflush t) (by decide) heq).1
    omega
  -- Without parameters there is no label, so the label tells whether there are any.
  cases ps with
  | nil =>
    cases qs with
    | nil => exact ⟨rfl, (List.cons.inj h).2⟩
    | cons q qs => exact absurd (List.cons.inj h).1.symm hlabel
  | cons p ps =>
    cases qs with
    | nil => exact absurd (List.cons.inj h).1 hlabel
    | cons q qs =>
      have hlines := (List.cons.inj h).2
      rw [List.map_eq_flatMap, List.map_eq_flatMap] at hlines
      exact hcode.closed (fun t _ => ⟨_, [], rfl, hdeeper t⟩) (fun _ _ => trivial)
        (fun _ _ => trivial) hlines

/-- The line of a node comes first, and what is inside behind it. -/
theorem bare_eq_of_outlineLines {a b : Node} {depth : Nat} {r s : List Bytes}
    (ha : a.isWhole = true) (hb : b.isWhole = true)
    (h : outlineLines depth a ++ r = outlineLines depth b ++ s) :
    a.bare = b.bare ∧ inner depth a ++ r = inner depth b ++ s := by
  have hakind := kind?_of_isWhole ha
  have hbkind := kind?_of_isWhole hb
  rw [outlineLines_eq hakind, outlineLines_eq hbkind] at h
  obtain ⟨hline, hinner⟩ := List.cons.inj h
  have htitle := (outlineLine_inj (isFlush_title hakind) (isFlush_title hbkind) hline).2
  exact ⟨bare_eq_of_title_eq ha hb htitle, hinner⟩

/-- A node begins at its own depth, above whatever belongs to it. -/
theorem above_outlineLines {n : Node} (hn : n.isWhole = true) (depth : Nat) (r : List Bytes) :
    Above (depth + 1) (outlineLines depth n ++ r) ∧
      ¬ Above depth (outlineLines depth n ++ r) := by
  have hkind := kind?_of_isWhole hn
  rw [outlineLines_eq hkind]
  exact ⟨above_cons (isFlush_title hkind) (Nat.lt_succ_self depth) _,
    not_above_cons (isFlush_title hkind) _⟩

/-- Trees at some depth are above what is deeper, if what follows them is. -/
theorem above_outlineAll {xs : List Node} (hxs : areWhole xs = true) {depth : Nat}
    {r : List Bytes} (hr : Above depth r) : Above (depth + 1) (outlineAll depth xs ++ r) := by
  cases xs with
  | nil => exact hr.mono (Nat.le_succ depth)
  | cons x rest =>
    rw [areWhole, Bool.and_eq_true] at hxs
    rw [outlineAll, List.append_assoc]
    exact (above_outlineLines hxs.1 depth _).1

mutual

/-- What belongs to a node is told from whatever follows it that is not deeper. -/
theorem outlineLines_unique : ∀ {a b : Node} {depth : Nat} {r s : List Bytes},
    a.isWhole = true → b.isWhole = true → Above (depth + 1) r → Above (depth + 1) s →
    outlineLines depth a ++ r = outlineLines depth b ++ s → a = b ∧ r = s
  -- What follows stays general: for a child it is the rest of the lines of the tree around it.
  | module loc xs, b, _, _, _, ha, hb, hr, hs, h => by
    obtain ⟨hbare, hinner⟩ := bare_eq_of_outlineLines ha hb h
    cases b with
    | module l ys =>
      cases hbare
      obtain ⟨rfl, hrest⟩ := outlineAll_unique ha hb hr hs hinner
      exact ⟨rfl, hrest⟩
    | _ => cases hbare
  | block loc xs, b, _, _, _, ha, hb, hr, hs, h => by
    obtain ⟨hbare, hinner⟩ := bare_eq_of_outlineLines ha hb h
    cases b with
    | block l ys =>
      cases hbare
      obtain ⟨rfl, hrest⟩ := outlineAll_unique ha hb hr hs hinner
      exact ⟨rfl, hrest⟩
    | _ => cases hbare
  | literal loc v, b, _, _, _, ha, hb, _, _, h => by
    obtain ⟨hbare, hinner⟩ := bare_eq_of_outlineLines ha hb h
    cases b with
    | literal l w =>
      cases hbare
      exact ⟨rfl, hinner⟩
    | _ => cases hbare
  | typed t, b, _, _, _, ha, hb, _, _, h => by
    obtain ⟨hbare, hinner⟩ := bare_eq_of_outlineLines ha hb h
    cases b with
    | typed u =>
      cases hbare
      exact ⟨rfl, hinner⟩
    | _ => cases hbare
  | expression loc op x y, b, depth, r, s, ha, hb, hr, hs, h => by
    obtain ⟨hbare, hinner⟩ := bare_eq_of_outlineLines ha hb h
    cases b with
    | expression l p z w =>
      cases hbare
      rw [isWhole, Bool.and_eq_true] at ha hb
      rw [inner, inner, List.append_assoc, List.append_assoc] at hinner
      -- Behind the first operand comes the second, which is not deeper than it.
      obtain ⟨rfl, hsecond⟩ := outlineLines_unique ha.1 hb.1
        (above_outlineLines ha.2 (depth + 1) r).1 (above_outlineLines hb.2 (depth + 1) s).1 hinner
      obtain ⟨rfl, hrest⟩ := outlineLines_unique ha.2 hb.2 (hr.mono (Nat.le_succ _))
        (hs.mono (Nat.le_succ _)) hsecond
      exact ⟨rfl, hrest⟩
    | _ => cases hbare
  | lambda loc ret ps bodyLoc xs, b, depth, r, s, ha, hb, hr, hs, h => by
    obtain ⟨hbare, hinner⟩ := bare_eq_of_outlineLines ha hb h
    cases b with
    | lambda l ret' qs m ys =>
      cases hbare
      rw [isWhole, Bool.and_eq_true] at ha hb
      simp only [inner, List.cons_append, List.append_assoc] at hinner
      -- The type, the parameters, the line of the body and its statements follow one another.
      obtain ⟨hreturns, hparams⟩ := List.cons.inj hinner
      obtain rfl : ret = ret' :=
        List.append_cancel_left (outlineLine_inj (isFlush_append (by decide) _)
          (isFlush_append (by decide) _) hreturns).2
      obtain ⟨rfl, hbody⟩ := paramLines_unique hparams
      obtain ⟨hblock, hstmts⟩ := List.cons.inj hbody
      obtain rfl : bodyLoc = m :=
        Location.text_injective (List.append_cancel_left (outlineLine_inj
          (isFlush_append (by decide) _) (isFlush_append (by decide) _) hblock).2)
      obtain ⟨rfl, hrest⟩ := outlineAll_unique ha.2 hb.2 (hr.mono (by omega))
        (hs.mono (by omega)) hstmts
      exact ⟨rfl, hrest⟩
    | bodiless _ _ _ => cases hb
    | _ => cases hbare

/-- So are several trees, from whatever follows them that is less deep. -/
theorem outlineAll_unique : ∀ {xs ys : List Node} {depth : Nat} {r s : List Bytes},
    areWhole xs = true → areWhole ys = true → Above depth r → Above depth s →
    outlineAll depth xs ++ r = outlineAll depth ys ++ s → xs = ys ∧ r = s
  | [], [], _, _, _, _, _, _, _, h => ⟨rfl, h⟩
  | [], y :: ys, depth, r, s, _, hys, hr, _, h => by
    rw [areWhole, Bool.and_eq_true] at hys
    rw [outlineAll, outlineAll, List.nil_append, List.append_assoc] at h
    -- Another tree would begin at this depth, but what follows is above it.
    rw [h] at hr
    exact absurd hr (above_outlineLines hys.1 depth _).2
  | x :: xs, [], depth, r, s, hxs, _, _, hs, h => by
    rw [areWhole, Bool.and_eq_true] at hxs
    rw [outlineAll, outlineAll, List.nil_append, List.append_assoc] at h
    rw [← h] at hs
    exact absurd hs (above_outlineLines hxs.1 depth _).2
  | x :: xs, y :: ys, _, _, _, hxs, hys, hr, hs, h => by
    rw [areWhole, Bool.and_eq_true] at hxs hys
    rw [outlineAll, outlineAll, List.append_assoc, List.append_assoc] at h
    obtain ⟨rfl, hrest⟩ := outlineLines_unique hxs.1 hys.1 (above_outlineAll hxs.2 hr)
      (above_outlineAll hys.2 hs) h
    obtain ⟨rfl, hend⟩ := outlineAll_unique hxs.2 hys.2 hr hs hrest
    exact ⟨rfl, hend⟩

end

/-! ## Lines are not broken

An outline is the text of its lines, so to take the lines from the text no line may have a line
feed. -/

/-- Indentation breaks no line. -/
theorem newline_not_mem_outlineLine {text : Bytes} (h : newline ∉ text) (depth : Nat) :
    newline ∉ outlineLine depth text := by
  rw [outlineLine, List.mem_append]
  rintro (hblank | htext)
  · exact absurd (List.eq_of_mem_replicate hblank) (by decide)
  · exact h htext

/-- Names and literals are quoted on the line of a node, so no title is broken. -/
theorem newline_not_mem_title {n : Node} (h : n.kind? ≠ none) : newline ∉ n.title := by
  have hvisible {s : Bytes} (hs : AllVisible s) : newline ∉ s := hs.not_mem (by decide)
  have hword := hvisible (kind_is_word h).2
  have hblank : newline ≠ blank := by decide
  have hcolon : newline ∉ utf8 ": " := by decide
  have hloc (loc : Location) := hvisible loc.allVisible_text
  have hop (op : Operator) := hvisible op.allVisible_spelling
  -- What is said behind the kind is quoted or made of visible bytes.
  have hdetails : newline ∉ n.details := by
    cases n <;> simp [details, hloc, hop, hblank, hcolon, newline_not_mem_quote]
  rw [title, List.mem_append, List.mem_cons]
  rintro (hfront | heq | hback)
  · exact hword hfront
  · exact hblank heq
  · exact hdetails hback

/-- Nor is the line of a parameter. -/
theorem newline_not_mem_paramLines (depth : Nat) (params : List TypedName) :
    ∀ line ∈ paramLines depth params, newline ∉ line := by
  intro line hline
  rw [paramLines] at hline
  split at hline
  · cases hline
  · rcases List.mem_cons.mp hline with rfl | hline
    · exact newline_not_mem_outlineLine (by decide) _
    · obtain ⟨t, -, rfl⟩ := List.mem_map.mp hline
      rw [outlineTyped_eq]
      exact newline_not_mem_outlineLine (newline_not_mem_title (kind?_typed t)) _

/-- No line of a node is broken, if none of those inside is. -/
theorem newline_not_mem_cons {n : Node} {depth : Nat} (h : n.isWhole = true)
    (hinner : ∀ line ∈ inner depth n, newline ∉ line) :
    ∀ line ∈ outlineLines depth n, newline ∉ line := by
  have hkind := kind?_of_isWhole h
  rw [outlineLines_eq hkind, List.forall_mem_cons]
  exact ⟨newline_not_mem_outlineLine (newline_not_mem_title hkind) _, hinner⟩

mutual

/-- No line of a whole tree is broken: a return type is shown as it is, and must not break its line.
-/
theorem newline_not_mem_outlineLines : ∀ {n : Node} {depth : Nat}, n.isWhole = true →
    ∀ line ∈ outlineLines depth n, newline ∉ line
  | module _ _, _, h => newline_not_mem_cons h (newline_not_mem_outlineAll h)
  | block _ _, _, h => newline_not_mem_cons h (newline_not_mem_outlineAll h)
  | literal _ _, _, h => newline_not_mem_cons h nofun
  | typed _, _, h => newline_not_mem_cons h nofun
  | expression _ _ x y, depth, h => by
    apply newline_not_mem_cons h
    rw [isWhole, Bool.and_eq_true] at h
    rw [inner, List.forall_mem_append]
    exact ⟨newline_not_mem_outlineLines h.1, newline_not_mem_outlineLines h.2⟩
  | lambda _ ret params bodyLoc body, depth, h => by
    apply newline_not_mem_cons h
    rw [isWhole, Bool.and_eq_true, Bool.not_eq_true', List.contains_eq_mem,
      decide_eq_false_iff_not] at h
    have hlabel {label text : Bytes} (hlabel : newline ∉ label) (htext : newline ∉ text) :
        newline ∉ label ++ text := by
      rw [List.mem_append, not_or]
      exact ⟨hlabel, htext⟩
    have hloc : newline ∉ bodyLoc.text := bodyLoc.allVisible_text.not_mem (by decide)
    rw [inner, List.forall_mem_cons, List.forall_mem_append, List.forall_mem_cons,
      List.forall_mem_cons]
    exact ⟨newline_not_mem_outlineLine (hlabel (by decide) h.1) _,
      newline_not_mem_paramLines depth params, newline_not_mem_outlineLine (by decide) _,
      newline_not_mem_outlineLine (hlabel (by decide) hloc) _, newline_not_mem_outlineAll h.2⟩

theorem newline_not_mem_outlineAll : ∀ {ns : List Node} {depth : Nat}, areWhole ns = true →
    ∀ line ∈ outlineAll depth ns, newline ∉ line
  | [], _, _ => nofun
  | n :: rest, depth, h => by
    rw [areWhole, Bool.and_eq_true] at h
    rw [outlineAll, List.forall_mem_append]
    exact ⟨newline_not_mem_outlineLines h.1, newline_not_mem_outlineAll h.2⟩

end

/-! ## Trees that were parsed

The places of a parsed tree leave no room for a missing node or for a function without a body, and
its names are names. -/

mutual

/-- In a whole tree every function has a body, so there is an outline. -/
theorem isComplete_of_isWhole : ∀ {n : Node}, n.isWhole = true → n.isComplete = true
  | module _ _, h | block _ _, h => areComplete_of_areWhole h
  | literal _ _, _ | typed _, _ => rfl
  | expression _ _ x y, h => by
    rw [isWhole, Bool.and_eq_true] at h
    rw [isComplete, isComplete_of_isWhole h.1, isComplete_of_isWhole h.2]
    rfl
  | lambda _ _ _ _ _, h => by
    rw [isWhole, Bool.and_eq_true] at h
    exact areComplete_of_areWhole h.2

theorem areComplete_of_areWhole : ∀ {ns : List Node}, areWhole ns = true → areComplete ns = true
  | [], _ => rfl
  | n :: rest, h => by
    rw [areWhole, Bool.and_eq_true] at h
    rw [areComplete, isComplete_of_isWhole h.1, areComplete_of_areWhole h.2]
    rfl

end

/-- A name has no line feed. -/
theorem newline_not_mem_name {s : Bytes} (h : Word.isName s = true) : newline ∉ s := by
  intro hmem
  rw [Word.isName, Bool.and_eq_true, Bool.and_eq_true, Word.isAlphanumeric, Bool.and_eq_true,
    List.all_eq_true] at h
  exact absurd (h.1.1.2 newline hmem) (by decide)

mutual

/-- What may stand somewhere in a parsed tree is whole. -/
theorem isWhole_of_meets : ∀ {p : Place} {n : Node}, meets p n = true → n.isWhole = true
  | _, module _ stmts, h =>
    areWhole_of_meets fun _ hc => meets_child h (List.mem_map_of_mem hc)
  | _, block _ stmts, h =>
    areWhole_of_meets fun _ hc => meets_child h (List.mem_map_of_mem hc)
  | _, lambda _ ret _ _ body, h => by
    obtain ⟨-, hret, -, hbody⟩ := meets_lambda h
    have hbody := areWhole_of_meets (meets_of_areStatements hbody)
    have hline := newline_not_mem_name hret
    simp [isWhole, hline, hbody]
  | _, expression _ op x y, h => by
    -- A binding and arithmetic have other places for their parts, but both have places.
    obtain ⟨_, _, hx, hy⟩ : ∃ q r, meets q x = true ∧ meets r y = true := by
      by_cases hop : op = .bind
      · subst hop
        exact ⟨.boundName, .boundValue, (meets_binding h).2⟩
      · exact ⟨.operand, .operand, (meets_arithmetic hop h).2.2⟩
    rw [isWhole, isWhole_of_meets hx, isWhole_of_meets hy]
    rfl
  | p, bodiless _ _ _, h | p, missing, h | p, foreign _, h => by cases p <;> cases h
  | _, literal _ _, _ | _, typed _, _ => rfl

/-- Statements of a parsed tree are whole. -/
theorem areWhole_of_meets : ∀ {stmts : List Node},
    (∀ n ∈ stmts, meets .statement n = true) → areWhole stmts = true
  | [], _ => rfl
  | n :: rest, h => by
    rw [areWhole, isWhole_of_meets (h n List.mem_cons_self),
      areWhole_of_meets fun c hc => h c (List.mem_cons_of_mem n hc)]
    rfl

end

/-! ## Outlines

A line of an outline tells how deep its node stands and what it is, so the lines tell the tree. -/

/-- The outline tells the tree, a missing one included. -/
theorem outline_injective {a b : Node} (ha : a = missing ∨ a.isWhole = true)
    (hb : b = missing ∨ b.isWhole = true) (h : a.outline = b.outline) : a = b := by
  have hunbroken {n : Node} (hn : n = missing ∨ n.isWhole = true) :
      ∀ line ∈ outlineLines 0 n, newline ∉ line := by
    rcases hn with rfl | hn
    · nofun
    · exact newline_not_mem_outlineLines hn
  -- No line is broken, so equal texts have equal lines.
  have hlines := unlines_injective (hunbroken ha) (hunbroken hb) h
  have hsome {n : Node} (hn : n.isWhole = true) : outlineLines 0 missing ≠ outlineLines 0 n := by
    rw [outlineLines_eq (kind?_of_isWhole hn), outlineLines]
    nofun
  rcases ha with rfl | ha <;> rcases hb with rfl | hb
  · rfl
  · exact absurd hlines (hsome hb)
  · exact absurd hlines.symm (hsome ha)
  · rw [← List.append_nil (outlineLines 0 a), ← List.append_nil (outlineLines 0 b)] at hlines
    exact (outlineLines_unique ha hb (above_nil 1) (above_nil 1) hlines).1

/-- Whole trees have outlines, and no two of them have the same. The names and literals in them may
be any bytes. What was parsed is whole. -/
theorem outline_keeps_tree :
    (∀ a b : Node, a = missing ∨ a.isWhole = true → b = missing ∨ b.isWhole = true →
      ∃ s t, a.outline? = some s ∧ b.outline? = some t ∧ (s = t → a = b)) ∧
      ∀ lines m, parseLines lines = .ok m → m.isWhole = true := by
  have houtline {n : Node} (hn : n = missing ∨ n.isWhole = true) :
      n.outline? = some n.outline := by
    rcases hn with rfl | hn
    · rfl
    · exact if_pos (isComplete_of_isWhole hn)
  constructor
  · intro a b ha hb
    exact ⟨a.outline, b.outline, houtline ha, houtline hb, outline_injective ha hb⟩
  · intro lines m hm
    exact isWhole_of_meets (p := .root) (isWellFormed_of_parseLines hm)

/-- A function whose parameter is named `name`, with an operator in its body that has none. -/
def shownTree (name : Bytes) : Node :=
  lambda ⟨1, 0⟩ (utf8 "int") [⟨⟨1, 2⟩, name, utf8 "Body:"⟩] ⟨1, 6⟩
    [expression ⟨2, 0⟩ (.unnamed 3) (literal ⟨2, 0⟩ name) (block ⟨2, 2⟩ [])]

/-- The tree tells its name. -/
theorem shownTree_injective {s t : Bytes} (h : shownTree s = shownTree t) : s = t := by
  simpa [shownTree] using h

/-- A line feed, the escape for it and a stray byte are told apart. -/
theorem outline_keeps_shownTree :
    (∃ s t u : Bytes, (shownTree [newline]).outline? = some s ∧
      (shownTree (utf8 "\\n")).outline? = some t ∧ (shownTree [0xFF]).outline? = some u ∧
      s ≠ t ∧ t ≠ u) ∧
      ∃ m, parseLines nestedLines = .ok m ∧ m.isWhole = true := by
  constructor
  · obtain ⟨s, t, hs, ht, hst⟩ := outline_keeps_tree.1 (shownTree [newline])
      (shownTree (utf8 "\\n")) (.inr rfl) (.inr rfl)
    obtain ⟨t', u, ht', hu, htu⟩ := outline_keeps_tree.1 (shownTree (utf8 "\\n"))
      (shownTree [0xFF]) (.inr rfl) (.inr rfl)
    rw [ht] at ht'
    cases ht'
    refine ⟨s, t, u, hs, ht, hu, ?_, ?_⟩
    · intro heq
      exact absurd (shownTree_injective (hst heq)) (by decide)
    · intro heq
      exact absurd (shownTree_injective (htu heq)) (by decide)
  · have hok : (parseLines nestedLines).toBool = true := by decide +kernel
    rcases hm : parseLines nestedLines with f | m
    · rw [hm] at hok
      cases hok
    · exact ⟨m, rfl, outline_keeps_tree.2 nestedLines m hm⟩

end LetFn.Node
