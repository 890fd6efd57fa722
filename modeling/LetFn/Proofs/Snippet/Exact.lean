import LetFn.Proofs.Snippet.Cuts
import LetFn.Proofs.Text.Utf8

/-!
# Segmentation is exact

Cutting a line ends at the first place where a comment begins or a byte stands that is not ASCII
(`IsCut`), however the runs of the line fall: two slashes in a row are of one category, so they are
never torn apart, and a byte that is not ASCII is in no run. Before that place the snippets are the
maximal runs of one category, those of white space left out (`Segmented`), and what stands there
decides about the fault (`FaultAt`). `segment_exact` says all this for any line, and that a
segmenter delivers the same, a snippet with each call.
-/

namespace LetFn

open Category Text

namespace Snippet

/-- The least place where a comment begins or a byte stands that is not ASCII; the end of the line
if there is none. -/
structure IsCut (line : Bytes) (e : Nat) : Prop where
  stops : e = line.length ∨ Stops (line.drop e)
  le : e ≤ line.length
  least : ∀ i < e, ¬Stops (line.drop i)

/-- The bytes from `i` up to `j` are of category `c`, and neither the one before nor the one after
them is. -/
structure MaximalRun (s : Bytes) (c : Category) (i j : Nat) : Prop where
  lt : i < j
  within : ∀ k, i ≤ k → k < j → s[k]?.map Category.of = some c
  before : ∀ k, k + 1 = i → s[k]?.map Category.of ≠ some c
  after : s[j]?.map Category.of ≠ some c

/-- The snippets are the maximal runs of `s` that are not white space, from left to right, and any
byte outside them is white space. -/
structure Segmented (s : Bytes) (snippets : List Snippet) : Prop where
  mem_iff : ∀ t : Snippet, t ∈ snippets ↔ t.text = (s.take t.stop).drop t.offset ∧
    ∃ c, c ≠ Category.space ∧ MaximalRun s c t.offset t.stop
  ordered : snippets.Pairwise fun t u => t.stop ≤ u.offset
  outside : ∀ i b, s[i]? = some b → (¬∃ t ∈ snippets, t.offset ≤ i ∧ i < t.stop) →
    isBlank b = true

/-- The fault of a line `s` that is cut at `e`: it is about the character encoded there, or about
U+FFFD if there is none, and there is no fault if the line ends there or goes on with ASCII. -/
inductive FaultAt (s : Bytes) (e : Nat) : Option SegmentFault → Prop
  | none (h : ∀ b ∈ s[e]?, isAscii b = true) : FaultAt s e none
  | encoded {b : UInt8} {c : Char} (h : s[e]? = some b) (hascii : isAscii b = false)
      (hc : String.utf8EncodeChar c <+: s.drop e) : FaultAt s e (some ⟨e, c⟩)
  | stray {b : UInt8} (h : s[e]? = some b) (hascii : isAscii b = false)
      (hstray : ∀ c, ¬String.utf8EncodeChar c <+: s.drop e) :
      FaultAt s e (some ⟨e, replacement⟩)

/-! ## Maximal runs

A maximal run is told by any of its bytes. -/

/-- No two maximal runs of one category have a byte in common. -/
theorem MaximalRun.unique {s : Bytes} {c : Category} {i j i' j' k : Nat} (h : MaximalRun s c i j)
    (h' : MaximalRun s c i' j') (hi : i ≤ k) (hj : k < j) (hi' : i' ≤ k) (hj' : k < j') :
    i = i' ∧ j = j' := by
  constructor
  -- If one began earlier, it would hold the byte before the other, which is of another category.
  · rcases Nat.lt_trichotomy i i' with hlt | heq | hlt
    · exact absurd (h.within (i' - 1) (by omega) (by omega)) (h'.before (i' - 1) (by omega))
    · exact heq
    · exact absurd (h'.within (i - 1) (by omega) (by omega)) (h.before (i - 1) (by omega))
  · rcases Nat.lt_trichotomy j j' with hlt | heq | hlt
    · exact absurd (h'.within j (by omega) hlt) h.after
    · exact heq
    · exact absurd (h.within j' (by omega) hlt) h'.after

/-- A text of one category is a maximal run if its neighbours are of others. -/
theorem maximalRun_append {pre text post : Bytes} {c : Category} (hne : text ≠ [])
    (htext : ∀ b ∈ text, Category.of b = c) (hpre : ∀ b ∈ pre.getLast?, Category.of b ≠ c)
    (hpost : ∀ b ∈ post.head?, Category.of b ≠ c) :
    MaximalRun (pre ++ (text ++ post)) c pre.length (pre.length + text.length) where
  lt := Nat.lt_add_of_pos_right (List.length_pos_iff.mpr hne)
  within k hi hj := by
    have hk : k - pre.length < text.length := by omega
    rw [List.getElem?_append_right hi, List.getElem?_append_left hk, List.getElem?_eq_getElem hk,
      Option.map_some, htext _ (List.getElem_mem hk)]
  before k hk := by
    intro hc
    obtain ⟨b, hb, hbc⟩ := Option.map_eq_some_iff.mp hc
    rw [List.getElem?_append_left (by omega)] at hb
    refine hpre b ?_ hbc
    rw [List.getLast?_eq_getElem?, ← hk, Nat.add_sub_cancel, hb]
    rfl
  after := by
    intro hc
    obtain ⟨b, hb, hbc⟩ := Option.map_eq_some_iff.mp hc
    rw [List.getElem?_append_right (by omega), List.getElem?_append_right (by omega)] at hb
    refine hpost b ?_ hbc
    rwa [Nat.add_sub_cancel_left, Nat.sub_self, ← List.head?_eq_getElem?] at hb

/-! ## Runs

Runs are defined by categories, and so are the places where cutting stops, but for the comment: it
takes two slashes, and these are of one category, so they are never torn apart. -/

/-- No other byte is of the slash's category. -/
theorem of_eq_slash {b : UInt8} (h : Category.of b = .slash) : b = '/'.toUInt8 := by
  by_contra hb
  refine absurd h ?_
  rw [Category.of, if_neg hb]
  repeat' apply Category.ite_ne
  all_goals decide

theorem of_slash : Category.of '/'.toUInt8 = .slash := by decide

theorem isAscii_slash : isAscii '/'.toUInt8 = true := by decide

/-- Cutting stops at two slashes in a row and at a byte that is not ASCII. -/
theorem stops_cons_iff {b : UInt8} {s : Bytes} :
    Stops (b :: s) ↔ b = '/'.toUInt8 ∧ s.head? = some '/'.toUInt8 ∨ isAscii b = false := by
  have hslashes : utf8 "//" <+: b :: s ↔ b = '/'.toUInt8 ∧ s.head? = some '/'.toUInt8 := by
    rw [utf8_slashes, List.cons_prefix_cons, eq_comm]
    rcases s with _ | ⟨c, s⟩
    · simp
    · simp [List.cons_prefix_cons, eq_comm]
  rw [Stops, hslashes]
  simp

/-- White space does not stop it. -/
theorem not_stops_blank {b : UInt8} (hb : isBlank b = true) (s : Bytes) : ¬Stops (b :: s) := by
  rw [stops_cons_iff]
  rintro (⟨rfl, -⟩ | hascii)
  · exact absurd hb (by decide)
  · rw [isAscii_of_isBlank hb] at hascii
    cases hascii

/-- A run of slashes is a single one, as it opens no comment. -/
theorem length_of_isRun_slash {text : Bytes} (h : isRun text = true)
    (hslash : ∀ b ∈ text, Category.of b = .slash) : text.length = 1 := by
  rcases text with _ | ⟨b, _ | ⟨d, run⟩⟩
  · cases h
  · rfl
  · have hb := of_eq_slash (hslash b (by simp))
    have hd := of_eq_slash (hslash d (by simp))
    rw [isRun, Bool.and_eq_true, hb, hd, opensComment, utf8_slashes] at h
    simp at h

/-- The byte after a run is of another category, if it is ASCII. -/
theorem Separates.of_ne {text line : Bytes} {c : Category} (hsep : Separates text line)
    (hne : text ≠ []) (htext : ∀ b ∈ text, Category.of b = c) :
    ∀ b ∈ line.head?, isAscii b = true → Category.of b ≠ c := by
  intro b hb hascii hof
  obtain ⟨a, run, rfl⟩ := List.exists_cons_of_ne_nil hne
  have hcontinues := hsep a rfl b hb
  rw [continues, hascii, hof, htext a List.mem_cons_self] at hcontinues
  simp at hcontinues

/-- Cutting does not stop within a run. -/
theorem not_stops_run {text line : Bytes} (h : isRun text = true) (hsep : Separates text line)
    {i : Nat} (hi : i < text.length) : ¬Stops (text.drop i ++ line) := by
  obtain ⟨c, -, htext⟩ := category_of_isRun h
  obtain ⟨hascii, hof⟩ := htext _ (List.getElem_mem hi)
  rw [List.drop_eq_getElem_cons hi, List.cons_append, stops_cons_iff]
  rintro (⟨hb, hnext⟩ | hnot)
  · rw [hb, of_slash] at hof
    subst hof
    have hlength := length_of_isRun_slash h fun b hb => (htext b hb).2
    rw [List.drop_eq_nil_of_le (by omega), List.nil_append] at hnext
    exact hsep.of_ne (ne_nil_of_isRun h) (fun b hb => (htext b hb).2) _ hnext isAscii_slash of_slash
  · rw [hascii] at hnot
    cases hnot

/-- Behind white space, or behind a text that does not end with a byte of its category, a run begins
anew. -/
theorem of_ne_of_mem_getLast? {pre gap : Bytes} {b : UInt8} (hblank : isBlank b = false)
    (hgap : Blank gap)
    (hapart : gap = [] → ∀ a ∈ pre.getLast?, Category.of a ≠ Category.of b) :
    ∀ a ∈ (pre ++ gap).getLast?, Category.of a ≠ Category.of b := by
  intro a ha
  rcases List.eq_nil_or_concat gap with rfl | ⟨gap, x, rfl⟩
  · rw [List.append_nil] at ha
    exact hapart rfl a ha
  · rw [List.concat_eq_append, ← List.append_assoc, List.getLast?_concat] at ha
    cases ha
    have hspace := Category.of_eq_space_iff.mpr (hgap a (by simp))
    rw [hspace]
    intro hb
    rw [Category.of_eq_space_iff.mp hb.symm] at hblank
    cases hblank

/-! ## Where cutting stops

By induction on the cuts: white space and runs are passed over, and cutting stops where neither goes
on. -/

/-- Nor does a gap, at any of its bytes. -/
theorem not_stops_gap {gap : Bytes} (hgap : Blank gap) {i : Nat} (hi : i < gap.length) (s : Bytes) :
    ¬Stops (gap.drop i ++ s) := by
  rw [List.drop_eq_getElem_cons hi, List.cons_append]
  exact not_stops_blank (hgap _ (List.getElem_mem hi)) _

namespace Cuts

variable {offset : Nat} {front rest : Bytes} {snippets : List Snippet}

/-- What has been cut is ASCII. -/
theorem isAscii_of_mem (h : Cuts offset front snippets rest) : ∀ b ∈ front, isAscii b = true := by
  induction h with
  | stop hgap hrest => exact fun b hb => isAscii_of_isBlank (hgap b hb)
  | snippet hgap htext hsep hfront ih =>
    obtain ⟨c, -, hof⟩ := category_of_isRun htext
    intro b hb
    rcases List.mem_append.mp hb with hb | hb
    · exact isAscii_of_isBlank (hgap b hb)
    · rcases List.mem_append.mp hb with hb | hb
      · exact (hof b hb).1
      · exact ih b hb

/-- What is left is nothing, or something at which cutting stops. -/
theorem rest_cases (h : Cuts offset front snippets rest) : rest = [] ∨ Stops rest := by
  induction h with
  | stop hgap hrest => exact hrest
  | snippet hgap htext hsep hfront ih => exact ih

/-- Cutting did not stop before. -/
theorem not_stops (h : Cuts offset front snippets rest) {i : Nat} (hi : i < front.length) :
    ¬Stops ((front ++ rest).drop i) := by
  induction h generalizing i with
  | stop hgap hrest =>
    rw [List.drop_append_of_le_length hi.le]
    exact not_stops_gap hgap hi _
  | @snippet offset gap text front rest more hgap htext hsep hfront ih =>
    simp only [List.length_append] at hi
    rw [List.append_assoc, List.append_assoc]
    -- The place is in the gap, in the run, or behind both.
    rcases Nat.lt_or_ge i gap.length with hlt | hge
    · rw [List.drop_append_of_le_length hlt.le]
      exact not_stops_gap hgap hlt _
    rw [List.drop_append, List.drop_eq_nil_of_le hge, List.nil_append]
    rcases Nat.lt_or_ge (i - gap.length) text.length with hlt | hge
    · rw [List.drop_append_of_le_length hlt.le]
      exact not_stops_run htext hsep hlt
    · rw [List.drop_append, List.drop_eq_nil_of_le hge, List.nil_append]
      exact ih (by omega)

/-- A line is cut at the first place that makes cutting stop. -/
theorem isCut (h : Cuts offset front snippets rest) : IsCut (front ++ rest) front.length where
  stops := by
    rw [List.drop_left]
    exact h.rest_cases.imp_left fun hnil => by simp [hnil]
  le := by simp
  least _ hi := h.not_stops hi

/-- The fault is about the character that is encoded where cutting stopped, if one is. -/
theorem faultAt (front rest : Bytes) :
    FaultAt (front ++ rest) front.length (faultAt? front.length rest) := by
  have hplace : (front ++ rest)[front.length]? = rest.head? := by
    rw [List.getElem?_append_right le_rfl, Nat.sub_self, List.head?_eq_getElem?]
  rcases rest with _ | ⟨b, rest⟩
  · exact .none (by simp)
  rcases hascii : isAscii b with _ | _
  · rw [faultAt?, hascii, if_neg Bool.false_ne_true, leadingChar]
    -- A character is encoded there, or none is.
    split
    · next c tail hc =>
      refine .encoded hplace hascii ?_
      rw [List.drop_left, decode?_eq_some_iff.mp hc]
      exact List.prefix_append _ _
    · next hnone =>
      refine .stray hplace hascii fun c hc => ?_
      rw [List.drop_left] at hc
      obtain ⟨tail, htail⟩ := hc
      rw [decode?_eq_some_iff.mpr htail.symm] at hnone
      cases hnone
  · rw [faultAt?, if_pos hascii]
    refine .none ?_
    rw [hplace]
    rintro _ ⟨⟩
    exact hascii

/-! ## The snippets

Snippets stand in order, none touches a longer run of its category, and every byte in front of the
cut is white space or within one of them. -/

/-- Snippets follow one another and do not overlap. -/
theorem pairwise (h : Cuts offset front snippets rest) :
    (∀ t ∈ snippets, offset ≤ t.offset) ∧ snippets.Pairwise fun t u => t.stop ≤ u.offset := by
  induction h with
  | stop hgap hrest => simp
  | @snippet offset gap text front rest more hgap htext hsep hfront ih =>
    obtain ⟨hstart, hmore⟩ := ih
    refine ⟨List.forall_mem_cons.mpr ⟨Nat.le_add_right _ _, fun t ht => ?_⟩,
      List.pairwise_cons.mpr ⟨hstart, hmore⟩⟩
    have hle := hstart t ht
    omega

/-- Every snippet is a run. -/
theorem isRun_of_mem (h : Cuts offset front snippets rest) :
    ∀ t ∈ snippets, isRun t.text = true := by
  induction h with
  | stop hgap hrest => simp
  | snippet hgap htext hsep hfront ih => exact List.forall_mem_cons.mpr ⟨htext, ih⟩

/-- Every snippet ends within what has been cut. -/
theorem stop_le (h : Cuts offset front snippets rest) :
    ∀ t ∈ snippets, t.stop ≤ offset + front.length := by
  induction h with
  | stop hgap hrest => simp
  | @snippet offset gap text front rest more hgap htext hsep hfront ih =>
    have hend : offset + (gap ++ (text ++ front)).length =
        offset + gap.length + text.length + front.length := by
      simp only [List.length_append, Nat.add_assoc]
    rw [hend]
    exact List.forall_mem_cons.mpr ⟨Nat.le_add_right _ _, ih⟩

/-- A byte that is not white space is in a snippet. -/
theorem exists_mem (h : Cuts offset front snippets rest) {k : Nat} {b : UInt8}
    (hb : front[k]? = some b) (hblank : isBlank b = false) :
    ∃ t ∈ snippets, t.offset ≤ offset + k ∧ offset + k < t.stop := by
  induction h generalizing k with
  | stop hgap hrest =>
    rw [hgap b (List.mem_of_getElem? hb)] at hblank
    cases hblank
  | @snippet offset gap text front rest more hgap htext hsep hfront ih =>
    -- A byte of a gap is white space, one of the run is in the snippet, and any other is further
    -- on.
    rcases Nat.lt_or_ge k gap.length with hlt | hge
    · rw [List.getElem?_append_left hlt] at hb
      rw [hgap b (List.mem_of_getElem? hb)] at hblank
      cases hblank
    rcases Nat.lt_or_ge k (gap.length + text.length) with hlt | hbehind
    · refine ⟨_, List.mem_cons_self, Nat.add_le_add_left hge offset, ?_⟩
      simp only [Snippet.stop]
      omega
    · rw [List.getElem?_append_right (by omega), List.getElem?_append_right (by omega)] at hb
      obtain ⟨t, ht, hstart, hstop⟩ := ih hb
      exact ⟨t, List.mem_cons_of_mem _ ht, by omega, by omega⟩

/-- In a text that goes on with a line that is cut, and in front of it ends with no run that the
line goes on with, each snippet of the line is a maximal run. -/
theorem maximalRun (h : Cuts offset front snippets rest) (pre : Bytes) (hpre : pre.length = offset)
    (hapart : ∀ a ∈ pre.getLast?, ∀ b ∈ front.head?, Category.of b = Category.of a →
      isBlank b = true) :
    ∀ t ∈ snippets, t.text = ((pre ++ front).take t.stop).drop t.offset ∧
      ∃ c, c ≠ Category.space ∧ MaximalRun (pre ++ front) c t.offset t.stop := by
  induction h generalizing pre with
  | stop hgap hrest => simp
  | @snippet offset gap text front rest more hgap htext hsep hfront ih =>
    obtain ⟨c, hspace, hof⟩ := category_of_isRun htext
    have hne := ne_nil_of_isRun htext
    have hcategory : ∀ b ∈ text, Category.of b = c := fun b hb => (hof b hb).2
    -- In front of the run stands a gap, or what the text ended with.
    have hbefore : ∀ a ∈ (pre ++ gap).getLast?, Category.of a ≠ c := by
      obtain ⟨b, run, rfl⟩ := List.exists_cons_of_ne_nil hne
      have hb := hcategory b List.mem_cons_self
      have hblank := isBlank_of_mem_isRun htext b List.mem_cons_self
      rw [← hb]
      apply of_ne_of_mem_getLast? hblank hgap
      rintro rfl a ha hab
      rw [hapart a ha b rfl hab.symm] at hblank
      cases hblank
    -- Behind it stands a byte that the run does not go on with.
    have hafter : ∀ b ∈ front.head?, Category.of b ≠ c := by
      intro b hb
      apply hsep.of_ne hne hcategory b
      · rw [List.head?_append, Option.mem_def.mp hb]
        rfl
      · exact hfront.isAscii_of_mem b (List.mem_of_mem_head? hb)
    have hwhole : pre ++ (gap ++ (text ++ front)) = pre ++ gap ++ text ++ front := by
      simp only [List.append_assoc]
    have hlength : (pre ++ gap).length = offset + gap.length := by
      rw [List.length_append, hpre]
    rw [hwhole, List.forall_mem_cons]
    constructor
    · have hrun := maximalRun_append hne hcategory hbefore hafter
      rw [← List.append_assoc, hlength] at hrun
      refine ⟨?_, c, hspace, hrun⟩
      have hend : offset + gap.length + text.length = (pre ++ gap ++ text).length := by
        rw [List.length_append, hlength]
      rw [Snippet.stop, hend, List.take_left, ← hlength, List.drop_left]
    -- The rest of the line is cut in a text that has grown by the gap and the run.
    · refine ih (pre ++ gap ++ text) ?_ ?_
      · rw [List.length_append, hlength]
      · intro a ha b hb hab
        refine absurd ?_ (hafter b hb)
        rw [hab]
        rw [List.getLast?_append, Option.or_of_isSome (by simpa using hne)] at ha
        exact hcategory a (List.mem_of_mem_getLast? ha)

/-- Every maximal run that is no white space is a snippet. -/
theorem mem_of_maximalRun (h : Cuts 0 front snippets rest) {t : Snippet} {c : Category}
    (htext : t.text = (front.take t.stop).drop t.offset) (hspace : c ≠ .space)
    (hrun : MaximalRun front c t.offset t.stop) : t ∈ snippets := by
  have hfirst := hrun.within t.offset le_rfl hrun.lt
  obtain ⟨b, hb, rfl⟩ := Option.map_eq_some_iff.mp hfirst
  have hblank : isBlank b = false := by
    rwa [Ne, Category.of_eq_space_iff, Bool.not_eq_true] at hspace
  -- The first byte is in a snippet, and that has to be the same maximal run.
  obtain ⟨u, hu, hstart, hstop⟩ := h.exists_mem hb hblank
  rw [Nat.zero_add] at hstart hstop
  obtain ⟨hutext, c, -, hurun⟩ := h.maximalRun [] rfl (by simp) u hu
  obtain rfl : Category.of b = c :=
    Option.some.inj (hfirst.symm.trans (hurun.within t.offset hstart hstop))
  obtain ⟨hoffset, hend⟩ := hurun.unique hrun hstart hstop le_rfl hrun.lt
  have htexts : u.text = t.text := by rw [hutext, htext, hoffset, hend, List.nil_append]
  have heq : u = t := by
    cases u
    cases t
    exact congrArg₂ Snippet.mk htexts hoffset
  exact heq ▸ hu

/-- The snippets of a line are its maximal runs up to the place where it is cut. -/
theorem segmented (h : Cuts 0 front snippets rest) : Segmented front snippets where
  mem_iff t :=
    ⟨h.maximalRun [] rfl (by simp) t,
      fun ⟨htext, _, hspace, hrun⟩ => h.mem_of_maximalRun htext hspace hrun⟩
  ordered := h.pairwise.2
  outside i b hb hout := by
    by_contra hblank
    have hmem := h.exists_mem hb (by simpa using hblank)
    rw [Nat.zero_add] at hmem
    exact hout hmem

end Cuts

end Snippet

/-! ## One snippet at a time

A segmenter keeps the rest of the line and its offset, and what it delivers from there is what the
line as a whole has behind that offset. -/

namespace Segmenter

open Snippet

/-- The segmenter after `n` calls. -/
def after : Nat → Segmenter → Segmenter
  | 0, s => s
  | n + 1, s => (after n s).next.2

/-- The last of the first `n` snippets; the empty one that a segmenter starts with if there is
none. -/
def lastOf (snippets : List Snippet) (n : Nat) : Snippet :=
  (snippets.take n).getLast?.getD (start []).current

/-- A segmenter after `n` calls, in the course of delivering the snippets and then the fault. -/
inductive Reached (snippets : List Snippet) (fault : Option SegmentFault) (n : Nat) :
    Segmenter → Prop
  | going {rest : Bytes} {offset : Nat} (hn : n ≤ snippets.length)
      (hleft : segmentFrom offset rest = (snippets.drop n, fault)) :
      Reached snippets fault n ⟨rest, offset, lastOf snippets n, none, false⟩
  | ended {rest : Bytes} {offset : Nat} (hn : snippets.length < n) :
      Reached snippets fault n ⟨rest, offset, lastOf snippets n, fault, true⟩

variable {snippets : List Snippet} {fault : Option SegmentFault} {n : Nat}

/-- The next snippet becomes the last. -/
theorem lastOf_succ {found : Snippet} {more : List Snippet} (h : snippets.drop n = found :: more) :
    lastOf snippets (n + 1) = found := by
  have hn : snippets[n]? = some found := by rw [← List.head?_drop, h, List.head?_cons]
  rw [lastOf, List.take_add_one, hn]
  simp

/-- Behind the last snippet a call leaves the last one as it is. -/
theorem Reached.ended_succ (hn : snippets.length ≤ n) (rest : Bytes) (offset : Nat) :
    Reached snippets fault (n + 1) ⟨rest, offset, lastOf snippets n, fault, true⟩ := by
  have hlast : lastOf snippets n = lastOf snippets (n + 1) := by
    rw [lastOf, lastOf, List.take_of_length_le hn, List.take_of_length_le (Nat.le_succ_of_le hn)]
  rw [hlast]
  exact .ended (Nat.lt_succ_of_le hn)

/-- A call succeeds as long as there are snippets left. -/
theorem Reached.next {s : Segmenter} (h : Reached snippets fault n s) :
    s.next.1 = decide (n < snippets.length) ∧ Reached snippets fault (n + 1) s.next.2 := by
  cases h with
  | @going rest offset hn hleft =>
    simp only [Segmenter.next, Bool.false_eq_true, if_false]
    -- The line is used up, or it is cut at a fault, or there is a snippet.
    rcases hscan : scan offset rest with _ | f | ⟨found, rest'⟩
    · rw [segmentFrom_nothing hscan, Prod.mk.injEq] at hleft
      obtain ⟨hnil, rfl⟩ := hleft
      have hle : snippets.length ≤ n := List.drop_eq_nil_iff.mp hnil.symm
      exact ⟨by simpa using hle, .ended_succ hle rest offset⟩
    · rw [segmentFrom_fault hscan, Prod.mk.injEq] at hleft
      obtain ⟨hnil, rfl⟩ := hleft
      have hle : snippets.length ≤ n := List.drop_eq_nil_iff.mp hnil.symm
      exact ⟨by simpa using hle, .ended_succ hle rest offset⟩
    · rw [segmentFrom_snippet hscan, Prod.mk.injEq] at hleft
      obtain ⟨hcons, hfault⟩ := hleft
      have hlt : n < snippets.length := by
        have hlength := congrArg List.length hcons
        rw [List.length_cons, List.length_drop] at hlength
        omega
      have htail : snippets.drop (n + 1) = (segmentFrom found.stop rest').1 := by
        rw [← List.tail_drop, ← hcons, List.tail_cons]
      have hnext : segmentFrom found.stop rest' = (snippets.drop (n + 1), fault) := by
        rw [htail, ← hfault]
      rw [← lastOf_succ hcons.symm] at hnext ⊢
      exact ⟨by simpa using hlt, .going hlt hnext⟩
  | @ended rest offset hn =>
    simp only [Segmenter.next, if_true]
    exact ⟨by simpa using hn.le, .ended_succ hn.le rest offset⟩

/-- After any number of calls, as many snippets have been delivered or all of them. -/
theorem reached_after (line : Bytes) (n : Nat) :
    Reached (segment line).1 (segment line).2 n (after n (start line)) := by
  induction n with
  | zero => exact .going (Nat.zero_le _) rfl
  | succ n ih => exact ih.next.2

/-- The current snippet is the last one that was delivered. -/
theorem Reached.current_eq {s : Segmenter} (h : Reached snippets fault n s) :
    s.current = lastOf snippets n := by
  cases h <;> rfl

/-- The fault is known when a call has failed. -/
theorem Reached.fault_eq {s : Segmenter} (h : Reached snippets fault n s) :
    s.fault = if n ≤ snippets.length then none else fault := by
  cases h with
  | going hn hleft => rw [if_pos hn]
  | ended hn => rw [if_neg (Nat.not_le.mpr hn)]

end Segmenter

/-! ## Exactness -/

/-- A line is cut at the first place where a comment begins or a byte stands that is not ASCII. Its
snippets are the maximal runs in front of that place, white space left out, and it has a fault
exactly if what stands there is not ASCII. A segmenter delivers the snippets, one with each call,
keeps the last one, and fails for ever after; it has the fault once it failed. -/
theorem Snippet.segment_exact (line : Bytes) :
    (∃ e, IsCut line e ∧ Segmented (line.take e) (segment line).1 ∧
      FaultAt line e (segment line).2) ∧
      ∀ n, ((Segmenter.start line).after n).next.1 = decide (n < (segment line).1.length) ∧
        ((Segmenter.start line).after n).current = Segmenter.lastOf (segment line).1 n ∧
        ((Segmenter.start line).after n).fault =
          if n ≤ (segment line).1.length then none else (segment line).2 := by
  -- The line is cut as a whole first, and then one snippet at a time.
  constructor
  · obtain ⟨front, snippets, rest, rfl, hcuts⟩ := exists_cuts 0 line
    have hsegment : segment (front ++ rest) = (snippets, faultAt? front.length rest) := by
      rw [segment, hcuts.segmentFrom_eq, Nat.zero_add]
    rw [hsegment]
    refine ⟨front.length, hcuts.isCut, ?_, Cuts.faultAt front rest⟩
    rw [List.take_left]
    exact hcuts.segmented
  · intro n
    have hreached := Segmenter.reached_after line n
    exact ⟨hreached.next.1, hreached.current_eq, hreached.fault_eq⟩

end LetFn
