import LetFn.Proofs.Node.Steps
import LetFn.Proofs.Parse.Spacing
import LetFn.Proofs.Snippet.Exact

/-!
# Reading what was pasted together

Canonical text pastes the texts of a tree together with marks, blanks and line feeds, and nothing is
asked of these texts: they may hold white space, line feeds, comments or bytes that no token has. A
text that is pasted in is still read as if it stood alone, because it never runs into its neighbours
(`textWords?_append`). Only a comment that it opens goes on behind it, up to the next line feed.

So the words of written text can be told from its steps (`Step.textWords?_render`), and written text
is accepted exactly if these words make up a module (`parseText_write_iff`).
-/

namespace LetFn

open Snippet
open Category (isBlank)
open Text (splitAt newline blank)

/-- The words of one text and then those of another, unless one of the two has a bad line. -/
def Word.append? (us vs : Option (List Word)) : Option (List Word) :=
  us.bind fun us => vs.map (us ++ ·)

namespace Word

@[simp] theorem append?_none_left (vs : Option (List Word)) : append? none vs = none := rfl

@[simp] theorem append?_none_right (us : Option (List Word)) : append? us none = none := by
  cases us <;> rfl

@[simp] theorem append?_some (us vs : List Word) : append? (some us) (some vs) = some (us ++ vs) :=
  rfl

@[simp] theorem append?_nil_left (vs : Option (List Word)) : append? (some []) vs = vs := by
  cases vs <;> rfl

@[simp] theorem append?_nil_right (us : Option (List Word)) : append? us (some []) = us := by
  cases us <;> simp

/-- Words are put together in any grouping, bad lines included. -/
theorem append?_assoc (us vs ws : Option (List Word)) :
    append? (append? us vs) ws = append? us (append? vs ws) := by
  cases us <;> cases vs <;> cases ws <;> simp

/-- Texts in two rows are classified one row after the other. -/
theorem mapM_classify?_append (ss ts : List Bytes) :
    (ss ++ ts).mapM classify? = append? (ss.mapM classify?) (ts.mapM classify?) := by
  rw [List.mapM_append]
  cases ss.mapM classify? <;> cases ts.mapM classify? <;> rfl

end Word

/-! ## One line

A line is cut into snippets from the left, so pasting behind it changes nothing in front of the
seam. Two runs that do not melt together keep their cuts. -/

namespace Snippet

/-- The words of a line, if it is not bad. -/
def words? (line : Bytes) : Option (List Word) :=
  if (gist line).2 then none else (gist line).1.mapM Word.classify?

/-- Two slashes stand in a row. -/
def HasComment (s : Bytes) : Prop := Text.utf8 "//" <:+: s

instance (s : Bytes) : Decidable (HasComment s) :=
  inferInstanceAs (Decidable (Text.utf8 "//" <:+: s))

/-- A line that is cut to its end has no comment. -/
theorem Cuts.not_hasComment {offset : Nat} {front : Bytes} {snippets : List Snippet}
    (h : Cuts offset front snippets []) : ¬HasComment front := by
  rintro ⟨pre, post, rfl⟩
  have hslashes : (Text.utf8 "//").length = 2 := by decide
  have hplace : pre.length < (pre ++ Text.utf8 "//" ++ post).length := by
    simp only [List.length_append, hslashes]
    omega
  apply h.not_stops hplace
  rw [List.append_nil, List.append_assoc, List.drop_left]
  exact .inl (List.prefix_append _ _)

/-- What is pasted behind a line is read on its own, unless a comment goes on. -/
theorem words?_append {s rest : Bytes} (h : Apart s rest) :
    words? (s ++ rest) = Word.append? (words? s) (if HasComment s then some [] else words? rest) := by
  obtain ⟨front, snippets, tail, rfl, hcuts⟩ := exists_cuts 0 s
  have hgist := gist_of_cuts hcuts
  by_cases htail : tail = []
  -- Cutting reaches the end of `s` and goes on in `rest`: the cuts of the whole are those of both.
  · subst htail
    obtain ⟨front', snippets', rest', rfl, hnext⟩ := exists_cuts (0 + front.length) rest
    rw [List.append_nil] at h hgist ⊢
    have hwhole := gist_of_cuts (hcuts.append_apart h hnext)
    rw [List.append_assoc] at hwhole
    rw [if_neg hcuts.not_hasComment]
    simp only [words?, hwhole, hgist, gist_of_cuts hnext, List.map_append,
      Word.mapM_classify?_append]
    cases beginsStray rest' <;> simp [beginsStray]
  · -- Cutting stops within `s`, at a comment or at a byte that is not ASCII.
    have hwhole := gist_of_cuts (hcuts.append_of_stopped htail rest)
    rw [← List.append_assoc, beginsStray_append htail, ← hgist] at hwhole
    have hwords : words? (front ++ tail ++ rest) = words? (front ++ tail) := by
      rw [words?, hwhole, words?]
    rw [hwords]
    rcases hcuts.rest_cases.resolve_left htail with hslashes | ⟨b, hb, hascii⟩
    · have hcomment : HasComment (front ++ tail) :=
        hslashes.isInfix.trans (List.suffix_append front tail).isInfix
      rw [if_pos hcomment, Word.append?_nil_right]
    · have hbad : words? (front ++ tail) = none := by
        obtain ⟨more, rfl⟩ := List.head?_eq_some_iff.mp hb
        simp [words?, hgist, beginsStray, hascii]
      rw [hbad, Word.append?_none_left]

/-- A blank in front opens no comment. -/
theorem hasComment_blank {b : UInt8} (hb : isBlank b = true) (s : Bytes) :
    HasComment (b :: s) ↔ HasComment s := by
  have hslash : '/'.toUInt8 ≠ b := by
    rintro rfl
    exact absurd hb (by decide)
  rw [HasComment, HasComment, List.infix_cons_iff, utf8_slashes, List.cons_prefix_cons]
  simp [hslash]

/-- An empty line has no words and is not bad. -/
theorem words?_nil : words? [] = some [] := by
  rw [words?, gist_nil]
  rfl

end Snippet

/-! ## Several lines

Only the last line of the first text and the first line of the second meet. A flag says whether the
seam lies within a comment. -/

/-- The words of lines, if none of them is bad. -/
def linesWords? : List Bytes → Option (List Word)
  | [] => some []
  | line :: rest => Word.append? (words? line) (linesWords? rest)

/-- The words of a text, if no line of it is bad. It begins within a comment if `commented`. -/
def textWords? (commented : Bool) (s : Bytes) : Option (List Word) :=
  linesWords? ((splitAt newline s).drop commented.toNat)

/-- A text that begins within a comment, if `commented`, ends within one. -/
def endsCommented (commented : Bool) (s : Bytes) : Bool :=
  match splitAt newline s with
  | [line] => commented || decide (HasComment line)
  | lines => lines.getLast?.any fun line => decide (HasComment line)

section Lines

variable {line : Bytes} (h : newline ∉ line)

include h

/-- A text without line feeds is one line, unless it stands within a comment. -/
theorem textWords?_line (commented : Bool) :
    textWords? commented line = if commented then some [] else words? line := by
  rw [textWords?, Text.splitAt_single h]
  cases commented <;> simp [linesWords?]

/-- Whatever a line opens, the line feed behind it closes. -/
theorem textWords?_newline (commented : Bool) (rest : Bytes) :
    textWords? commented (line ++ newline :: rest) =
      Word.append? (textWords? commented line) (textWords? false rest) := by
  rw [textWords?_line h, textWords?, textWords?, Text.splitAt_line h]
  cases commented <;> simp [linesWords?]

/-- One line ends within a comment if it begins in one or opens one. -/
theorem endsCommented_line (commented : Bool) :
    endsCommented commented line = (commented || decide (HasComment line)) := by
  rw [endsCommented, Text.splitAt_single h]

/-- How a text ends is up to its last line. -/
theorem endsCommented_newline (commented : Bool) (rest : Bytes) :
    endsCommented commented (line ++ newline :: rest) = endsCommented false rest := by
  rw [endsCommented, endsCommented, Text.splitAt_line h]
  rcases hrest : splitAt newline rest with _ | ⟨first, _ | ⟨next, more⟩⟩
  · exact absurd hrest (Text.splitAt_ne_nil rest)
  · simp
  · simp

/-- What is pasted behind a piece of a line is read on its own, or as the rest of a comment. -/
theorem textWords?_append_line (commented : Bool) {rest : Bytes} (hapart : Apart line rest) :
    textWords? commented (line ++ rest) =
      Word.append? (textWords? commented line)
        (textWords? (endsCommented commented line) rest) := by
  -- Up to the first line feed of `rest` this is one line; behind it nothing has changed.
  have hpiece {a : Bytes} (ha : newline ∉ a) (hapart : Apart line a) :
      textWords? commented (line ++ a) =
        Word.append? (textWords? commented line)
          (textWords? (endsCommented commented line) a) := by
    rw [textWords?_line (by simp [h, ha]), textWords?_line h, textWords?_line ha,
      endsCommented_line h, words?_append hapart]
    cases commented <;> simp
  by_cases hmem : newline ∈ rest
  · obtain ⟨a, b, rfl, ha⟩ := List.eq_append_cons_of_mem hmem
    rw [← List.append_assoc, textWords?_newline (by simp [h, ha]), textWords?_newline ha,
      hpiece ha hapart.of_append_right, Word.append?_assoc]
  · exact hpiece hmem hapart

end Lines

/-- A text that is pasted behind another is read on its own, or as the rest of a comment. -/
theorem textWords?_append {s rest : Bytes} (h : Apart s rest) (commented : Bool) :
    textWords? commented (s ++ rest) =
      Word.append? (textWords? commented s) (textWords? (endsCommented commented s) rest) := by
  by_cases hmem : newline ∈ s
  -- The first line of `s` is read by itself, and its line feed ends any comment.
  · obtain ⟨line, more, hs, hline⟩ := List.eq_append_cons_of_mem hmem
    have hmore : Apart more rest := by
      rw [hs, ← List.singleton_append, ← List.append_assoc] at h
      exact h.of_append
    rw [hs, List.append_assoc, List.cons_append, textWords?_newline hline,
      textWords?_newline hline, endsCommented_newline hline, textWords?_append hmore false,
      Word.append?_assoc]
  · exact textWords?_append_line hmem commented h
termination_by s.length
decreasing_by
  rw [hs, List.length_append, List.length_cons]
  omega

/-! ## Written text

Steps write their texts with a blank between any two that would melt together, and blanks are not
read. -/

namespace Step

/-- What a step asks to write. -/
def text : Step → Bytes
  | word s => s
  | space => [blank]
  | newline => [Text.newline]
  | indent levels => Text.blanks (4 * levels)

/-- The words of steps, each read on its own up to the comments that are opened. -/
def words? : Bool → List Step → Option (List Word)
  | _, [] => some []
  | commented, s :: rest =>
    Word.append? (textWords? commented s.text) (words? (endsCommented commented s.text) rest)

/-- A blank in front makes no difference. -/
theorem textWords?_blank (commented : Bool) (s : Bytes) :
    textWords? commented (blank :: s) = textWords? commented s ∧
      endsCommented commented (blank :: s) = endsCommented commented s := by
  have hblank : isBlank blank = true := by decide
  have hline : Text.newline ∉ [blank] := by decide
  have hsplit := Text.splitAt_cons (show blank ≠ Text.newline by decide) s
  have hcomment : ¬HasComment [blank] := by decide
  constructor
  · have hpaste := textWords?_append (Apart.blank hblank s) commented
    have hwords : Snippet.words? [blank] = some [] := by decide +kernel
    rw [textWords?_line hline, endsCommented_line hline, hwords] at hpaste
    simpa [hcomment] using hpaste
  · rw [endsCommented, endsCommented, hsplit]
    rcases splitAt Text.newline s with _ | ⟨first, _ | ⟨next, more⟩⟩
    · rfl
    · simp [hasComment_blank hblank]
    · rfl

/-- The blank that is put between two words is not read. -/
theorem textWords?_piece (commented : Bool) (last : Option UInt8) (s : Step) :
    textWords? commented (piece last s) = textWords? commented s.text ∧
      endsCommented commented (piece last s) = endsCommented commented s.text := by
  cases s with
  | word w =>
    rcases w with _ | ⟨b, w⟩
    · exact ⟨rfl, rfl⟩
    · rw [piece]
      split
      · exact textWords?_blank commented (b :: w)
      · exact ⟨rfl, rfl⟩
  | space | newline | indent => exact ⟨rfl, rfl⟩

/-- What is written next never runs into what was written last. -/
theorem apart_render (s : Bytes) (last : Option UInt8) (steps : List Step) :
    Apart s (render (s.getLast?.or last) steps) := by
  intro b hb c hc
  rw [Option.mem_def.mp hb, Option.some_or] at hc
  rcases hblank : isBlank b with _ | _
  · exact .inr (render_apart hblank steps c hc)
  · exact .inl rfl

/-- Written text has the words of its steps. -/
theorem textWords?_render (steps : List Step) (commented : Bool) (last : Option UInt8) :
    textWords? commented (render last steps) = words? commented steps := by
  induction steps generalizing commented last with
  | nil =>
    rw [render, words?, textWords?_line List.not_mem_nil, Snippet.words?_nil, ite_self]
  | cons s rest ih =>
    obtain ⟨hwords, hends⟩ := textWords?_piece commented last s
    rw [render, textWords?_append (apart_render _ _ _), ih, hwords, hends, words?]

end Step

/-! ## Texts with a word, texts with none

A text that is a word is read as that word, and one with a byte that no word has cannot be read,
unless a comment hides the byte. -/

/-- A line of a text without comments has none, nor has what follows it. -/
theorem not_hasComment_of_line {line rest : Bytes} (h : ¬HasComment (line ++ Text.newline :: rest)) :
    ¬HasComment line ∧ ¬HasComment rest := by
  have hline : line <:+: line ++ Text.newline :: rest := (List.prefix_append _ _).isInfix
  have hrest : rest <:+: line ++ Text.newline :: rest :=
    ((List.suffix_cons _ rest).trans (List.suffix_append line _)).isInfix
  exact ⟨fun hcomment => h (hcomment.trans hline), fun hcomment => h (hcomment.trans hrest)⟩

/-- A text without comments does not end within one. -/
theorem endsCommented_of_not_hasComment {s : Bytes} (h : ¬HasComment s) :
    endsCommented false s = false := by
  by_cases hmem : newline ∈ s
  · obtain ⟨line, rest, hs, hline⟩ := List.eq_append_cons_of_mem hmem
    rw [hs] at h
    rw [hs, endsCommented_newline hline, endsCommented_of_not_hasComment (not_hasComment_of_line h).2]
  · rw [endsCommented_line hmem, Bool.false_or, decide_eq_false h]
termination_by s.length
decreasing_by
  rw [hs, List.length_append, List.length_cons]
  omega

/-- A word that stands alone is read as that word. -/
theorem textWords?_word {s : Bytes} {w : Word} (hw : Word.classify? s = some w) :
    textWords? false s = some [w] ∧ endsCommented false s = false := by
  have hrun := isRun_of_classify? hw
  -- The word is one run, and nothing stands on either side of it.
  have hcuts : Cuts 0 ([] ++ (s ++ [])) [⟨s, 0⟩] [] :=
    .snippet Blank.nil hrun (by simp [Separates]) (.stop Blank.nil (.inl rfl))
  rw [List.nil_append, List.append_nil] at hcuts
  have hgist := gist_of_cuts hcuts
  rw [List.append_nil] at hgist
  refine ⟨?_, endsCommented_of_not_hasComment hcuts.not_hasComment⟩
  rw [textWords?_line (not_mem_isRun hrun (by decide)), if_neg Bool.false_ne_true, Snippet.words?,
    hgist]
  simp [beginsStray, hw]

/-- No word has a byte of this category. -/
theorem Word.not_mem_of_classify? {s : Bytes} {w : Word} (hw : classify? s = some w) {b : UInt8}
    (hb : Category.of b = .other) : b ∉ s := by
  unfold classify? at hw
  split at hw
  -- A word is spelled like an operator or is alphanumeric.
  · next op hop =>
    obtain ⟨hspelled, rfl⟩ := mem_spelled_of_ofSpelling? hop
    have hbytes : ∀ op ∈ Operator.spelled, ∀ b ∈ op.spelling, Category.of b ≠ .other := by
      decide +kernel
    exact fun hmem => hbytes op hspelled b hmem hb
  · split at hw
    · next halnum =>
      rw [isAlphanumeric, Bool.and_eq_true, List.all_eq_true] at halnum
      intro hmem
      rw [Category.of_eq_alnum (halnum.2 b hmem)] at hb
      cases hb
    · cases hw

/-- Among the cuts of a text with a byte that no word has, one is no word. -/
theorem Snippet.Cuts.mapM_classify?_eq_none {offset : Nat} {front rest : Bytes}
    {snippets : List Snippet} (h : Cuts offset front snippets rest) {b : UInt8} (hmem : b ∈ front)
    (hb : Category.of b = .other) : (snippets.map Snippet.text).mapM Word.classify? = none := by
  have hgap {gap : Bytes} (hgap : Blank gap) : b ∉ gap := by
    intro hmem
    rw [Category.of_eq_space_iff.mpr (hgap b hmem)] at hb
    cases hb
  induction h with
  | stop hblank _ => exact absurd hmem (hgap hblank)
  | @snippet offset gap text front rest more hblank htext hsep hfront ih =>
    rw [List.map_cons, List.mapM_cons]
    rcases List.mem_append.mp ((List.mem_append.mp hmem).resolve_left (hgap hblank)) with hin | hin
    · rcases hword : Word.classify? text with _ | w
      · rfl
      · exact absurd hin (Word.not_mem_of_classify? hword hb)
    · rw [ih hin]
      cases Word.classify? text <;> rfl

/-- A line with a byte that no word has is bad, unless a comment hides the byte. -/
theorem Snippet.words?_of_foreign {line : Bytes} (hcomment : ¬HasComment line) {b : UInt8}
    (hmem : b ∈ line) (hb : Category.of b = .other) : words? line = none := by
  obtain ⟨front, snippets, rest, rfl, hcuts⟩ := exists_cuts 0 line
  rw [words?, gist_of_cuts hcuts]
  -- Cutting stops at the end of the line, at a comment or at a byte that is not ASCII.
  rcases hcuts.rest_cases with rfl | hslashes | ⟨c, hc, hascii⟩
  · rw [List.append_nil] at hmem
    rw [hcuts.mapM_classify?_eq_none hmem hb, ite_self]
  · exact absurd (hslashes.isInfix.trans (List.suffix_append front rest).isInfix) hcomment
  · obtain ⟨more, rfl⟩ := List.head?_eq_some_iff.mp hc
    simp [beginsStray, hascii]

/-- A text with such a byte is bad as a whole, unless it has a comment. -/
theorem textWords?_of_foreign {s : Bytes} (hcomment : ¬HasComment s) {b : UInt8} (hmem : b ∈ s)
    (hb : Category.of b = .other) : textWords? false s = none := by
  by_cases hnewline : newline ∈ s
  · obtain ⟨line, rest, hs, hline⟩ := List.eq_append_cons_of_mem hnewline
    rw [hs] at hcomment hmem
    obtain ⟨hcommentLine, hcommentRest⟩ := not_hasComment_of_line hcomment
    rw [hs, textWords?_newline hline]
    -- The byte stands in the first line, in its line feed, or behind it.
    rcases List.mem_append.mp hmem with hin | hin
    · rw [textWords?_line hline, if_neg Bool.false_ne_true,
        Snippet.words?_of_foreign hcommentLine hin hb, Word.append?_none_left]
    · rcases List.mem_cons.mp hin with rfl | hin
      · exact absurd hb (by decide)
      · rw [textWords?_of_foreign hcommentRest hin hb, Word.append?_none_right]
  · rw [textWords?_line hnewline, if_neg Bool.false_ne_true,
      Snippet.words?_of_foreign hcomment hmem hb]
termination_by s.length
decreasing_by
  rw [hs, List.length_append, List.length_cons]
  omega

namespace Step

@[simp] theorem words?_nil (commented : Bool) : words? commented [] = some [] := rfl

/-- A word that is written is read, if no comment was left open. -/
theorem words?_word {s : Bytes} {w : Word} (hw : Word.classify? s = some w) (rest : List Step) :
    words? false (.word s :: rest) = Word.append? (some [w]) (words? false rest) := by
  obtain ⟨hwords, hends⟩ := textWords?_word hw
  rw [words?, text, hwords, hends]

/-- Indentation is not read. -/
@[simp] theorem words?_indent (commented : Bool) (levels : Nat) (rest : List Step) :
    words? commented (.indent levels :: rest) = words? commented rest := by
  have hblanks (n : Nat) : textWords? commented (Text.blanks n) = some [] ∧
      endsCommented commented (Text.blanks n) = commented := by
    induction n with
    | zero => cases commented <;> exact ⟨by decide +kernel, by decide⟩
    | succ n ih =>
      obtain ⟨hwords, hends⟩ := textWords?_blank commented (Text.blanks n)
      exact ⟨hwords.trans ih.1, hends.trans ih.2⟩
  rw [words?, text, (hblanks _).1, (hblanks _).2, Word.append?_nil_left]

/-- Nor is a blank. -/
@[simp] theorem words?_space (commented : Bool) (rest : List Step) :
    words? commented (.space :: rest) = words? commented rest := by
  have hspace : textWords? commented [blank] = some [] ∧
      endsCommented commented [blank] = commented := by
    cases commented <;> exact ⟨by decide +kernel, by decide⟩
  rw [words?, text, hspace.1, hspace.2, Word.append?_nil_left]

/-- A line feed ends the comment that was open, if any. -/
@[simp] theorem words?_newline (commented : Bool) (rest : List Step) :
    words? commented (.newline :: rest) = words? false rest := by
  have hnewline : textWords? commented [Text.newline] = some [] ∧
      endsCommented commented [Text.newline] = false := by
    cases commented <;> exact ⟨by decide +kernel, by decide⟩
  rw [words?, text, hnewline.1, hnewline.2, Word.append?_nil_left]

end Step

/-! ## Tokens

What was said of words so far is carried over to tokens, their locations aside. -/

/-- The words of tokens are those of the snippets they come from. -/
theorem Token.words_ofSnippets (n : UInt32) (column : Nat) (snippets : List Snippet) :
    (ofSnippets n column snippets).toOption.map (·.map Token.word) =
      (snippets.map Snippet.text).mapM Word.classify? := by
  induction snippets generalizing column with
  | nil => rfl
  | cons s rest ih =>
    rw [List.map_cons, List.mapM_cons, ← ih (column + 1), ofSnippets]
    rcases Word.classify? s.text with _ | w
    · rfl
    · rcases ofSnippets n (column + 1) rest <;> rfl

/-- The words of a line that is read as tokens. -/
theorem Token.words_ofLine (n : UInt32) (line : Bytes) :
    (ofLine n line).toOption.map (·.map Token.word) = Snippet.words? line := by
  have hwords := words_ofSnippets n 0 (segment line).1
  rw [Snippet.words?, gist, ofLine]
  simp only
  rw [← hwords]
  rcases ofSnippets n 0 (segment line).1 <;> rcases (segment line).2 <;> rfl

/-- Lines are read to their end exactly if no line is bad, and then with these words. -/
theorem Lexed.words_iff {n : UInt32} {lines : List Bytes} {ws : List Word} :
    (ofLinesFrom n lines).fault = none ∧ (ofLinesFrom n lines).words = ws ↔
      linesWords? lines = some ws := by
  induction lines generalizing n ws with
  | nil => simp [ofLinesFrom, words, linesWords?]
  | cons line rest ih =>
    have hline := Token.words_ofLine n line
    rw [linesWords?, ← hline, ofLinesFrom]
    rcases Token.ofLine n line with e | tokens
    · simp [Except.toOption]
    -- A fault in a later line is the fault of the whole.
    · by_cases hfault : (ofLinesFrom (n + 1) rest).fault = none
      · have hmore := ih.mp ⟨hfault, rfl⟩
        simp [Except.toOption, hmore, hfault, words]
      · have hmore : linesWords? rest = none := by
          rcases hmore : linesWords? rest with _ | vs
          · rfl
          · exact absurd (ih.mpr hmore).1 hfault
        simp [Except.toOption, hmore, hfault]

/-- Lines are accepted exactly if none is bad and their words make up a module. -/
theorem exists_parseLines_iff {lines : List Bytes} :
    (∃ m, parseLines lines = .ok m) ↔
      ∃ ws t, linesWords? lines = some ws ∧ Grammar.Module ws t := by
  constructor
  · rintro ⟨m, hm⟩
    obtain ⟨hfault, hmodule⟩ := Lexed.parse_eq_ok.mp hm
    exact ⟨_, m.erase, Lexed.words_iff.mp ⟨hfault, rfl⟩, Parser.derives_of_module hmodule⟩
  · rintro ⟨ws, t, hws, ht⟩
    obtain ⟨hfault, hwords⟩ := (Lexed.words_iff (n := 1)).mpr hws
    rw [← hwords] at ht
    obtain ⟨m, hm, -⟩ := parseLines_of_derives hfault ht
    exact ⟨m, hm⟩

/-- Written text is accepted exactly if the words of its steps make up a module. -/
theorem parseText_write_iff {steps : List Step}
    (hlimit : ∀ line ∈ splitAt newline (Step.write steps), line.length < Source.limit) :
    (∃ m, parseText (Step.write steps) = .ok m) ↔
      ∃ ws t, Step.words? false steps = some ws ∧ Grammar.Module ws t := by
  have hread : Source.readable (Step.write steps) = splitAt newline (Step.write steps) :=
    List.takeWhile_eq_self_iff.mpr fun line hline => Source.fits_iff.mpr (hlimit line hline)
  have hwords : linesWords? (splitAt newline (Step.write steps)) = Step.words? false steps := by
    rw [Step.write_eq]
    exact Step.textWords?_render steps false none
  rw [parseText_eq, hread, exists_parseLines_iff, hwords]

end LetFn
