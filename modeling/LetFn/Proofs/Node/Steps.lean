import LetFn.Node.Format
import LetFn.Proofs.Source
import LetFn.Proofs.Token.Stream

/-!
# The words of written text

Canonical text is written step by step, each step looking at the last byte written so far. Turned
around, `render` gives the text of the steps from the front, with the byte before it as an
argument (`write_eq`). A word never runs into its neighbours, so reading the text gives back the
words that were written, line by line (`readsText_render`).

Nothing is asked of the order of the steps, and they need not come from a tree. A stream over the
lines of the text hands out the words that were written exactly if each of them is one: an operator
or a text of letters and digits (`drain_write_iff`).
-/

namespace LetFn

open Text (splitAt)

/-! ## Texts of several lines

Reading a text from the front: the first line is kept apart, as it may still grow in front. -/

/-- The lines of the text have these words and no fault. -/
def ReadsText (text : Bytes) (words : List Word) : Prop :=
  ∃ line lines us vs, splitAt Text.newline text = line :: lines ∧ Reads line us ∧
    ReadsLines lines vs ∧ words = us ++ vs

/-- A text that is read line by line is read as its lines. -/
theorem readsLines_of_readsText {text : Bytes} {words : List Word} (h : ReadsText text words) :
    ReadsLines (splitAt Text.newline text) words := by
  obtain ⟨line, lines, us, vs, hsplit, hline, hlines, rfl⟩ := h
  rw [hsplit]
  exact readsLines_cons hline hlines

theorem readsText_nil : ReadsText [] [] :=
  ⟨[], [], [], [], rfl, reads_nil, readsLines_nil, rfl⟩

/-- A line feed in front is not read. -/
theorem readsText_newline {text : Bytes} {words : List Word} (h : ReadsText text words) :
    ReadsText (Text.newline :: text) words :=
  ⟨[], _, [], words, Text.splitAt_sep text, reads_nil, readsLines_of_readsText h, rfl⟩

/-- Nor are blanks. -/
theorem readsText_blanks {text : Bytes} {words : List Word} (n : Nat) (h : ReadsText text words) :
    ReadsText (Text.blanks n ++ text) words := by
  induction n with
  | zero => exact h
  | succ n ih =>
    obtain ⟨line, lines, us, vs, hsplit, hline, hlines, hwords⟩ := ih
    refine ⟨Text.blank :: line, lines, us, vs, ?_, reads_blank (by decide) hline, hlines, hwords⟩
    show splitAt Text.newline (Text.blank :: (Text.blanks n ++ text)) = _
    rw [Text.splitAt_cons (by decide), hsplit]
    rfl

/-- A word in front is read if it does not run into what follows. -/
theorem readsText_append {text rest : Bytes} {w : Word} {words : List Word}
    (hw : Word.classify? text = some w) (hsep : Snippet.Separates text rest)
    (h : ReadsText rest words) : ReadsText (text ++ rest) (w :: words) := by
  obtain ⟨line, lines, us, vs, hsplit, hline, hlines, rfl⟩ := h
  have hnewline : Text.newline ∉ text :=
    Snippet.not_mem_isRun (Snippet.isRun_of_classify? hw) (by decide)
  refine ⟨text ++ line, lines, w :: us, vs, ?_, reads_append hw ?_ hline, hlines, rfl⟩
  · rw [Text.splitAt_append hnewline, hsplit]
    rfl
  · intro b hb c hc
    exact hsep b hb c (Text.head?_of_splitAt hsplit c hc)

/-! ## Text from the front

Writing looks back at the byte before; reading goes from the front. `render` is the same text from
the front, with the byte before as its state, and no run in it goes on into what follows. -/

namespace Step

/-- What a step adds to a text that ends in the byte `last`. -/
def piece (last : Option UInt8) : Step → Bytes
  | word [] => []
  | word (b :: text) => if merges last.toList b then Text.blank :: b :: text else b :: text
  | space => [Text.blank]
  | newline => [Text.newline]
  | indent levels => Text.blanks (4 * levels)

/-- What some steps add to a text that ends in the byte `last`. -/
def render (last : Option UInt8) : List Step → Bytes
  | [] => []
  | s :: rest => piece last s ++ render ((piece last s).getLast?.or last) rest

theorem merges_toList_head? (written : Bytes) (b : UInt8) :
    merges written.head?.toList b = merges written b := by
  cases written <;> rfl

/-- Each step writes a piece that depends on the last byte only. -/
theorem append_eq_piece (written : Bytes) (s : Step) :
    append written s = (piece written.head? s).reverse ++ written := by
  cases s with
  | word text =>
    cases text with
    | nil => rfl
    | cons b text =>
      simp only [append, piece, merges_toList_head?, List.reverseAux_eq]
      split <;> simp
  | space => rfl
  | newline => rfl
  | indent levels => simp [append, piece, Text.blanks]

/-- Written backwards, byte by byte, the text is what `render` gives from the front. -/
theorem foldl_append_eq (written : Bytes) (steps : List Step) :
    steps.foldl append written = (render written.head? steps).reverse ++ written := by
  induction steps generalizing written with
  | nil => rfl
  | cons s rest ih =>
    -- The last byte written is that of the piece, or the one before if the piece is empty.
    have hhead : (append written s).head? = (piece written.head? s).getLast?.or written.head? := by
      rw [append_eq_piece, List.head?_append, List.head?_reverse]
    rw [List.foldl_cons, ih, hhead, render, append_eq_piece, List.reverse_append,
      List.append_assoc]

theorem write_eq (steps : List Step) : write steps = render none steps := by
  rw [write, foldl_append_eq]
  simp

/-- What comes after a byte that is no white space is not of its category. -/
theorem render_apart {last : UInt8} (hlast : Category.isBlank last = false) (steps : List Step) :
    ∀ c ∈ (render (some last) steps).head?, Category.of c ≠ Category.of last := by
  have hspace : ∀ c, Category.isBlank c = true → Category.of c ≠ Category.of last := by
    intro c hc heq
    rw [Category.of_eq_space_iff.mpr hc] at heq
    rw [Category.of_eq_space_iff.mp heq.symm] at hlast
    cases hlast
  -- What comes next is the first byte of the first piece that is not empty.
  induction steps with
  | nil => simp [render]
  | cons s rest ih =>
    rw [render]
    rcases hpiece : piece (some last) s with _ | ⟨b, text⟩
    · exact ih
    · intro c hc
      obtain rfl : b = c := by simpa using hc
      cases s with
      | word w =>
        rcases w with _ | ⟨d, w⟩
        · cases hpiece
        rw [piece] at hpiece
        split at hpiece
        · cases hpiece
          exact hspace _ (by decide)
        · next hmerges =>
          cases hpiece
          intro heq
          apply hmerges
          simp [merges, hlast, heq]
      | space =>
        cases hpiece
        exact hspace _ (by decide)
      | newline =>
        cases hpiece
        exact hspace _ (by decide)
      | indent levels =>
        have hb : b ∈ Text.blanks (4 * levels) := by
          rw [piece] at hpiece
          rw [hpiece]
          exact List.mem_cons_self
        rw [List.eq_of_mem_replicate hb]
        exact hspace _ (by decide)

/-- The steps write these words, whatever blanks and line ends they write between them. -/
inductive Spells : List Step → List Word → Prop
  | nil : Spells [] []
  | word {text : Bytes} {w : Word} {steps : List Step} {words : List Word} :
      Word.classify? text = some w → Spells steps words → Spells (.word text :: steps) (w :: words)
  | space {steps : List Step} {words : List Word} :
      Spells steps words → Spells (.space :: steps) words
  | newline {steps : List Step} {words : List Word} :
      Spells steps words → Spells (.newline :: steps) words
  | indent {steps : List Step} {words : List Word} (levels : Nat) :
      Spells steps words → Spells (.indent levels :: steps) words

namespace Spells

/-- Steps in a row spell their words in a row. -/
theorem append {as bs : List Step} {us vs : List Word} (ha : Spells as us) (hb : Spells bs vs) :
    Spells (as ++ bs) (us ++ vs) := by
  induction ha with
  | nil => exact hb
  | word hw _ ih => exact .word hw ih
  | space _ ih => exact .space ih
  | newline _ ih => exact .newline ih
  | indent levels _ ih => exact .indent levels ih

/-- A name spells itself. -/
theorem name {text : Bytes} (h : Word.isName text = true) :
    Spells [.word text] [.literal text] :=
  .word (Word.classify?_spelling (Word.isLexical_literal.trans h)) .nil

/-- A mark spells its operator. -/
theorem mark {op : Operator} (h : op ∈ Operator.spelled) : Spells [Step.mark op] [.operator op] :=
  .word (Word.classify?_spelling (Word.isLexical_operator h)) .nil

end Spells

/-- A word is apart from whatever is written after it. -/
theorem separates_render {text : Bytes} {w : Word} (hw : Word.classify? text = some w)
    {last : UInt8} (hlast : last ∈ text.getLast?) (steps : List Step) :
    Snippet.Separates text (render (some last) steps) := by
  have hrun := Snippet.isRun_of_classify? hw
  have hmem : last ∈ text := List.mem_of_getLast? hlast
  intro b hb c hc
  obtain ⟨rest, rfl⟩ := List.head?_eq_some_iff.mp hb
  have hapart := render_apart (Snippet.isBlank_of_mem_isRun hrun last hmem) steps c hc
  rw [Snippet.of_eq_of_isRun hrun last hmem] at hapart
  simp [Snippet.continues, hapart]

/-- Written text is read as the words that its steps spell. -/
theorem readsText_render {steps : List Step} {words : List Word} (h : Spells steps words) :
    ∀ last, ReadsText (render last steps) words := by
  induction h with
  | nil => exact fun _ => readsText_nil
  | @word text w steps words hw _ ih =>
    intro last
    rcases text with _ | ⟨b, text⟩
    · cases hw
    obtain ⟨stop, hstop⟩ : ∃ stop, (b :: text).getLast? = some stop :=
      ⟨_, List.getLast?_cons⟩
    -- The word is apart from what follows; a blank may stand in front of it.
    have hword := readsText_append hw (separates_render hw hstop steps) (ih (some stop))
    rw [render, piece]
    split
    · rw [List.getLast?_cons_cons, hstop, Option.some_or]
      exact readsText_blanks 1 hword
    · rw [hstop, Option.some_or]
      exact hword
  | space _ ih => exact fun _ => readsText_blanks 1 (ih _)
  | newline _ ih => exact fun _ => readsText_newline (ih _)
  | indent levels _ ih => exact fun _ => readsText_blanks (4 * levels) (ih _)

/-- The lines of written text are read as these words. -/
theorem readsLines_splitAt_write {steps : List Step} {words : List Word} (h : Spells steps words) :
    ReadsLines (splitAt Text.newline (write steps)) words := by
  rw [write_eq]
  exact readsLines_of_readsText (readsText_render h none)

/-- Reading back what was written gives the words that were written. -/
theorem readsLines_write {steps : List Step} {words : List Word} (h : Spells steps words)
    (hlimit : ∀ line ∈ splitAt Text.newline (write steps), line.length < Source.limit) :
    ReadsLines (Source.ofText (write steps)).lines words := by
  intro n
  rw [Lexed.ofLinesFrom_ofText_of_fits n hlimit]
  exact readsLines_splitAt_write h n

/-! ## Any words in any order

Without a tree there is no order among the steps. Every text has to be a word by itself. -/

/-- The text that a step writes as a word. -/
def wordText? : Step → Option Bytes
  | word text => some text
  | space | newline | indent _ => none

/-- The texts that steps write as words, in order. -/
def wordTexts (steps : List Step) : List Bytes := steps.filterMap wordText?

theorem wordTexts_word (text : Bytes) (rest : List Step) :
    wordTexts (.word text :: rest) = text :: wordTexts rest := rfl

/-- Steps spell the words that their texts are classified as, if all of these are words. -/
theorem exists_spells {steps : List Step}
    (h : ∀ text ∈ wordTexts steps, ∃ w, Word.classify? text = some w) :
    ∃ words, Spells steps words ∧ words.map some = (wordTexts steps).map Word.classify? := by
  induction steps with
  | nil => exact ⟨[], .nil, rfl⟩
  | cons s rest ih =>
    -- Only words have texts that must be words.
    cases s with
    | word text =>
      rw [wordTexts_word, List.forall_mem_cons] at h
      obtain ⟨⟨w, hw⟩, hrest⟩ := h
      obtain ⟨words, hspells, hwords⟩ := ih hrest
      refine ⟨w :: words, .word hw hspells, ?_⟩
      rw [wordTexts_word, List.map_cons, List.map_cons, hw, hwords]
    | space =>
      obtain ⟨words, hspells, hwords⟩ := ih h
      exact ⟨words, .space hspells, hwords⟩
    | newline =>
      obtain ⟨words, hspells, hwords⟩ := ih h
      exact ⟨words, .newline hspells, hwords⟩
    | indent levels =>
      obtain ⟨words, hspells, hwords⟩ := ih h
      exact ⟨words, .indent levels hspells, hwords⟩

/-- A stream over the lines of written text meets no fault and hands out what was written as words,
each classified by itself, exactly if every one of these texts is an operator or made of letters and
digits. What blanks, line feeds and indentation are written between them makes no difference. -/
theorem drain_write_iff (steps : List Step) :
    ((Stream.start (splitAt Text.newline (write steps))).drain.2.fault = none ∧
      (Stream.start (splitAt Text.newline (write steps))).drain.1.map (fun t => some t.word) =
        (wordTexts steps).map Word.classify?) ↔
      ∀ text ∈ wordTexts steps,
        (∃ op ∈ Operator.spelled, op.spelling = text) ∨ Word.isAlphanumeric text = true := by
  simp only [← Word.exists_classify?_iff]
  -- What is handed out are words; texts that are words are spelled.
  constructor
  · rintro ⟨-, htokens⟩ text htext
    have hclass : Word.classify? text ∈ (wordTexts steps).map Word.classify? :=
      List.mem_map_of_mem htext
    rw [← htokens] at hclass
    obtain ⟨t, -, ht⟩ := List.mem_map.mp hclass
    exact ⟨t.word, ht.symm⟩
  · intro h
    obtain ⟨words, hspells, hwords⟩ := exists_spells h
    obtain ⟨hfault, htokens⟩ := Stream.drain_of_readsLines (readsLines_splitAt_write hspells)
    refine ⟨hfault, ?_⟩
    rw [← hwords, ← htokens, List.map_map]
    rfl

/-- A star before two of them and a slash before another do not run together. -/
example :
    write [mark .mul, mark .pow, mark .div, .newline, .word (Text.utf8 "x1"), mark .div, mark .div] =
        Text.utf8 "* **/\nx1/ /" ∧
      (Stream.start (splitAt Text.newline (Text.utf8 "* **/\nx1/ /"))).drain.1.map Token.word =
        [.operator .mul, .operator .pow, .operator .div, .literal (Text.utf8 "x1"), .operator .div,
          .operator .div] := by
  decide +kernel

end Step

end LetFn
