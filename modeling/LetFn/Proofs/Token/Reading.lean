import LetFn.Token

/-!
# Reading lines back

The words of a text are found again when the text is cut into snippets, provided that no word runs
into the next. `Reads line words` says that a line has just these words and no fault, and
`reads_append` builds lines up: a word may stand in front of a line that does not go on with the
word's own category.

A word that some text spells is `isLexical`. Every word that comes out of a line is
(`Lexed.lexical_words`), and the lexical literals are exactly the names: letters and
digits, but neither keyword.
-/

namespace LetFn

namespace Word

/-- Some source text spells the word. -/
def isLexical (w : Word) : Bool := classify? w.spelling == some w

/-- A name or number: letters and digits, at least one, and no keyword. -/
def isName (s : Bytes) : Bool :=
  isAlphanumeric s && s != Operator.bind.spelling && s != Operator.fn.spelling

/-! ## Words and their spellings

Classification undoes spelling. Names are runs of letters and digits that are no keyword; all other
words are spelled by the table of operators. -/

/-- An operator that is found by its spelling is one of those with a spelling, and has that one. -/
theorem mem_spelled_of_ofSpelling? {s : Bytes} {op : Operator}
    (h : Operator.ofSpelling? s = some op) : op ∈ Operator.spelled ∧ op.spelling = s := by
  refine ⟨List.mem_of_find?_eq_some h, ?_⟩
  simpa using List.find?_some h

/-- What a snippet is classified as spells the snippet. -/
theorem spelling_of_classify? {s : Bytes} {w : Word} (h : classify? s = some w) :
    w.spelling = s := by
  unfold classify? at h
  split at h
  · next op hop =>
    cases h
    exact (mem_spelled_of_ofSpelling? hop).2
  · split at h
    · cases h
      rfl
    · cases h

/-- Every word that a text stands for is lexical. -/
theorem isLexical_of_classify? {s : Bytes} {w : Word} (h : classify? s = some w) :
    w.isLexical = true := by
  rw [isLexical, spelling_of_classify? h, h]
  simp

/-- A lexical word is what its spelling stands for. -/
theorem classify?_spelling {w : Word} (h : w.isLexical = true) : classify? w.spelling = some w := by
  simpa [isLexical] using h

/-- The operators with a spelling are lexical. -/
theorem isLexical_operator {op : Operator} (h : op ∈ Operator.spelled) :
    (operator op).isLexical = true := by
  revert op
  decide

/-- No other operators are. -/
theorem mem_spelled_of_isLexical {op : Operator} (h : (operator op).isLexical = true) :
    op ∈ Operator.spelled := by
  have hop : classify? op.spelling = some (.operator op) := classify?_spelling h
  unfold classify? at hop
  split at hop
  · next o ho =>
    cases hop
    exact (mem_spelled_of_ofSpelling? ho).1
  · split at hop <;> cases hop

/-- The words are the operators as they are spelled and the texts of letters and digits. -/
theorem exists_classify?_iff {s : Bytes} :
    (∃ w, classify? s = some w) ↔
      (∃ op ∈ Operator.spelled, op.spelling = s) ∨ isAlphanumeric s = true := by
  constructor
  · rintro ⟨w, hw⟩
    rw [classify?] at hw
    split at hw
    · next op hop => exact .inl ⟨op, mem_spelled_of_ofSpelling? hop⟩
    · split at hw
      · next halnum => exact .inr halnum
      · cases hw
  · rintro (⟨op, hop, rfl⟩ | halnum)
    · exact ⟨.operator op, classify?_spelling (isLexical_operator hop)⟩
    · rw [classify?, if_pos halnum]
      split
      · exact ⟨_, rfl⟩
      · exact ⟨_, rfl⟩

/-- Of the sixteen spellings only the keywords are made of letters. -/
theorem keyword_of_isAlphanumeric {op : Operator} (hop : op ∈ Operator.spelled)
    (h : isAlphanumeric op.spelling = true) : op = .bind ∨ op = .fn := by
  revert op
  decide

/-- A literal is lexical if its text is a name: letters and digits, and not the spelling of a
keyword. -/
theorem isLexical_literal {s : Bytes} : (literal s).isLexical = isName s := by
  rw [Bool.eq_iff_iff]
  constructor
  · intro h
    have hclass := classify?_spelling h
    rw [classify?] at hclass
    split at hclass
    · cases hclass
    · next hnone =>
      have hspelled : ∀ op ∈ Operator.spelled, s ≠ op.spelling := by
        intro op hop hs
        have := List.find?_eq_none.mp hnone op hop
        simp [spelling, hs] at this
      split at hclass
      · next halnum =>
        have hbind := hspelled .bind (by decide)
        have hfn := hspelled .fn (by decide)
        simp only [isName, bne_iff_ne, ne_eq, Bool.and_eq_true]
        exact ⟨⟨halnum, hbind⟩, hfn⟩
      · cases hclass
  · intro h
    simp only [isName, bne_iff_ne, ne_eq, Bool.and_eq_true] at h
    obtain ⟨⟨halnum, hbind⟩, hfn⟩ := h
    have hnone : Operator.ofSpelling? s = none := by
      rcases hfound : Operator.ofSpelling? s with _ | op
      · rfl
      · obtain ⟨hop, rfl⟩ := mem_spelled_of_ofSpelling? hfound
        rcases keyword_of_isAlphanumeric hop halnum with rfl | rfl
        · exact absurd rfl hbind
        · exact absurd rfl hfn
    simp [isLexical, spelling, classify?, hnone, halnum]

end Word

/-- Words that a source can spell. -/
def Lexical (ws : List Word) : Prop := ∀ w ∈ ws, w.isLexical = true

instance (ws : List Word) : Decidable (Lexical ws) :=
  inferInstanceAs (Decidable (∀ w ∈ ws, w.isLexical = true))

namespace Lexical

variable {us vs ws : List Word}

@[simp] theorem nil : Lexical [] := List.forall_mem_nil _

theorem append : Lexical (us ++ vs) ↔ Lexical us ∧ Lexical vs := List.forall_mem_append

theorem cons {w : Word} : Lexical (w :: ws) ↔ w.isLexical = true ∧ Lexical ws :=
  List.forall_mem_cons

theorem literal {text : Bytes} :
    Lexical (.literal text :: ws) ↔ Word.isName text = true ∧ Lexical ws := by
  rw [cons, Word.isLexical_literal]

theorem operator {op : Operator} (h : op ∈ Operator.spelled) : Lexical [.operator op] :=
  cons.mpr ⟨Word.isLexical_operator h, nil⟩

end Lexical

/-! ## Runs

A run is made of one category other than white space. Two texts in a row are cut apart where the
second does not go on with the category of the first. -/

namespace Category

/-- Letters and digits stand between `0` and `z` in ASCII. -/
theorem toNat_of_isAlnum {b : UInt8} (h : isAlnum b = true) :
    0x30 ≤ b.toNat ∧ b.toNat ≤ 0x7A := by
  simp only [isAlnum, Text.isLetter, Text.isDigit, Bool.or_eq_true, Bool.and_eq_true,
    decide_eq_true_eq, UInt8.le_iff_toNat_le] at h
  simp at h
  omega

/-- Letters and digits are no white space. -/
theorem isBlank_of_isAlnum {b : UInt8} (h : isAlnum b = true) : isBlank b = false := by
  have hb := toNat_of_isAlnum h
  rw [Bool.eq_false_iff]
  intro hblank
  simp only [isBlank, Bool.or_eq_true, Bool.and_eq_true, decide_eq_true_eq, beq_iff_eq,
    UInt8.le_iff_toNat_le] at hblank
  rcases hblank with rfl | hblank
  · simp at hb
  · simp at hblank
    omega

theorem isAscii_of_isAlnum {b : UInt8} (h : isAlnum b = true) : isAscii b = true := by
  have hb := toNat_of_isAlnum h
  simp only [isAscii, decide_eq_true_eq, UInt8.lt_iff_toNat_lt]
  simp
  omega

theorem isAscii_of_isBlank {b : UInt8} (h : isBlank b = true) : isAscii b = true := by
  have hb : b.toNat = 0x20 ∨ 0x09 ≤ b.toNat ∧ b.toNat ≤ 0x0D := by
    simpa [isBlank, UInt8.le_iff_toNat_le, ← UInt8.toNat_inj] using h
  rw [isAscii, decide_eq_true_iff, UInt8.lt_iff_toNat_lt]
  show b.toNat < 0x80
  omega

theorem of_eq_alnum {b : UInt8} (h : isAlnum b = true) : of b = alnum := by
  simp [of, isBlank_of_isAlnum h, h]

/-- A choice of two categories is neither of a third. -/
theorem ite_ne {c : Prop} [Decidable c] {x y z : Category} (hx : x ≠ z) (hy : y ≠ z) :
    (if c then x else y) ≠ z := by
  split
  · exact hx
  · exact hy

/-- Only white space is classified as such. -/
theorem of_eq_space_iff {b : UInt8} : of b = space ↔ isBlank b = true := by
  refine ⟨fun h => ?_, fun h => by rw [of, if_pos h]⟩
  rcases hblank : isBlank b with _ | _
  · rw [of, if_neg (by rw [hblank]; decide)] at h
    refine absurd h ?_
    repeat' apply ite_ne
    all_goals decide
  · rfl

end Category

namespace Snippet

/-- The text is cut out of a line as one snippet, and opens no comment. -/
def isRun : Bytes → Bool
  | [] => false
  | b :: rest =>
    !Category.isBlank b && Category.isAscii b && rest.all (continues b) &&
      !opensComment (b :: rest)

/-- The line does not go on with the run `text`. -/
def Separates (text line : Bytes) : Prop :=
  ∀ b ∈ text.head?, ∀ c ∈ line.head?, continues b c = false

/-- A run has a byte at least. -/
theorem ne_nil_of_isRun {text : Bytes} (h : isRun text = true) : text ≠ [] := by
  rintro rfl
  cases h

/-- The bytes of a run are ASCII and of one category, which is not white space. -/
theorem category_of_isRun {text : Bytes} (h : isRun text = true) :
    ∃ c, c ≠ Category.space ∧ ∀ b ∈ text, Category.isAscii b = true ∧ Category.of b = c := by
  rcases text with _ | ⟨b, run⟩
  · cases h
  simp only [isRun, Bool.and_eq_true, Bool.not_eq_true', List.all_eq_true, continues,
    beq_iff_eq] at h
  obtain ⟨⟨⟨hblank, hascii⟩, hrun⟩, -⟩ := h
  refine ⟨Category.of b, ?_, List.forall_mem_cons.mpr ⟨⟨hascii, rfl⟩, hrun⟩⟩
  intro hspace
  rw [Category.of_eq_space_iff, hblank] at hspace
  cases hspace

/-- All bytes of a run have the category of the first. -/
theorem of_eq_of_isRun {b : UInt8} {text : Bytes} (h : isRun (b :: text) = true) :
    ∀ c ∈ b :: text, Category.of c = Category.of b := by
  obtain ⟨_, -, htext⟩ := category_of_isRun h
  intro c hc
  rw [(htext c hc).2, (htext b List.mem_cons_self).2]

/-- A run has no white space. -/
theorem isBlank_of_mem_isRun {text : Bytes} (h : isRun text = true) :
    ∀ b ∈ text, Category.isBlank b = false := by
  obtain ⟨c, hspace, htext⟩ := category_of_isRun h
  intro b hb
  rw [Bool.eq_false_iff, ne_eq, ← Category.of_eq_space_iff, (htext b hb).2]
  exact hspace

theorem not_mem_isRun {text : Bytes} (h : isRun text = true) {b : UInt8}
    (hb : Category.isBlank b = true) : b ∉ text := by
  intro hmem
  rw [isBlank_of_mem_isRun h b hmem] at hb
  cases hb

/-- Every word is spelled by a run. -/
theorem isRun_of_classify? {text : Bytes} {w : Word} (h : Word.classify? text = some w) :
    isRun text = true := by
  unfold Word.classify? at h
  split at h
  · next op hop =>
    obtain ⟨hspelled, rfl⟩ := Word.mem_spelled_of_ofSpelling? hop
    revert hspelled
    clear hop h
    revert op
    decide
  · split at h
    · next halnum =>
      rcases text with _ | ⟨b, rest⟩
      · simp [Word.isAlphanumeric] at halnum
      · simp only [Word.isAlphanumeric, List.isEmpty_cons, Bool.not_false, List.all_cons,
          Bool.true_and, Bool.and_eq_true, List.all_eq_true] at halnum
        obtain ⟨hb, hrest⟩ := halnum
        have hruns : ∀ c ∈ rest, continues b c = true := by
          intro c hc
          simp [continues, Category.isAscii_of_isAlnum (hrest c hc),
            Category.of_eq_alnum (hrest c hc), Category.of_eq_alnum hb]
        have hcomment : opensComment (b :: rest) = false := by
          have hslash : b ≠ '/'.toUInt8 := by
            rintro rfl
            revert hb
            decide
          have htext : Text.utf8 "//" = ['/'.toUInt8, '/'.toUInt8] := by decide
          rw [opensComment, htext]
          simp [hslash]
        simp only [isRun, Category.isBlank_of_isAlnum hb, Category.isAscii_of_isAlnum hb, hcomment,
          Bool.not_false, Bool.true_and, Bool.and_true, List.all_eq_true]
        exact hruns
    · cases h

/-- White space does not go on with a run. -/
theorem not_continues_blank {b c : UInt8} (hb : Category.isBlank b = false)
    (hc : Category.isBlank c = true) : continues b c = false := by
  rw [continues, Category.of_eq_space_iff.mpr hc]
  have hspace : Category.of b ≠ .space := by
    intro hof
    rw [Category.of_eq_space_iff, hb] at hof
    cases hof
  simp [hspace.symm]

/-- White space ends a run. -/
theorem separates_blank {text : Bytes} {c : UInt8} (htext : isRun text = true)
    (hc : Category.isBlank c = true) (line : Bytes) : Separates text (c :: line) := by
  intro b hb c' hc'
  cases hc'
  obtain ⟨rest, rfl⟩ := List.head?_eq_some_iff.mp hb
  simp only [isRun, Bool.and_eq_true, Bool.not_eq_true'] at htext
  exact not_continues_blank htext.1.1.1 hc

/-! ## Scanning

Equations for a line that begins with white space, with a run, with a comment or with a foreign
byte. -/

/-- White space is passed over. -/
theorem scan_blank {b : UInt8} (hb : Category.isBlank b = true) (offset : Nat) (line : Bytes) :
    scan offset (b :: line) = scan (offset + 1) line := by
  simp only [scan, List.takeWhile_cons, List.dropWhile_cons, hb, if_true, List.length_cons]
  rw [show offset + ((line.takeWhile Category.isBlank).length + 1) =
    offset + 1 + (line.takeWhile Category.isBlank).length by omega]

/-- A run in front of something that does not go on with it is found as a snippet. -/
theorem scan_run {text line : Bytes} (htext : isRun text = true) (hsep : Separates text line)
    (offset : Nat) : scan offset (text ++ line) = .snippet ⟨text, offset⟩ line := by
  rcases text with _ | ⟨b, rest⟩
  · simp [isRun] at htext
  · simp only [isRun, Bool.and_eq_true, Bool.not_eq_true', List.all_eq_true] at htext
    obtain ⟨⟨⟨hblank, hascii⟩, hrest⟩, hcomment⟩ := htext
    have hstop : line.takeWhile (continues b) = [] ∧ line.dropWhile (continues b) = line := by
      rcases line with _ | ⟨c, line⟩
      · simp
      · have hc : continues b c = false := hsep b rfl c rfl
        simp [hc]
    have hrun : (rest ++ line).takeWhile (continues b) = rest := by
      rw [List.takeWhile_append_of_pos hrest, hstop.1, List.append_nil]
    have hleft : (rest ++ line).dropWhile (continues b) = line := by
      rw [List.dropWhile_append_of_pos hrest, hstop.2]
    simp [scan, hblank, hascii, hrun, hleft, hcomment]

theorem segmentFrom_nothing {offset : Nat} {line : Bytes} (h : scan offset line = .nothing) :
    segmentFrom offset line = ([], none) := by
  rw [segmentFrom]
  split <;> simp_all

theorem segmentFrom_fault {offset : Nat} {line : Bytes} {f : SegmentFault}
    (h : scan offset line = .fault f) : segmentFrom offset line = ([], some f) := by
  rw [segmentFrom]
  split <;> simp_all

/-- Segmentation goes on where a snippet stops. -/
theorem segmentFrom_snippet {offset : Nat} {line rest : Bytes} {s : Snippet}
    (h : scan offset line = .snippet s rest) :
    segmentFrom offset line =
      (s :: (segmentFrom s.stop rest).1, (segmentFrom s.stop rest).2) := by
  rw [segmentFrom]
  split <;> simp_all

/-- White space moves the offset and does nothing else. -/
theorem segmentFrom_blank {b : UInt8} (hb : Category.isBlank b = true) (offset : Nat)
    (line : Bytes) : segmentFrom offset (b :: line) = segmentFrom (offset + 1) line := by
  have hscan := scan_blank hb offset line
  rcases h : scan (offset + 1) line with _ | f | ⟨s, rest⟩
  · rw [segmentFrom_nothing h, segmentFrom_nothing (hscan.trans h)]
  · rw [segmentFrom_fault h, segmentFrom_fault (hscan.trans h)]
  · rw [segmentFrom_snippet h, segmentFrom_snippet (hscan.trans h)]

end Snippet

/-! ## Lines

What a line reads as does not depend on where the line stands, nor on the offset of its part within
it. -/

/-- The line has these words and no fault, wherever it stands. -/
def Reads (line : Bytes) (words : List Word) : Prop :=
  ∀ (offset : Nat) (n : UInt32) (column : Nat), (Snippet.segmentFrom offset line).2 = none ∧
    ∃ tokens, Token.ofSnippets n column (Snippet.segmentFrom offset line).1 = .ok tokens ∧
      tokens.map Token.word = words

theorem reads_nil : Reads [] [] := by
  intro offset n column
  rw [Snippet.segmentFrom_nothing rfl]
  exact ⟨rfl, [], rfl, rfl⟩

/-- White space in front of a line does not change what it reads as. -/
theorem reads_blank {b : UInt8} {line : Bytes} {words : List Word}
    (hb : Category.isBlank b = true) (h : Reads line words) : Reads (b :: line) words := by
  intro offset n column
  rw [Snippet.segmentFrom_blank hb]
  exact h (offset + 1) n column

/-- A word in front of a line is read in front of its words, if the line does not go on with it. -/
theorem reads_append {text line : Bytes} {w : Word} {words : List Word}
    (hw : Word.classify? text = some w) (hsep : Snippet.Separates text line)
    (h : Reads line words) : Reads (text ++ line) (w :: words) := by
  intro offset n column
  have hscan := Snippet.scan_run (Snippet.isRun_of_classify? hw) hsep offset
  rw [Snippet.segmentFrom_snippet hscan]
  obtain ⟨hfault, tokens, htokens, hwords⟩ := h (Snippet.stop ⟨text, offset⟩) n (column + 1)
  refine ⟨hfault, ⟨w, ⟨n, UInt32.ofNat column⟩⟩ :: tokens, ?_, by rw [List.map_cons, hwords]⟩
  simp [Token.ofSnippets, hw, htokens, Except.map]

/-- A line that reads as some words has them as tokens, whatever its number is. -/
theorem ofLine_of_reads {line : Bytes} {words : List Word} (h : Reads line words) (n : UInt32) :
    ∃ tokens, Token.ofLine n line = .ok tokens ∧ tokens.map Token.word = words := by
  obtain ⟨hfault, tokens, htokens, hwords⟩ := h 0 n 0
  refine ⟨tokens, ?_, hwords⟩
  simp [Token.ofLine, Snippet.segment, hfault, htokens]

/-- The words of the tokens. -/
def Lexed.words (l : Lexed) : List Word := l.tokens.map Token.word

/-- The lines have these words and no fault, whatever the number of the first one. -/
def ReadsLines (lines : List Bytes) (words : List Word) : Prop :=
  ∀ n : UInt32, (Lexed.ofLinesFrom n lines).fault = none ∧
    (Lexed.ofLinesFrom n lines).words = words

theorem readsLines_nil : ReadsLines [] [] := fun _ => ⟨rfl, rfl⟩

/-- The words of several lines follow one another. -/
theorem readsLines_cons {line : Bytes} {lines : List Bytes} {ws vs : List Word}
    (hline : Reads line ws) (hlines : ReadsLines lines vs) :
    ReadsLines (line :: lines) (ws ++ vs) := by
  intro n
  obtain ⟨tokens, htokens, hws⟩ := ofLine_of_reads hline n
  obtain ⟨hfault, hvs⟩ := hlines (n + 1)
  rw [Lexed.words] at hvs
  simp [Lexed.ofLinesFrom, Lexed.words, htokens, hfault, hws, hvs]

/-- The words in a row with a blank after each. -/
def spellOut (words : List Word) : Bytes := words.flatMap fun w => w.spelling ++ [Text.blank]

/-- Lexical words can be written down as a line. -/
theorem reads_spellOut {words : List Word} (h : Lexical words) : Reads (spellOut words) words := by
  induction words with
  | nil => exact reads_nil
  | cons w rest ih =>
    obtain ⟨hlexical, hrest⟩ := Lexical.cons.mp h
    have hw : Word.classify? w.spelling = some w := Word.classify?_spelling hlexical
    have hblank : Category.isBlank Text.blank = true := by decide
    have hsep := Snippet.separates_blank (Snippet.isRun_of_classify? hw) hblank (spellOut rest)
    simpa [spellOut] using reads_append hw hsep (reads_blank hblank (ih hrest))

/-! ## The words of lines -/

namespace Token

/-- The first snippet of a good line is a word. -/
theorem ofSnippets_cons {n : UInt32} {column : Nat} {s : Snippet} {rest : List Snippet}
    {tokens : List Token} (h : ofSnippets n column (s :: rest) = .ok tokens) :
    ∃ w more, Word.classify? s.text = some w ∧ ofSnippets n (column + 1) rest = .ok more ∧
      tokens = ⟨w, ⟨n, UInt32.ofNat column⟩⟩ :: more := by
  simp only [ofSnippets] at h
  split at h
  · cases h
  · next w hw =>
    rcases hrest : ofSnippets n (column + 1) rest with e | more
    · rw [hrest] at h
      cases h
    · rw [hrest] at h
      cases h
      exact ⟨w, more, hw, rfl, rfl⟩

/-- A good line is cut into snippets without a fault, and each snippet is a word. -/
theorem ofLine_eq_ok {n : UInt32} {line : Bytes} {tokens : List Token}
    (h : ofLine n line = .ok tokens) : ofSnippets n 0 (Snippet.segment line).1 = .ok tokens := by
  rw [ofLine] at h
  simp only at h
  split at h
  · cases h
  · cases h
  · next ts hts _ =>
    cases h
    exact hts

/-- Tokens of snippets are lexical words. -/
theorem isLexical_of_mem_ofSnippets {n : UInt32} {column : Nat} {snippets : List Snippet}
    {tokens : List Token} (h : ofSnippets n column snippets = .ok tokens) :
    ∀ t ∈ tokens, t.word.isLexical = true := by
  induction snippets generalizing column tokens with
  | nil =>
    cases h
    simp
  | cons s rest ih =>
    obtain ⟨w, more, hw, hmore, rfl⟩ := ofSnippets_cons h
    intro t ht
    rcases List.mem_cons.mp ht with rfl | ht
    · exact Word.isLexical_of_classify? hw
    · exact ih hmore t ht

end Token

/-- Lines have words that a source can spell. -/
theorem Lexed.lexical_words (n : UInt32) (lines : List Bytes) :
    Lexical (Lexed.ofLinesFrom n lines).words := by
  induction lines generalizing n with
  | nil => exact Lexical.nil
  | cons line rest ih =>
    rw [Lexed.ofLinesFrom]
    split
    · exact Lexical.nil
    · next tokens htokens =>
      rw [Lexed.words, List.map_append, Lexical.append]
      refine ⟨?_, ih (n + 1)⟩
      intro w hw
      obtain ⟨t, ht, rfl⟩ := List.mem_map.mp hw
      exact Token.isLexical_of_mem_ofSnippets (Token.ofLine_eq_ok htokens) t ht

end LetFn
