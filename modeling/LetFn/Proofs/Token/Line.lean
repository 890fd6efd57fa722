import LetFn.Proofs.Token.Order

/-!
# Good lines and bad lines

A line is bad if one of its snippets is no word, or if a byte that is not ASCII ended the search for
snippets. What is wrong with a line, `flaw?`, does not depend on where the line stands, and neither
do the snippets in front of the flaw, `soundSnippets`.

`placedWords` says what the tokens of lines should be, without making any token: snippet `j` of line
`i` gives its word at `(i, j)`, in all lines before the first bad one. As long as no number wraps,
`Lexed.ofLines` makes just these (`placed_tokens`).
-/

namespace LetFn

namespace Snippet

def isWord (s : Snippet) : Bool := (Word.classify? s.text).isSome

/-- The snippets of a line in front of the first that is no word. -/
def soundSnippets (line : Bytes) : List Snippet := (segment line).1.takeWhile isWord

/-- What is wrong with a line: its first snippet that is no word, or else a byte that is not
ASCII. -/
def flaw? (line : Bytes) : Option LexicalCause :=
  match (segment line).1.find? (!isWord ·) with
  | some s => some (.invalid s.text)
  | none => (segment line).2.map .segment

def isGood (line : Bytes) : Bool := (flaw? line).isNone

theorem exists_flaw {line : Bytes} (h : isGood line = false) : ∃ cause, flaw? line = some cause := by
  rwa [isGood, Option.isNone_eq_false_iff, Option.isSome_iff_exists] at h

end Snippet

open Snippet

/-- The lines before the first bad one. -/
def goodLines (lines : List Bytes) : List Bytes := lines.takeWhile isGood

/-- The words of snippets, each with the number of the line and the index of its snippet. -/
def wordsAt (i : Nat) (snippets : List (Snippet × Nat)) : List (Word × Nat × Nat) :=
  snippets.filterMap fun (s, j) => (Word.classify? s.text).map (·, i, j)

/-- The words of the good lines, where the first line has the number `first`. -/
def placedWordsFrom (first : Nat) (lines : List Bytes) : List (Word × Nat × Nat) :=
  ((goodLines lines).zipIdx first).flatMap fun (line, i) => wordsAt i (segment line).1.zipIdx

/-- The words of the lines before the first bad one, each with the number of its line and the index
of its snippet there. -/
def placedWords (lines : List Bytes) : List (Word × Nat × Nat) := placedWordsFrom 1 lines

/-- What a token says and where, as plain numbers. -/
def Token.placed (t : Token) : Word × Nat × Nat := (t.word, t.loc.line.toNat, t.loc.column.toNat)

/-! ## One line

A line is bad by its first snippet that is no word, or by the byte at which segmentation failed if
there is none. -/

namespace Token

theorem ofSnippets_of_isWord {snippets : List Snippet} (h : ∀ s ∈ snippets, s.isWord = true)
    (n : UInt32) (column : Nat) : ∃ tokens, ofSnippets n column snippets = .ok tokens := by
  induction snippets generalizing column with
  | nil => exact ⟨[], rfl⟩
  | cons s rest ih =>
    obtain ⟨w, hw⟩ := Option.isSome_iff_exists.mp (h s (by simp))
    obtain ⟨tokens, htokens⟩ := ih (fun t ht => h t (by simp [ht])) (column + 1)
    exact ⟨⟨w, ⟨n, UInt32.ofNat column⟩⟩ :: tokens, by simp [ofSnippets, hw, htokens, Except.map]⟩

theorem ofSnippets_of_not_isWord {snippets : List Snippet} {s : Snippet}
    (h : snippets.find? (!isWord ·) = some s) (n : UInt32) (column : Nat) :
    ofSnippets n column snippets =
      .error ⟨.invalid s.text, ⟨n, UInt32.ofNat (column + (snippets.takeWhile isWord).length)⟩⟩ := by
  induction snippets generalizing column with
  | nil => simp at h
  | cons t rest ih =>
    rcases hword : Word.classify? t.text with _ | w
    · have ht : t.isWord = false := by simp [isWord, hword]
      obtain rfl : t = s := by simpa [ht] using h
      simp [ofSnippets, hword, ht]
    · have ht : t.isWord = true := by simp [isWord, hword]
      simp only [List.find?_cons, ht, Bool.not_true] at h
      have hcount : column + ((t :: rest).takeWhile isWord).length =
          column + 1 + (rest.takeWhile isWord).length := by
        simp only [List.takeWhile_cons, ht, if_true, List.length_cons]
        omega
      simp [ofSnippets, hword, ih h, Except.map, hcount]

/-- A bad line gives its first flaw. -/
theorem ofLine_of_flaw {line : Bytes} {cause : LexicalCause} (h : flaw? line = some cause)
    (n : UInt32) :
    ofLine n line = .error ⟨cause, ⟨n, UInt32.ofNat (soundSnippets line).length⟩⟩ := by
  unfold flaw? at h
  rcases hfind : (segment line).1.find? (!isWord ·) with _ | s
  · rw [hfind] at h
    obtain ⟨f, hf, rfl⟩ := Option.map_eq_some_iff.mp h
    have hwords : ∀ s ∈ (segment line).1, s.isWord = true := by
      simpa using List.find?_eq_none.mp hfind
    obtain ⟨tokens, htokens⟩ := ofSnippets_of_isWord hwords n 0
    have hsound : soundSnippets line = (segment line).1 := by
      rw [soundSnippets, ← List.append_nil (segment line).1, List.takeWhile_append_of_pos hwords]
      rfl
    simp [ofLine, htokens, hf, hsound]
  · rw [hfind] at h
    cases h
    simp [ofLine, ofSnippets_of_not_isWord hfind, soundSnippets]

theorem ofLine_of_isGood {line : Bytes} (h : isGood line = true) (n : UInt32) :
    ∃ tokens, ofLine n line = .ok tokens := by
  unfold isGood flaw? at h
  rcases hfind : (segment line).1.find? (!isWord ·) with _ | s
  · rw [hfind] at h
    have hfault : (segment line).2 = none := by simpa using h
    have hwords : ∀ s ∈ (segment line).1, s.isWord = true := by
      simpa using List.find?_eq_none.mp hfind
    obtain ⟨tokens, htokens⟩ := ofSnippets_of_isWord hwords n 0
    exact ⟨tokens, by simp [ofLine, htokens, hfault]⟩
  · rw [hfind] at h
    cases h

/-- The fault of a bad line bears its number. -/
theorem line_of_ofLine_error {n : UInt32} {line : Bytes} {fault : LexicalFault}
    (h : ofLine n line = .error fault) : fault.loc.line = n := by
  rcases hgood : isGood line with _ | _
  · obtain ⟨cause, hcause⟩ := exists_flaw hgood
    rw [ofLine_of_flaw hcause] at h
    cases h
    rfl
  · obtain ⟨tokens, htokens⟩ := ofLine_of_isGood hgood n
    rw [htokens] at h
    cases h

/-- Tokens stand at their line and at their number in it. -/
theorem placed_ofSnippets {n : UInt32} {column : Nat} {snippets : List Snippet}
    {tokens : List Token} (h : ofSnippets n column snippets = .ok tokens)
    (hcolumn : column + snippets.length ≤ UInt32.size) :
    tokens.map placed = wordsAt n.toNat (snippets.zipIdx column) := by
  induction snippets generalizing column tokens with
  | nil =>
    cases h
    rfl
  | cons s rest ih =>
    obtain ⟨w, more, hw, hmore, rfl⟩ := ofSnippets_cons h
    simp only [List.length_cons] at hcolumn
    have hsame : (UInt32.ofNat column).toNat = column := UInt32.toNat_ofNat_of_lt' (by omega)
    have hrest := ih hmore (by omega)
    simp only [wordsAt] at hrest ⊢
    simp [hw, hrest, placed, hsame]

end Token

/-! ## Several lines

The tokens are those of the good lines in front of the first bad one. -/

theorem goodLines_cons_good {line : Bytes} (h : isGood line = true) (rest : List Bytes) :
    goodLines (line :: rest) = line :: goodLines rest := by
  simp [goodLines, h]

theorem goodLines_cons_bad {line : Bytes} (h : isGood line = false) (rest : List Bytes) :
    goodLines (line :: rest) = [] := by
  simp [goodLines, h]

/-- The first `k` lines are good exactly if there are as many lines before the first bad one. -/
theorem le_length_goodLines_iff {lines : List Bytes} {k : Nat} (hk : k ≤ lines.length) :
    k ≤ (goodLines lines).length ↔ ∀ line ∈ lines.take k, isGood line = true := by
  constructor
  · intro hle line hline
    have hgood : goodLines lines = lines.take (goodLines lines).length :=
      List.prefix_iff_eq_take.mp (List.takeWhile_prefix _)
    have hmem : line ∈ goodLines lines := by
      rw [hgood]
      exact (List.take_prefix_take_left hle).subset hline
    exact List.all_eq_true.mp List.all_takeWhile line hmem
  · intro hgood
    have hsplit : goodLines lines = lines.take k ++ goodLines (lines.drop k) := by
      rw [goodLines, goodLines, ← List.takeWhile_append_of_pos hgood, List.take_append_drop]
    rw [hsplit, List.length_append, List.length_take, Nat.min_eq_left hk]
    exact Nat.le_add_right _ _

theorem line_of_mem_placedWords {lines : List Bytes} {w : Word} {i j : Nat}
    (h : (w, i, j) ∈ placedWords lines) : i ≤ (goodLines lines).length := by
  obtain ⟨⟨line, i'⟩, hline, hword⟩ := List.mem_flatMap.mp h
  obtain ⟨⟨s, j'⟩, -, hs⟩ := List.mem_filterMap.mp hword
  obtain ⟨w', -, heq⟩ := Option.map_eq_some_iff.mp hs
  cases heq
  have hlt := (List.mem_zipIdx hline).2.1
  omega

theorem exists_of_mem_placedWords {lines : List Bytes} {w : Word} {i j : Nat}
    (h : (w, i, j) ∈ placedWords lines) :
    ∃ line s, lines[i - 1]? = some line ∧ (segment line).1[j]? = some s ∧
      Word.classify? s.text = some w := by
  obtain ⟨⟨line, i'⟩, hline, hword⟩ := List.mem_flatMap.mp h
  obtain ⟨⟨s, j'⟩, hs, hplace⟩ := List.mem_filterMap.mp hword
  obtain ⟨w', hw, heq⟩ := Option.map_eq_some_iff.mp hplace
  cases heq
  obtain ⟨-, hgood⟩ := List.mk_mem_zipIdx_iff_le_and_getElem?_sub.mp hline
  obtain ⟨hlt, rfl⟩ := List.getElem?_eq_some_iff.mp hgood
  have hlines := List.prefix_iff_getElem?.mp (List.takeWhile_prefix isGood) (i - 1) hlt
  exact ⟨_, s, hlines, List.mk_mem_zipIdx_iff_getElem?.mp hs, hw⟩

namespace Lexed

/-- Lines are made into the tokens of their good lines. -/
theorem placed_tokens {n : UInt32} {lines : List Bytes}
    (hlines : n.toNat + lines.length ≤ UInt32.size)
    (hcolumns : ∀ line ∈ lines, (segment line).1.length < UInt32.size) :
    (ofLinesFrom n lines).tokens.map Token.placed = placedWordsFrom n.toNat lines := by
  induction lines generalizing n with
  | nil => rfl
  | cons line rest ih =>
    rw [ofLinesFrom]
    rcases hgood : isGood line with _ | _
    · obtain ⟨cause, hcause⟩ := exists_flaw hgood
      rw [Token.ofLine_of_flaw hcause, placedWordsFrom, goodLines_cons_bad hgood]
      rfl
    · obtain ⟨tokens, htokens⟩ := Token.ofLine_of_isGood hgood n
      have hcolumn := hcolumns line (by simp)
      have hfirst := Token.placed_ofSnippets (Token.ofLine_eq_ok htokens) (by omega)
      simp only [htokens, List.map_append, hfirst, placedWordsFrom, goodLines_cons_good hgood,
        List.zipIdx_cons, List.flatMap_cons]
      congr 1
      -- The number of the next line is needed only if there is one.
      rcases rest with _ | ⟨next, rest⟩
      · rfl
      · simp only [List.length_cons] at hlines
        have hsucc := toNat_succ (n := n) (by omega)
        have hrest := ih (n := n + 1) (by rw [List.length_cons]; omega)
          fun l hl => hcolumns l (by simp [hl])
        rw [hrest, hsucc, placedWordsFrom]

theorem fault_eq_none_iff {n : UInt32} {lines : List Bytes} :
    (ofLinesFrom n lines).fault = none ↔ ∀ line ∈ lines, isGood line = true := by
  induction lines generalizing n with
  | nil => simp [ofLinesFrom]
  | cons line rest ih =>
    rw [ofLinesFrom, List.forall_mem_cons]
    rcases hgood : isGood line with _ | _
    · obtain ⟨cause, hcause⟩ := exists_flaw hgood
      simp [Token.ofLine_of_flaw hcause]
    · obtain ⟨tokens, htokens⟩ := Token.ofLine_of_isGood hgood n
      simp [htokens, ih]

/-- The first bad line ends the tokens, and its flaw is the fault. -/
theorem ofLinesFrom_of_flaw {good : List Bytes} {bad : Bytes} {cause : LexicalCause}
    (hgood : ∀ line ∈ good, isGood line = true) (hbad : flaw? bad = some cause)
    (n : UInt32) (rest : List Bytes) :
    ofLinesFrom n (good ++ bad :: rest) =
      ⟨(ofLinesFrom n good).tokens, some ⟨cause, ⟨n + UInt32.ofNat good.length,
        UInt32.ofNat (soundSnippets bad).length⟩⟩⟩ := by
  rw [ofLinesFrom_append _ (fault_eq_none_iff.mpr hgood), ofLinesFrom,
    Token.ofLine_of_flaw hbad]
  simp

/-- A fault is the flaw of the first bad line, behind its sound snippets. -/
theorem exists_of_fault {n : UInt32} {lines : List Bytes} {fault : LexicalFault}
    (h : (ofLinesFrom n lines).fault = some fault) :
    ∃ good bad rest, lines = good ++ bad :: rest ∧ flaw? bad = some fault.cause ∧
      fault.loc = ⟨n + UInt32.ofNat good.length, UInt32.ofNat (soundSnippets bad).length⟩ := by
  have hsplit : goodLines lines ++ lines.dropWhile isGood = lines :=
    List.takeWhile_append_dropWhile
  have hgood : ∀ line ∈ goodLines lines, isGood line = true :=
    fun line hline => List.all_eq_true.mp List.all_takeWhile line hline
  rcases hbad : lines.dropWhile isGood with _ | ⟨bad, rest⟩
  · rw [hbad, List.append_nil] at hsplit
    rw [hsplit] at hgood
    rw [fault_eq_none_iff.mpr hgood] at h
    cases h
  · have hflaw : isGood bad = false := by
      have := List.head?_dropWhile_not isGood lines
      rw [hbad] at this
      exact this
    obtain ⟨cause, hcause⟩ := Snippet.exists_flaw hflaw
    rw [hbad] at hsplit
    rw [← hsplit, ofLinesFrom_of_flaw hgood hcause] at h
    cases h
    exact ⟨goodLines lines, bad, rest, hsplit.symm, hcause, rfl⟩

end Lexed

end LetFn
