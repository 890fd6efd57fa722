import LetFn.Proofs.Snippet
import LetFn.Source

/-!
# The lines of a text

Reading a text is reading the pieces between its line feeds (`ofText_eq_ofPieces`), up to the first
that does not fit: there is a fault exactly if one does not (`fault_ofText_eq_none_iff`). As far as
tokens go, the lines read and the pieces come to the same (`Lexed.ofLinesFrom_ofText`): reading
drops carriage returns from the ends of lines, and what is behind the last line feed if that is
empty, and neither has tokens.
-/

namespace LetFn

namespace Text

variable {sep : UInt8}

theorem splitAt_go (part s : Bytes) :
    splitAt.go sep part s = (splitAt sep s).modifyHead (part.reverse ++ ·) := by
  induction s generalizing part with
  | nil => simp [splitAt, splitAt.go]
  | cons b rest ih =>
    simp only [splitAt, splitAt.go]
    split
    · simp
    · rw [ih, ih [b], List.modifyHead_modifyHead]
      congr 1
      funext line
      simp

theorem splitAt_sep (rest : Bytes) : splitAt sep (sep :: rest) = [] :: splitAt sep rest := by
  simp [splitAt, splitAt.go]

theorem splitAt_cons {b : UInt8} (h : b ≠ sep) (rest : Bytes) :
    splitAt sep (b :: rest) = (splitAt sep rest).modifyHead (b :: ·) := by
  rw [splitAt, splitAt.go, if_neg h, splitAt_go]
  rfl

theorem splitAt_append {part : Bytes} (h : sep ∉ part) (rest : Bytes) :
    splitAt sep (part ++ rest) = (splitAt sep rest).modifyHead (part ++ ·) := by
  induction part with
  | nil => cases h : splitAt sep rest <;> simp [h]
  | cons b part ih =>
    rw [List.mem_cons, not_or] at h
    rw [List.cons_append, splitAt_cons (Ne.symm h.1), ih h.2, List.modifyHead_modifyHead]
    rfl

theorem splitAt_single {s : Bytes} (h : sep ∉ s) : splitAt sep s = [s] := by
  have hsplit := splitAt_append h []
  simpa [splitAt, splitAt.go] using hsplit

theorem splitAt_line {line : Bytes} (h : sep ∉ line) (rest : Bytes) :
    splitAt sep (line ++ sep :: rest) = line :: splitAt sep rest := by
  rw [splitAt_append h, splitAt_sep, List.modifyHead_cons, List.append_nil]

/-- The first piece begins as the whole does, unless it is empty. -/
theorem head?_of_splitAt {s line : Bytes} {lines : List Bytes}
    (h : splitAt sep s = line :: lines) : ∀ b ∈ line.head?, b ∈ s.head? := by
  rcases s with _ | ⟨c, rest⟩
  · cases h
    simp
  · by_cases hc : c = sep
    · rw [hc, splitAt_sep] at h
      cases h
      simp
    · rw [splitAt_cons hc] at h
      rcases hrest : splitAt sep rest with _ | ⟨line', lines'⟩
      · rw [hrest] at h
        cases h
      · rw [hrest] at h
        cases h
        simp

theorem splitAt_ne_nil (s : Bytes) : splitAt sep s ≠ [] := by
  induction s with
  | nil => simp [splitAt, splitAt.go]
  | cons b rest ih =>
    by_cases hb : b = sep
    · rw [hb, splitAt_sep]
      exact List.cons_ne_nil _ _
    · rw [splitAt_cons hb]
      obtain ⟨line, lines, hrest⟩ := List.exists_cons_of_ne_nil ih
      rw [hrest]
      exact List.cons_ne_nil _ _

/-- No piece has the separator in it. -/
theorem not_mem_of_mem_splitAt (s : Bytes) : ∀ piece ∈ splitAt sep s, sep ∉ piece := by
  induction s with
  | nil => simp [splitAt, splitAt.go]
  | cons b rest ih =>
    by_cases hb : b = sep
    · rw [hb, splitAt_sep, List.forall_mem_cons]
      exact ⟨List.not_mem_nil, ih⟩
    · rw [splitAt_cons hb]
      rcases hrest : splitAt sep rest with _ | ⟨line, lines⟩
      · exact absurd hrest (splitAt_ne_nil rest)
      · rw [hrest, List.forall_mem_cons] at ih
        rw [List.modifyHead_cons, List.forall_mem_cons, List.mem_cons, not_or]
        exact ⟨⟨Ne.symm hb, ih.1⟩, ih.2⟩

theorem join_cons_cons (part next : Bytes) (rest : List Bytes) :
    join [sep] (part :: next :: rest) = part ++ sep :: join [sep] (next :: rest) := by
  simp [join, List.intercalate]

theorem join_concat {parts : List Bytes} (hne : parts ≠ []) (part : Bytes) :
    join [sep] (parts ++ [part]) = join [sep] parts ++ [sep] ++ part := by
  induction parts with
  | nil => exact absurd rfl hne
  | cons first rest ih =>
    rcases rest with _ | ⟨next, rest⟩
    · simp [join, List.intercalate]
    · rw [List.cons_append, List.cons_append, join_cons_cons, ← List.cons_append,
        ih (List.cons_ne_nil _ _), join_cons_cons]
      simp

/-- Joined parts are found again where they were joined. -/
theorem splitAt_join {parts : List Bytes} (hne : parts ≠ []) (h : ∀ part ∈ parts, sep ∉ part) :
    splitAt sep (join [sep] parts) = parts := by
  induction parts with
  | nil => exact absurd rfl hne
  | cons part rest ih =>
    rw [List.forall_mem_cons] at h
    rcases rest with _ | ⟨next, rest⟩
    · simpa [join] using splitAt_single h.1
    · rw [join_cons_cons, splitAt_line h.1, ih (List.cons_ne_nil _ _) h.2]

end Text

namespace Source

open Text

/-! ## Pieces

A text is cut at its line feeds, and what is between them is read as lines as long as it fits. -/

/-- The piece can be read as a line. -/
def fits (piece : Bytes) : Bool := piece.length < limit

theorem fits_iff {piece : Bytes} : fits piece = true ↔ piece.length < limit := decide_eq_true_iff

/-- The pieces read as lines, up to the first that does not fit. Nothing is read behind the last
line feed if nothing is there. -/
def ofPieces : List Bytes → Source
  | [] => ofLines []
  | piece :: rest =>
    if piece = [] ∧ rest = [] then ofLines []
    else if fits piece then cons (dropReturn piece) (ofPieces rest)
    else failed .lineTooLong

variable {line : Bytes}

theorem takeWhile_of_not_mem (h : newline ∉ line) (tail : Bytes)
    (htail : ∀ b ∈ tail.head?, b = newline) :
    (line ++ tail).takeWhile (· != newline) = line ∧
      (line ++ tail).dropWhile (· != newline) = tail := by
  have hline : ∀ b ∈ line, (b != newline) = true := by
    intro b hb
    rw [bne_iff_ne]
    rintro rfl
    exact h hb
  rw [List.takeWhile_append_of_pos hline, List.dropWhile_append_of_pos hline]
  cases tail with
  | nil => simp
  | cons b rest => simp [htail b rfl]

/-- A source is read line by line, up to one that does not fit. -/
theorem ofText_line (h : newline ∉ line) (rest : Bytes) :
    ofText (line ++ newline :: rest) =
      if fits line then cons (dropReturn line) (ofText rest) else failed .lineTooLong := by
  obtain ⟨htake, hdrop⟩ := takeWhile_of_not_mem h (newline :: rest) (by simp)
  rw [ofText, if_neg (by simp)]
  simp only [htake, fits, decide_eq_true_eq]
  split
  · next hnil =>
    rw [hdrop] at hnil
    cases hnil
  · next b rest' hcons =>
    rw [hdrop] at hcons
    cases hcons
    rfl

theorem ofText_single (h : newline ∉ line) (hne : line ≠ []) :
    ofText line = if fits line then ofLines [dropReturn line] else failed .lineTooLong := by
  obtain ⟨htake, hdrop⟩ := takeWhile_of_not_mem h [] (by simp)
  rw [List.append_nil] at htake hdrop
  rw [ofText, if_neg (by simpa using hne)]
  simp only [htake, fits, decide_eq_true_eq]
  split
  · rfl
  · next b rest hcons =>
    rw [hdrop] at hcons
    cases hcons

/-- Reading a text is reading its pieces. -/
theorem ofText_eq_ofPieces (text : Bytes) : ofText text = ofPieces (splitAt newline text) := by
  by_cases hmem : newline ∈ text
  · obtain ⟨line, rest, htext, hline⟩ := List.eq_append_cons_of_mem hmem
    have hgoes : ¬(line = [] ∧ splitAt newline rest = []) := fun h => splitAt_ne_nil rest h.2
    rw [htext, ofText_line hline, splitAt_line hline, ofPieces, if_neg hgoes,
      ofText_eq_ofPieces rest]
  · rw [splitAt_single hmem, ofPieces]
    by_cases hne : text = []
    · rw [hne, ofText]
      rfl
    · have hgoes : ¬(text = [] ∧ ([] : List Bytes) = []) := fun h => hne h.1
      rw [ofText_single hmem hne, if_neg hgoes]
      rfl
termination_by text.length
decreasing_by
  rw [htext, List.length_append, List.length_cons]
  omega

/-! ## What reading leaves out

A reader drops a carriage return at the end of each line, and everything from the first line that is
too long. -/

/-- Nothing goes wrong in reading exactly if every piece fits. -/
theorem fault_ofPieces_eq_none_iff {pieces : List Bytes} :
    (ofPieces pieces).fault = none ↔ ∀ piece ∈ pieces, fits piece = true := by
  induction pieces with
  | nil => simp [ofPieces, ofLines]
  | cons piece rest ih =>
    rw [ofPieces, List.forall_mem_cons, ← ih]
    split
    · next hlast =>
      obtain ⟨rfl, rfl⟩ := hlast
      simp [ofLines, ofPieces, fits, limit]
    · split
      · next hfits => simp [cons, hfits]
      · next hfits => simp [failed, hfits]

theorem mem_of_mem_dropReturn {s : Bytes} {b : UInt8} (h : b ∈ dropReturn s) : b ∈ s := by
  rw [dropReturn] at h
  split at h
  · exact List.dropLast_subset s h
  · exact h

/-- Lines have no line feeds in them. -/
theorem newline_not_mem_of_ofText {text : Bytes} : ∀ line ∈ (ofText text).lines, newline ∉ line := by
  have hpieces : ∀ piece ∈ splitAt newline text, newline ∉ piece := not_mem_of_mem_splitAt text
  rw [ofText_eq_ofPieces]
  generalize splitAt newline text = pieces at hpieces
  induction pieces with
  | nil => simp [ofPieces, ofLines]
  | cons piece rest ih =>
    rw [List.forall_mem_cons] at hpieces
    rw [ofPieces]
    split
    · simp [ofLines]
    · split
      · rw [cons, List.forall_mem_cons]
        exact ⟨fun h => hpieces.1 (mem_of_mem_dropReturn h), ih hpieces.2⟩
      · simp [failed]

/-- A text is read to its end exactly if no line of it is over the limit. -/
theorem fault_ofText_eq_none_iff {text : Bytes} :
    (ofText text).fault = none ↔ ∀ line ∈ splitAt newline text, line.length < limit := by
  rw [ofText_eq_ofPieces, fault_ofPieces_eq_none_iff]
  simp only [fits_iff]

/-- Reading ends in front of a piece that does not fit, if it ends with a fault. -/
theorem exists_of_fault_ofPieces {pieces : List Bytes} (h : (ofPieces pieces).fault ≠ none) :
    ∃ piece, pieces[(ofPieces pieces).lines.length]? = some piece ∧ fits piece = false := by
  induction pieces with
  | nil => exact absurd rfl h
  | cons piece rest ih =>
    rw [ofPieces] at h ⊢
    split at h
    · exact absurd rfl h
    · next hlast =>
      rw [if_neg hlast]
      split at h
      · next hfits =>
        obtain ⟨long, hplace, hlong⟩ := ih h
        exact ⟨long, by rw [if_pos hfits]; exact hplace, hlong⟩
      · next hfits =>
        exact ⟨piece, by rw [if_neg hfits]; rfl, by simpa using hfits⟩

theorem length_dropReturn_le (s : Bytes) : (dropReturn s).length ≤ s.length := by
  unfold dropReturn
  split <;> simp

theorem fits_of_mem_ofPieces {pieces : List Bytes} :
    ∀ line ∈ (ofPieces pieces).lines, fits line = true := by
  induction pieces with
  | nil => simp [ofPieces, ofLines]
  | cons piece rest ih =>
    rw [ofPieces]
    split
    · simp [ofLines]
    · split
      · next hfits =>
        have hle := length_dropReturn_le piece
        rw [fits_iff] at hfits
        simp only [cons, List.forall_mem_cons]
        exact ⟨fits_iff.mpr (by omega), ih⟩
      · simp [failed]

end Source

/-! ## Tokens

Neither of the two can be seen in the tokens of what was read: a carriage return is white space. -/

theorem Token.ofLine_dropReturn (n : UInt32) (line : Bytes) :
    ofLine n (Text.dropReturn line) = ofLine n line := by
  rw [ofLine, ofLine, Snippet.segment_dropReturn]

theorem Token.ofLine_nil (n : UInt32) : ofLine n [] = .ok [] := by
  rw [ofLine, Snippet.segment, Snippet.segmentFrom_nothing rfl]
  rfl

/-- Reading a text gives the tokens of its pieces in front of the first that does not fit. -/
theorem Lexed.ofLinesFrom_ofText (n : UInt32) (text : Bytes) :
    ofLinesFrom n (Source.ofText text).lines =
      ofLinesFrom n ((Text.splitAt Text.newline text).takeWhile Source.fits) := by
  rw [Source.ofText_eq_ofPieces]
  generalize Text.splitAt Text.newline text = pieces
  induction pieces generalizing n with
  | nil => rfl
  | cons piece rest ih =>
    rw [Source.ofPieces]
    split
    · next hlast =>
      obtain ⟨rfl, rfl⟩ := hlast
      show ofLinesFrom n [] = ofLinesFrom n [[]]
      rw [ofLinesFrom, ofLinesFrom, Token.ofLine_nil]
      rfl
    · split
      · next hfits =>
        rw [List.takeWhile_cons, if_pos hfits, ofLinesFrom, Source.cons, ofLinesFrom,
          Token.ofLine_dropReturn, ih]
      · next hfits => rw [List.takeWhile_cons, if_neg hfits, Source.failed]

/-- If all pieces fit, these are the tokens of all pieces. -/
theorem Lexed.ofLinesFrom_ofText_of_fits (n : UInt32) {text : Bytes}
    (h : ∀ line ∈ Text.splitAt Text.newline text, line.length < Source.limit) :
    ofLinesFrom n (Source.ofText text).lines = ofLinesFrom n (Text.splitAt Text.newline text) := by
  rw [ofLinesFrom_ofText, List.takeWhile_eq_self_iff.mpr]
  intro line hline
  exact Source.fits_iff.mpr (h line hline)

end LetFn
