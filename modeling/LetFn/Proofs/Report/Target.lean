import LetFn.Failure
import LetFn.Proofs.Parse.Text
import LetFn.Proofs.Token.Line

/-!
# What a location points at

A report about a file reads the file anew and cuts the line in question into snippets anew, and all
it has to go by is a location. It finds what parsing complained about all the same
(`pointsAt_of_parseLines`): the snippet with the index that the location names is the unexpected
word, the snippet that is no word, or the character that is not ASCII.

A fault of parsing is located in one of two ways, and there is a lemma for each. A bad line has as
many sound snippets as the column says, so what is at fault comes next (`pointsAt_of_fault`); the
character that ends segmentation counts as a snippet there. A token that was not expected has the
index of its snippet as its column (`pointsAt_of_token`). Reports drop one more carriage return at
the end of a line than parsing does, and the snippets do not change by that.
-/

namespace LetFn

open Snippet

namespace Report

/-! ## What a report points at -/

/-- The snippet, found in the line `text`, is what the cause is about. -/
inductive PointsAt (text : Bytes) (s : Snippet) : ParseCause → Prop where
  /-- A word that was not expected. -/
  | word {expected : Parser.Expected} {w : Word} (hw : s.text = w.spelling) :
    PointsAt text s (.unexpected expected (some w))
  /-- A snippet that is no word. -/
  | snippet {invalid : Bytes} (htext : s.text = invalid) :
    PointsAt text s (.lexical (.invalid invalid))
  /-- A character that is not ASCII, U+FFFD if there is none, at the offset that is reported. -/
  | char {f : SegmentFault} (htext : s.text = String.utf8EncodeChar f.char)
    (hoffset : s.offset = f.offset)
    (hplace : ∃ b, text[f.offset]? = some b ∧ Category.isAscii b = false)
    (hchar : f.char = leadingChar (text.drop f.offset)) :
    PointsAt text s (.lexical (.segment f))

/-! ## Snippets of a line

Snippets before the flaw are words, and the column counts them: the visible snippet of that index is
the one in question. -/

theorem getElem?_length_takeWhile {α : Type} (p : α → Bool) (l : List α) :
    l[(l.takeWhile p).length]? = l.find? fun a => !p a := by
  induction l with
  | nil => rfl
  | cons a rest ih => by_cases ha : p a <;> simp [ha, ih]

theorem visibleSnippets_of_fault {line : Bytes} {f : SegmentFault} (h : (segment line).2 = some f) :
    visibleSnippets line = (segment line).1 ++ [⟨String.utf8EncodeChar f.char, f.offset⟩] := by
  unfold visibleSnippets
  split
  · next hline => simp [hline] at h
  · next snippets fault hline =>
    rw [hline] at h
    cases h
    rw [hline]

theorem visibleSnippets_getElem? {line : Bytes} {j : Nat} {s : Snippet}
    (h : (segment line).1[j]? = some s) : (visibleSnippets line)[j]? = some s := by
  unfold visibleSnippets
  split
  · next hline => simpa [hline] using h
  · next snippets fault hline =>
    rw [hline] at h
    rw [List.getElem?_append_left (List.getElem?_eq_some_iff.mp h).1]
    exact h

/-- Behind the sound snippets of a bad line is what its flaw is about. -/
theorem pointsAt_of_flaw {line : Bytes} {cause : LexicalCause} (h : flaw? line = some cause) :
    ∃ s, (visibleSnippets line)[(soundSnippets line).length]? = some s ∧
      PointsAt line s (.lexical cause) := by
  have hfind := getElem?_length_takeWhile isWord (segment line).1
  unfold flaw? at h
  split at h
  · next s hs =>
    cases h
    rw [hs] at hfind
    exact ⟨s, visibleSnippets_getElem? hfind, .snippet rfl⟩
  · next hnone =>
    obtain ⟨f, hf, rfl⟩ := Option.map_eq_some_iff.mp h
    rw [hnone, List.getElem?_eq_none_iff] at hfind
    -- All snippets are sound, so the fault of segmentation comes behind all of them.
    have hall : (soundSnippets line).length = (segment line).1.length := by
      have hle := (List.takeWhile_prefix (l := (segment line).1) isWord).length_le
      rw [soundSnippets]
      omega
    obtain ⟨hplace, hchar⟩ := segment_fault_place hf
    refine ⟨⟨String.utf8EncodeChar f.char, f.offset⟩, ?_, .char rfl rfl hplace hchar⟩
    rw [visibleSnippets_of_fault hf, hall]
    simp

/-! ## Lines of a source

The line in question is found by its number, which only wraps in sources that are too long. -/

theorem lineNumbered_append (good : List Bytes) (line : Bytes) (rest : List Bytes) :
    lineNumbered (good ++ line :: rest) (good.length + 1) = some (Text.dropReturn line) := by
  simp [lineNumbered]

theorem lineNumbered_of_isValid (lines : List Bytes) {loc : Location} (h : loc.isValid = true) :
    lineNumbered lines loc.line.toNat = lines[loc.line.toNat - 1]?.map Text.dropReturn := by
  have hpos : 0 < loc.line.toNat := by
    simpa [Location.isValid, UInt32.lt_iff_toNat_lt] using h
  obtain ⟨k, hk⟩ := Nat.exists_eq_add_of_lt hpos
  rw [hk]
  simp [lineNumbered]

section Places

variable {lines : List Bytes} (hlines : lines.length < UInt32.size)
  (hsnippets : ∀ line ∈ lines, (segment line).1.length < UInt32.size)

include hlines hsnippets

/-- A fault of the lines stands where its line is bad: the column counts the snippets in front of
the flaw. -/
theorem pointsAt_of_fault {fault : LexicalFault}
    (h : (Lexed.ofLines lines).fault = some fault) :
    ∃ line s, lineNumbered lines fault.loc.line.toNat = some line ∧
      (visibleSnippets line)[fault.loc.column.toNat]? = some s ∧
      PointsAt line s (.lexical fault.cause) := by
  obtain ⟨good, bad, rest, rfl, hflaw, hloc⟩ := Lexed.exists_of_fault h
  -- The line is read again with a carriage return less, which changes no snippet.
  have hshown : flaw? (Text.dropReturn bad) = some fault.cause := by
    rw [flaw?, segment_dropReturn]
    exact hflaw
  have hsound : soundSnippets (Text.dropReturn bad) = soundSnippets bad := by
    rw [soundSnippets, segment_dropReturn, soundSnippets]
  have hline : fault.loc.line.toNat = good.length + 1 := by
    rw [hloc]
    apply Lexed.toNat_lineNumber
    rw [List.length_append, List.length_cons] at hlines
    omega
  have hcolumn : fault.loc.column.toNat = (soundSnippets bad).length := by
    rw [hloc]
    apply UInt32.toNat_ofNat_of_lt'
    have hle := (List.takeWhile_prefix (l := (segment bad).1) isWord).length_le
    exact Nat.lt_of_le_of_lt hle (hsnippets bad (by simp))
  obtain ⟨s, hs, hpoints⟩ := pointsAt_of_flaw hshown
  rw [hsound] at hs
  rw [hline, hcolumn, lineNumbered_append]
  exact ⟨_, s, rfl, hs, hpoints⟩

/-- A token of the lines stands where its snippet does. -/
theorem pointsAt_of_token {t : Token} (ht : t ∈ (Lexed.ofLines lines).tokens)
    (hvalid : t.loc.isValid = true) (expected : Parser.Expected) :
    ∃ line s, lineNumbered lines t.loc.line.toNat = some line ∧
      (visibleSnippets line)[t.loc.column.toNat]? = some s ∧
      PointsAt line s (.unexpected expected (some t.word)) := by
  have hnumbers : (1 : UInt32).toNat + lines.length ≤ UInt32.size := by
    rw [Nat.add_comm]
    exact hlines
  have hplaced : t.placed ∈ placedWords lines := by
    show t.placed ∈ placedWordsFrom (1 : UInt32).toNat lines
    rw [← Lexed.placed_tokens hnumbers hsnippets]
    exact List.mem_map_of_mem ht
  obtain ⟨line, s, hline, hs, hw⟩ := exists_of_mem_placedWords hplaced
  refine ⟨Text.dropReturn line, s, ?_, ?_, .word (Word.spelling_of_classify? hw).symm⟩
  · rw [lineNumbered_of_isValid lines hvalid]
    exact congrArg (Option.map Text.dropReturn) hline
  · apply visibleSnippets_getElem?
    rw [segment_dropReturn]
    exact hs

/-- Where a fault is located, the line has the snippet that the fault is about. -/
theorem pointsAt_of_parseLines {f : ParseFault} (hf : parseLines lines = .error f)
    (hvalid : f.loc.isValid = true) :
    ∃ line s, lineNumbered lines f.loc.line.toNat = some line ∧
      (visibleSnippets line)[f.loc.column.toNat]? = some s ∧ PointsAt line s f.cause := by
  rcases f with ⟨cause | ⟨expected, found⟩, loc⟩
  · exact pointsAt_of_fault hlines hsnippets (Lexed.fault_of_parse hf)
  · obtain ⟨rest, hmodule, -, rfl, rfl⟩ := Lexed.parse_eq_unexpected.mp hf
    rcases rest with _ | ⟨token, rest⟩
    · -- The end of the source has no place.
      have hunknown : Location.unknown.isValid = true := hvalid
      exact absurd hunknown (by decide)
    · obtain ⟨taken, htokens, -⟩ := Parser.deadEnd_of_module hmodule
      have hmem : token ∈ (Lexed.ofLines lines).tokens := by simp [htokens]
      exact pointsAt_of_token hlines hsnippets hmem hvalid expected

end Places

/-- If no line up to the one after the line in question is over the limit, no fault is met in
reading them. -/
theorem readable_of_fits {text : Bytes} {n : Nat}
    (hfits : ∀ piece ∈ (Text.splitAt Text.newline text).take (n + 1),
      piece.length < Source.limit) :
    (Source.ofText text).fault = none ∨ n + 1 ≤ (Source.ofText text).lines.length := by
  rcases hfault : (Source.ofText text).fault with _ | fault
  · exact .inl rfl
  · right
    -- The reader stopped at a line over the limit, so that line is not among the first ones.
    apply Nat.le_of_not_lt
    intro hshort
    have hsome : (Source.ofPieces (Text.splitAt Text.newline text)).fault ≠ none := by
      rw [← Source.ofText_eq_ofPieces, hfault]
      exact Option.some_ne_none _
    obtain ⟨piece, hpiece, hlong⟩ := Source.exists_of_fault_ofPieces hsome
    rw [← Source.ofText_eq_ofPieces] at hpiece
    have hmem : piece ∈ (Text.splitAt Text.newline text).take (n + 1) := by
      apply List.mem_of_getElem? (i := (Source.ofText text).lines.length)
      rw [List.getElem?_take_of_lt hshort]
      exact hpiece
    rw [Source.fits_iff.mpr (hfits piece hmem)] at hlong
    cases hlong

end Report

end LetFn
