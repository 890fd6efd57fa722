import Mathlib.Data.List.TakeWhile
import LetFn.Proofs.Token.Reading

/-!
# Where snippets stand

A scan is decided by the first byte that is not white space (`scan_cases`). Offsets are what they
say: the fault that ends a line is about the character at its offset (`segment_fault_place`). A
carriage return at the end of a line is white space like any other, so it makes no difference
whether it has been dropped (`segment_dropReturn`).
-/

namespace LetFn.Snippet

open Category Text

/-! ## What a scan finds

A scan skips white space, then finds a comment, a run or a foreign byte, or nothing at all.
`scan_cases` is this case split for all lemmas about segmentation. -/

/-- The first byte that is not white space. -/
def front? (line : Bytes) : Option UInt8 := line.find? fun b => !isBlank b

theorem front?_eq_head? (line : Bytes) : front? line = (line.dropWhile isBlank).head? := by
  simp [front?, List.find?_eq_head?_dropWhile_not]

theorem opensComment_cons {b : UInt8} {run : Bytes} (h : opensComment (b :: run) = true) :
    b = '/'.toUInt8 := by
  simp only [opensComment, beq_iff_eq, List.take_succ_cons] at h
  exact (List.cons.inj h).1

/-- A scan goes to the first byte that is not white space, and that byte decides: there is none or
it opens a comment, or it is not ASCII, or it begins a snippet. -/
theorem scan_cases (offset : Nat) (line : Bytes) :
    (∀ b ∈ front? line, b = '/'.toUInt8) ∧ scan offset line = .nothing ∨
      (∃ gap b rest, line = gap ++ b :: rest ∧ isAscii b = false ∧
        scan offset line = .fault ⟨offset + gap.length, leadingChar (b :: rest)⟩) ∨
      ∃ gap b run rest, line = gap ++ (b :: run) ++ rest ∧ front? line = some b ∧
        scan offset line = .snippet ⟨b :: run, offset + gap.length⟩ rest := by
  have hline := List.takeWhile_append_dropWhile (p := isBlank) (l := line)
  rw [front?_eq_head?]
  rcases hdrop : line.dropWhile isBlank with _ | ⟨b, tail⟩
  · exact .inl ⟨by simp, by simp [scan, hdrop]⟩
  rw [hdrop] at hline
  rcases hascii : isAscii b with _ | _
  · exact .inr (.inl ⟨_, b, tail, hline.symm, hascii, by simp [scan, hdrop, hascii]⟩)
  rcases hopens : opensComment (b :: tail.takeWhile (continues b)) with _ | _
  · refine .inr (.inr ⟨line.takeWhile isBlank, b, tail.takeWhile (continues b),
      tail.dropWhile (continues b), ?_, rfl, by simp [scan, hdrop, hascii, hopens]⟩)
    rw [List.append_assoc, List.cons_append, List.takeWhile_append_dropWhile, hline]
  · refine .inl ⟨?_, by simp [scan, hdrop, hascii, hopens]⟩
    rintro c ⟨⟩
    exact opensComment_cons hopens

/-! ## Offsets -/

theorem segmentFrom_fault_place {offset : Nat} {line : Bytes} {f : SegmentFault}
    (h : (segmentFrom offset line).2 = some f) :
    ∃ front b rest, line = front ++ b :: rest ∧ f.offset = offset + front.length ∧
      isAscii b = false ∧ f.char = leadingChar (b :: rest) := by
  fun_induction segmentFrom offset line with
  | case1 offset line hscan => cases h
  | case2 offset line g hscan =>
    cases h
    obtain ⟨-, hnone⟩ | ⟨gap, b, rest, hline, hascii, hfault⟩ | ⟨gap, b, run, rest, -, -, hsome⟩ :=
      scan_cases offset line
    · cases hscan.symm.trans hnone
    · cases hscan.symm.trans hfault
      exact ⟨gap, b, rest, hline, rfl, hascii, rfl⟩
    · cases hscan.symm.trans hsome
  -- The fault is behind the snippet, and so is what is left in front of it.
  | case3 offset line s rest hscan after ih =>
    obtain ⟨-, hnone⟩ | ⟨_, _, _, -, -, hfault⟩ | ⟨gap, c, run, left, hline, -, hsome⟩ :=
      scan_cases offset line
    · cases hscan.symm.trans hnone
    · cases hscan.symm.trans hfault
    · cases hscan.symm.trans hsome
      obtain ⟨front, b, tail, hrest, hoffset, hascii, hchar⟩ := ih h
      refine ⟨gap ++ (c :: run) ++ front, b, tail, ?_, ?_, hascii, hchar⟩
      · rw [hline, hrest, List.append_assoc (gap ++ (c :: run))]
      · rw [hoffset, stop]
        simp only [List.length_append]
        omega

/-- The fault of a line is about the character that begins at its offset, which is not ASCII. -/
theorem segment_fault_place {text : Bytes} {f : SegmentFault} (h : (segment text).2 = some f) :
    (∃ b, text[f.offset]? = some b ∧ isAscii b = false) ∧
      f.char = leadingChar (text.drop f.offset) := by
  obtain ⟨front, b, rest, rfl, hoffset, hascii, hchar⟩ := segmentFrom_fault_place h
  rw [Nat.zero_add] at hoffset
  rw [hoffset, List.drop_left]
  exact ⟨⟨b, by simp, hascii⟩, hchar⟩

theorem length_segmentFrom_le (offset : Nat) (line : Bytes) :
    (segmentFrom offset line).1.length ≤ line.length := by
  fun_induction segmentFrom offset line with
  | case1 offset line hscan => exact Nat.zero_le _
  | case2 offset line g hscan => exact Nat.zero_le _
  | case3 offset line s rest hscan after ih =>
    rw [List.length_cons]
    exact Nat.lt_of_le_of_lt ih (length_lt_of_scan hscan)

/-! ## Carriage returns

A carriage return is white space, so one at the end of a line makes no snippet and joins none. -/

/-- A carriage return is no part of a character that is not ASCII. -/
theorem decode?_append_return {s : Bytes} (h : s ≠ []) :
    decode? (s ++ [carriageReturn]) =
      (decode? s).map fun (c, rest) => (c, rest ++ [carriageReturn]) := by
  have hreturn : isTail carriageReturn = false := by decide
  -- No character has more than four bytes.
  rcases s with _ | ⟨a, _ | ⟨b, _ | ⟨c, _ | ⟨d, rest⟩⟩⟩⟩
  · exact absurd rfl h
  all_goals
    simp only [decode?, List.cons_append, List.nil_append, hreturn, Bool.and_false,
      Bool.false_eq_true, if_false]
    repeat' split
  all_goals simp [Function.comp_def]

theorem leadingChar_append_return {s : Bytes} (h : s ≠ []) :
    leadingChar (s ++ [carriageReturn]) = leadingChar s := by
  unfold leadingChar
  rw [decode?_append_return h]
  rcases decode? s with _ | ⟨c, rest⟩ <;> rfl

theorem takeWhile_concat {α : Type} {p : α → Bool} {b : α} (hb : p b = false) (s : List α) :
    (s ++ [b]).takeWhile p = s.takeWhile p ∧ (s ++ [b]).dropWhile p = s.dropWhile p ++ [b] := by
  induction s with
  | nil => simp [hb]
  | cons c rest ih => by_cases hc : p c <;> simp [hc, ih]

/-- What is found if `tail` follows what is left of the line. -/
def Found.followedBy (tail : Bytes) : Found → Found
  | .snippet s rest => .snippet s (rest ++ tail)
  | .fault f => .fault f
  | .nothing => .nothing

theorem scan_append_return (offset : Nat) (line : Bytes) :
    scan offset (line ++ [carriageReturn]) = (scan offset line).followedBy [carriageReturn] := by
  have hreturn : isBlank carriageReturn = true := by decide
  induction line generalizing offset with
  | nil => simp [scan, hreturn, Found.followedBy]
  | cons b rest ih =>
    rcases hb : isBlank b with _ | _
    · obtain ⟨hrun, hleft⟩ := takeWhile_concat (not_continues_blank hb hreturn) rest
      have hchar := leadingChar_append_return (s := b :: rest) (by simp)
      rw [List.cons_append] at hchar
      simp only [scan, List.cons_append, List.dropWhile_cons, List.takeWhile_cons, hb,
        Bool.false_eq_true, if_false, hrun, hleft, hchar]
      repeat' split
      all_goals rfl
    · rw [List.cons_append, scan_blank hb, scan_blank hb, ih]

theorem segmentFrom_append_return (offset : Nat) (line : Bytes) :
    segmentFrom offset (line ++ [carriageReturn]) = segmentFrom offset line := by
  have hscan := scan_append_return offset line
  fun_induction segmentFrom offset line with
  | case1 offset line h =>
    rw [h] at hscan
    exact segmentFrom_nothing hscan
  | case2 offset line f h =>
    rw [h] at hscan
    exact segmentFrom_fault hscan
  | case3 offset line s rest h after ih =>
    rw [h] at hscan
    rw [segmentFrom_snippet hscan, ih (scan_append_return _ _)]

/-- Dropping a carriage return from the end of a line changes none of its snippets. -/
theorem segment_dropReturn (line : Bytes) : segment (dropReturn line) = segment line := by
  unfold dropReturn
  split
  · next h =>
    obtain ⟨s, rfl⟩ := List.getLast?_eq_some_iff.mp h
    rw [List.dropLast_concat]
    exact (segmentFrom_append_return 0 s).symm
  · rfl

end LetFn.Snippet
