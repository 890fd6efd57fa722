import Mathlib.Data.List.Basic
import LetFn.Failure
import LetFn.Proofs.Snippet.Exact
import LetFn.Proofs.Source
import LetFn.Proofs.Text.Units

/-!
# Frames are aligned

The frame of a report is written with bytes, and some of its widths are counted in bytes and some in
characters. Seen as characters, its rows are aligned all the same (`report_aligned`): the gutters
and the two junctions stand in one column, and the carets stand under the characters of the snippet
that they are about.

Two things make this so. The number of the next line has at most one digit more than that of the
line in question, and the gutter leaves room for it. And what stands in front of a snippet is ASCII,
so there bytes and characters are the same (`rebuild_visible`): only the character that ends
segmentation can have several bytes, and nothing is shown behind it.
-/

namespace LetFn

open Snippet
open Category (isAscii isBlank)
open Text (units encode Piece newline blank)

namespace Report

/-! ## What a line shows -/

/-- How a report shows a piece of the line in question: white space as a blank, and U+FFFD for what
is no character. -/
def shownChar (p : Piece) : Char := if p.bytes.all isBlank then ' ' else p.toChar

/-- The pieces of a line up to the end of its last snippet, where the character that ends
segmentation counts as a snippet. -/
def shownPieces (line : Bytes) : List Piece :=
  match Snippet.segment line with
  | (snippets, none) => units (line.take ((snippets.getLast?.map stop).getD 0))
  | (_, some fault) => units (line.take fault.offset) ++ (units (line.drop fault.offset)).take 1

/-- The line in question as a report shows it. -/
def shownLine (line : Bytes) : List Char := (shownPieces line).map shownChar

/-! ## Rows

What the rows of a frame have to look like, said of their characters and not of their bytes: a rule
with a junction, or a margin, a gutter and a text. -/

/-- A rule: dashes up to a junction in the given column, and `width` dashes behind it. -/
def IsRule (column : Nat) (junction : Char) (width : Nat) (row : Bytes) : Prop :=
  units row = (List.replicate column '─' ++ junction :: List.replicate width '─').map .char

/-- A row with its gutter in the given column: in front of it blanks, a number and one blank, and
behind it a text. -/
def IsRow (column : Nat) (number : List Char) (text : List Piece) (row : Bytes) : Prop :=
  ∃ pad margin, margin = List.replicate pad ' ' ++ number ++ [' '] ∧ margin.length = column ∧
    units row = margin.map .char ++ .char '│' :: text

/-- The number of a neighbour, if it exists. -/
def neighbourNumber (n : Nat) (neighbour : Option Bytes) : List Char :=
  if neighbour.isSome then Nat.toDigits 10 n else []

/-- The text of a neighbour behind a blank; nothing if there is no text. -/
def neighbourText (neighbour : Option Bytes) : List Piece :=
  match neighbour.getD [] with
  | [] => []
  | b :: rest => .char ' ' :: units (b :: rest)

/-- The seven rows of a frame. -/
structure Rows where
  top : Bytes
  previous : Bytes
  empty : Bytes
  failing : Bytes
  caret : Bytes
  next : Bytes
  bottom : Bytes

/-- The rows from top to bottom. -/
def Rows.toList (rows : Rows) : List Bytes :=
  [rows.top, rows.previous, rows.empty, rows.failing, rows.caret, rows.next, rows.bottom]

/-- Rows that frame line `n` of some lines, which shows as `before ++ target ++ after`: junctions
and gutters stand in the given column, and each character of the target has a caret below it. -/
structure Aligned (lines : List Bytes) (n column width : Nat) (before target after : List Char)
    (rows : Rows) : Prop where
  top : IsRule column '┬' width rows.top
  previous : IsRow column (neighbourNumber (n - 1) (lineNumbered lines (n - 1)))
    (neighbourText (lineNumbered lines (n - 1))) rows.previous
  empty : IsRow column [] [] rows.empty
  failing : IsRow column (Nat.toDigits 10 n)
    ((' ' :: (before ++ target ++ after)).map .char) rows.failing
  caret : IsRow column []
    ((' ' :: (List.replicate before.length ' ' ++ List.replicate target.length '^')).map .char)
    rows.caret
  next : IsRow column (neighbourNumber (n + 1) (lineNumbered lines (n + 1)))
    (neighbourText (lineNumbered lines (n + 1))) rows.next
  bottom : IsRule column '┴' width rows.bottom

/-! ## Numbers and the gutter

The gutter is as wide as the number of the line in question, plus one; its neighbours' numbers are
no longer than that. -/

theorem length_decimal (n : Nat) : (Text.decimal n).length = (Nat.toDigits 10 n).length :=
  List.length_map _

/-- The numbers up to that of the next line fit in front of the gutter. -/
theorem length_toDigits_le_gutter {m n : Nat} (h : m ≤ n + 1) :
    (Nat.toDigits 10 m).length ≤ gutter n := by
  have hn : n < 10 ^ (Nat.toDigits 10 n).length :=
    (Nat.length_toDigits_le_iff (by decide) Nat.length_toDigits_pos).mp le_rfl
  -- A number below a power of ten is followed by one below the next power.
  rw [gutter, length_decimal, Nat.length_toDigits_le_iff (by decide) (Nat.succ_pos _), Nat.pow_succ]
  omega

/-- The number of the line in question fits as well. -/
theorem length_decimal_le_gutter (n : Nat) : (Text.decimal n).length ≤ gutter n :=
  (length_decimal n).le.trans (length_toDigits_le_gutter (Nat.le_succ n))

/-! ## Rows with a gutter

Margins are blanks and digits, one byte each, so a number that fits into the gutter as bytes fits as
characters. -/

/-- A rule is encoded characters only. -/
theorem ruleRow_eq (look : Look) (pad : Nat) (junction : Char) :
    ruleRow look pad (String.singleton junction) =
      encode (List.replicate (pad + 1) '─' ++ junction :: List.replicate look.width '─') := by
  have hdash : Text.utf8 "─" = String.utf8EncodeChar '─' := rfl
  rw [ruleRow, dashes, dashes, hdash, Text.times_eq_encode, Text.times_eq_encode,
    List.replicate_succ', Text.encode_append, Text.encode_append, Text.encode_cons]
  simp [Text.utf8, List.append_assoc]

/-- The junction stands behind as many dashes as there are columns in front of the gutter. -/
theorem isRule_ruleRow (look : Look) (pad : Nat) (junction : Char) :
    IsRule (pad + 1) junction look.width (ruleRow look pad (String.singleton junction)) := by
  rw [IsRule, ruleRow_eq, Text.units_encode]

/-- Whatever is written behind a number that fits and the gutter makes a row. -/
theorem isRow_of_fits {pad : Nat} {number : List Char} (h : number.length ≤ pad) (text : Bytes) :
    IsRow (pad + 1) number (units text)
      (encode (List.replicate (pad - number.length) ' ' ++ number) ++
        (Text.utf8 " │" ++ text)) := by
  have hgutter : Text.utf8 " │" = encode [' ', '│'] := rfl
  refine ⟨pad - number.length, _, rfl, ?_, ?_⟩
  · simp only [List.length_append, List.length_replicate, List.length_singleton]
    omega
  · rw [hgutter, Text.units_encode_append, Text.units_encode_append]
    simp

/-- A number that fits and a text behind a blank make a row. -/
theorem isRow_textRow {pad : Nat} {number : List Char} (h : number.length ≤ pad)
    (hnumber : (encode number).length = number.length) (text : Bytes) :
    IsRow (pad + 1) number (neighbourText (some text)) (textRow pad (encode number) text) := by
  have hrow := isRow_of_fits h (if text.isEmpty then [] else Text.utf8 " " ++ text)
  rw [Text.encode_append, ← Text.blanks_eq_encode, ← hnumber] at hrow
  have htext : units (if text.isEmpty then [] else Text.utf8 " " ++ text) =
      neighbourText (some text) := by
    cases text with
    | nil => exact Text.units_nil
    | cons b rest => exact Text.units_encode_append [' '] (b :: rest)
  rwa [htext, ← List.append_assoc] at hrow

/-! ## The line in question

White space is shown as blanks, one for each byte, so no tab moves what stands behind it. -/

/-- The text with a blank for each byte of white space. -/
def blanked (s : Bytes) : Bytes := s.map fun b => if isBlank b then blank else b

theorem blanked_append (s t : Bytes) : blanked (s ++ t) = blanked s ++ blanked t := List.map_append

theorem blanked_gap {gap : Bytes} (h : Blank gap) : blanked gap = Text.blanks gap.length := by
  rw [Text.blanks, blanked, List.eq_replicate_iff]
  refine ⟨List.length_map _, fun c hc => ?_⟩
  obtain ⟨b, hb, rfl⟩ := List.mem_map.mp hc
  rw [if_pos (h b hb)]

theorem blanked_run {text : Bytes} (h : isRun text = true) : blanked text = text := by
  have hsame : ∀ b ∈ text, (if isBlank b then blank else b) = b := by
    intro b hb
    rw [isBlank_of_mem_isRun h b hb]
    rfl
  rw [blanked, List.map_congr_left hsame, List.map_id']

/-- Text that is ASCII shows its bytes, blanks for white space. -/
theorem encode_shown_ascii {s : Bytes} (h : ∀ b ∈ s, isAscii b = true) :
    encode ((Text.asciiChars s).map fun c => shownChar (.char c)) = blanked s := by
  induction s with
  | nil => rfl
  | cons b rest ih =>
    obtain ⟨hb, hrest⟩ := List.forall_mem_cons.mp h
    have hbytes := (Text.encode_ascii hb).1
    have hshown : String.utf8EncodeChar (shownChar (.char (Char.ofNat b.toNat))) =
        [if isBlank b then blank else b] := by
      rw [shownChar, Piece.bytes, hbytes, Piece.toChar]
      rcases hblank : isBlank b with _ | _
      · simpa [hblank] using hbytes
      · simp only [List.all_cons, hblank, List.all_nil, Bool.and_self, if_true]
        rfl
    rw [Text.asciiChars, List.map_cons, List.map_cons, Text.encode_cons, hshown]
    exact congrArg (_ :: ·) (ih hrest)

/-- Where a text is not ASCII, the character that begins there is shown. -/
theorem exists_units_of_stray {b : UInt8} (hb : isAscii b = false) (rest : Bytes) :
    ∃ p more, units (b :: rest) = p :: more ∧ shownChar p = leadingChar (b :: rest) := by
  have hblank := isBlank_of_not_isAscii hb
  rcases hdecode : Text.decode? (b :: rest) with _ | ⟨c, left⟩
  · refine ⟨_, _, Text.units_of_stray hdecode, ?_⟩
    simp [shownChar, Piece.bytes, hblank, leadingChar, hdecode, Piece.toChar]
  · refine ⟨_, _, Text.units_of_decode? hdecode, ?_⟩
    -- The character is encoded from `b` on, and `b` is no white space.
    have hbytes := Text.decode?_eq_some_iff.mp hdecode
    have hmem : b ∈ String.utf8EncodeChar c := by
      rcases hc : String.utf8EncodeChar c with _ | ⟨d, tail⟩
      · exact absurd hc String.utf8EncodeChar_ne_nil
      · rw [hc] at hbytes
        cases hbytes
        exact List.mem_cons_self
    have hall : (String.utf8EncodeChar c).all isBlank = false := by
      rw [List.all_eq_false]
      exact ⟨b, hmem, by simp [hblank]⟩
    simp [shownChar, Piece.bytes, hall, leadingChar, hdecode, Piece.toChar]

/-! ## Snippets that are shown

Besides the runs of the line the character that ended segmentation is shown, and it is the last. -/

/-- The snippets that are shown are those of the line, and one more if a byte that is not ASCII
ended segmentation. -/
inductive Shows (line : Bytes) (snippets : List Snippet) : Prop
  | all {front rest : Bytes} (hline : line = front ++ rest) (hcuts : Cuts 0 front snippets rest)
      (hsegment : Snippet.segment line = (snippets, none))
  | stray {front tail : Bytes} {b : UInt8} {runs : List Snippet}
      (hline : line = front ++ b :: tail) (hcuts : Cuts 0 front runs (b :: tail))
      (hb : isAscii b = false)
      (hsegment : Snippet.segment line = (runs, some ⟨front.length, leadingChar (b :: tail)⟩))
      (hsnippets : snippets =
        runs ++ [⟨String.utf8EncodeChar (leadingChar (b :: tail)), front.length⟩])

/-- Cutting goes to the end of the line or stops at a byte that is not ASCII. -/
theorem shows_visibleSnippets (line : Bytes) : Shows line (visibleSnippets line) := by
  obtain ⟨front, runs, rest, rfl, hcuts⟩ := exists_cuts 0 line
  have hsegment : Snippet.segment (front ++ rest) = (runs, faultAt? front.length rest) := by
    rw [Snippet.segment, hcuts.segmentFrom_eq, Nat.zero_add]
  -- Without a fault all runs are shown; with one, the character at fault is shown behind them.
  rcases hfault : faultAt? front.length rest with _ | fault
  · rw [hfault] at hsegment
    have hvisible : visibleSnippets (front ++ rest) = runs := by
      simp only [visibleSnippets, hsegment]
    rw [hvisible]
    exact .all rfl hcuts hsegment
  · obtain ⟨b, tail, rfl, hb, rfl⟩ := exists_of_faultAt? hfault
    rw [hfault] at hsegment
    exact .stray rfl hcuts hb hsegment (by simp only [visibleSnippets, hsegment])

/-- No snippet that is shown begins before the end of the one in front of it. -/
theorem pairwise_visibleSnippets (line : Bytes) :
    (visibleSnippets line).Pairwise fun t u => t.stop ≤ u.offset := by
  cases shows_visibleSnippets line with
  | all _ hcuts _ => exact hcuts.pairwise.2
  | stray _ hcuts _ _ hsnippets =>
    rw [hsnippets, List.pairwise_append]
    refine ⟨hcuts.pairwise.2, List.pairwise_singleton _ _, fun t ht u hu => ?_⟩
    obtain rfl := List.mem_singleton.mp hu
    have hle := hcuts.stop_le t ht
    rwa [Nat.zero_add] at hle

/-- What is shown in front of a snippet is ASCII, and the snippet itself is encoded. It has a
character at least: a run is never empty, and neither is the encoding of the character that ends
segmentation. -/
theorem isRun_visibleSnippets {line : Bytes} {j : Nat} {s : Snippet}
    (hs : (visibleSnippets line)[j]? = some s) :
    (∀ t ∈ (visibleSnippets line).take j, isRun t.text = true) ∧
      ∃ target, target ≠ [] ∧ s.text = encode target := by
  have hrun {t : Snippet} (h : isRun t.text = true) :
      ∃ target, target ≠ [] ∧ t.text = encode target := by
    obtain ⟨c, -, htext⟩ := category_of_isRun h
    refine ⟨Text.asciiChars t.text, ?_, (Text.encode_asciiChars fun b hb => (htext b hb).1).symm⟩
    exact List.map_eq_nil_iff.not.mpr (ne_nil_of_isRun h)
  cases shows_visibleSnippets line with
  | all _ hcuts _ =>
    have hruns := hcuts.isRun_of_mem
    exact ⟨fun t ht => hruns t (List.mem_of_mem_take ht), hrun (hruns s (List.mem_of_getElem? hs))⟩
  | @stray front tail b runs _ hcuts _ _ hsnippets =>
    have hruns := hcuts.isRun_of_mem
    rw [hsnippets] at hs ⊢
    -- At most the last of them is no run, and it has no other behind it.
    have hj : j ≤ runs.length := by
      have hlt := (List.getElem?_eq_some_iff.mp hs).1
      rw [List.length_append, List.length_singleton] at hlt
      omega
    rw [List.take_append_of_le_length hj]
    refine ⟨fun t ht => hruns t (List.mem_of_mem_take ht), ?_⟩
    rcases List.mem_append.mp (List.mem_of_getElem? hs) with hmem | hmem
    · exact hrun (hruns s hmem)
    · obtain rfl := List.mem_singleton.mp hmem
      exact ⟨[leadingChar (b :: tail)], List.cons_ne_nil _ _, (List.append_nil _).symm⟩

/-! ## Rebuilding the line

A report rebuilds the line from its snippets, with blanks for the gaps. The induction is on how the
line was cut, and goes on at the offset where the last snippet stopped. -/

section Rebuild

variable {look : Look} (hplain : look.styles = none)

include hplain

/-- Without styles a text stays as it is. -/
theorem paint_plain (p : Paint) (text : Bytes) : look.paint p text = text := by
  rw [Look.paint, hplain]

/-- Each snippet is rebuilt as the gap in front of it and its text. -/
theorem rebuild_cons (target index last : Nat) (s : Snippet) (rest : List Snippet) :
    rebuild look target index last (s :: rest) =
      Text.blanks (s.offset - last) ++ (s.text ++ rebuild look target (index + 1) s.stop rest) := by
  rw [rebuild, paint_plain hplain, ite_self, List.append_assoc]

/-- A gap and the snippet behind it are rebuilt as they are, blanks for white space. -/
theorem rebuild_gap {offset : Nat} {gap : Bytes} (hgap : Blank gap) (text : Bytes)
    (target index : Nat) (rest : List Snippet) :
    rebuild look target index offset (⟨text, offset + gap.length⟩ :: rest) =
      blanked gap ++
        (text ++ rebuild look target (index + 1) (offset + gap.length + text.length) rest) := by
  rw [rebuild_cons hplain, blanked_gap hgap, Nat.add_sub_cancel_left]
  rfl

variable {offset : Nat} {front rest : Bytes} {snippets : List Snippet}

/-- A line is rebuilt up to the end of its last snippet. -/
theorem rebuild_of_cuts (h : Cuts offset front snippets rest) (target index : Nat) :
    ∃ k ≤ front.length, (snippets.getLast?.map stop).getD offset = offset + k ∧
      rebuild look target index offset snippets = blanked (front.take k) := by
  induction h generalizing index with
  | stop hgap hrest => exact ⟨0, Nat.zero_le _, rfl, rfl⟩
  | @snippet offset gap text front rest more hgap htext hsep hfront ih =>
    obtain ⟨k, hk, hstop, hmore⟩ := ih (index + 1)
    have hlast : ((⟨text, offset + gap.length⟩ :: more).getLast?.map stop).getD offset =
        (more.getLast?.map stop).getD (offset + gap.length + text.length) := by
      cases more <;> simp [stop, List.getLast?_cons]
    -- What is rebuilt reaches over the gap and the run and as far as the rest does.
    refine ⟨gap.length + (text.length + k), ?_, by rw [hlast, hstop]; omega, ?_⟩
    · simp only [List.length_append]
      omega
    · rw [rebuild_gap hplain hgap, hmore, List.take_length_add_append,
        List.take_length_add_append, blanked_append, blanked_append, blanked_run htext]

/-- With one more snippet where cutting stopped, a line is rebuilt up to that. -/
theorem rebuild_concat_of_cuts (h : Cuts offset front snippets rest) (last : Bytes)
    (target index : Nat) :
    rebuild look target index offset (snippets ++ [⟨last, offset + front.length⟩]) =
      blanked front ++ last := by
  induction h generalizing index with
  | @stop offset gap rest hgap hrest =>
    rw [List.nil_append, rebuild_gap hplain hgap, rebuild, List.append_nil]
  | @snippet offset gap text front rest more hgap htext hsep hfront ih =>
    have hend : offset + (gap ++ (text ++ front)).length =
        offset + gap.length + text.length + front.length := by
      simp only [List.length_append, Nat.add_assoc]
    rw [hend, List.cons_append, rebuild_gap hplain hgap, ih, blanked_append, blanked_append,
      blanked_run htext, List.append_assoc, List.append_assoc]

/-- The line in question is rebuilt as it is shown. -/
theorem rebuild_visible (line : Bytes) (target : Nat) :
    rebuild look target 0 0 (visibleSnippets line) = encode (shownLine line) := by
  cases shows_visibleSnippets line with
  | @all front rest hline hcuts hsegment =>
    obtain ⟨k, hk, hstop, hrebuild⟩ := rebuild_of_cuts hplain hcuts target 0
    have hascii : ∀ b ∈ front.take k, isAscii b = true :=
      fun b hb => hcuts.isAscii_of_mem b (List.mem_of_mem_take hb)
    have hpieces : shownPieces line = (Text.asciiChars (front.take k)).map .char := by
      rw [Nat.zero_add] at hstop
      simp only [shownPieces, hsegment, hstop]
      rw [hline, List.take_append_of_le_length hk, Text.units_asciiChars hascii]
    rw [hrebuild, ← encode_shown_ascii hascii, shownLine, hpieces, List.map_map]
    rfl
  | @stray front tail b runs hline hcuts hb hsegment hsnippets =>
    have hascii := hcuts.isAscii_of_mem
    obtain ⟨p, more, hunits, hp⟩ := exists_units_of_stray hb tail
    have hpieces : shownPieces line = (Text.asciiChars front).map .char ++ [p] := by
      simp only [shownPieces, hsegment]
      rw [hline, List.take_left, List.drop_left, Text.units_asciiChars hascii, hunits]
      rfl
    have hconcat := rebuild_concat_of_cuts hplain hcuts
      (String.utf8EncodeChar (leadingChar (b :: tail))) target 0
    rw [Nat.zero_add, ← hsnippets] at hconcat
    rw [hconcat, ← encode_shown_ascii hascii, shownLine, hpieces, List.map_append, List.map_map,
      Text.encode_append, List.map_singleton, hp, Text.encode_cons, Text.encode_nil,
      List.append_nil]
    rfl

/-- In front of a snippet stand as many bytes as its offset says, and they are ASCII. -/
theorem rebuild_split {snippets : List Snippet} {s : Snippet} {j last : Nat}
    (hstart : ∀ t ∈ snippets, last ≤ t.offset)
    (hordered : snippets.Pairwise fun t u => t.stop ≤ u.offset)
    (hruns : ∀ t ∈ snippets.take j, isRun t.text = true) (hs : snippets[j]? = some s)
    (target index : Nat) :
    ∃ before behind, rebuild look target index last snippets = before ++ (s.text ++ behind) ∧
      before.length = s.offset - last ∧ ∀ b ∈ before, isAscii b = true := by
  have hblanks (n : Nat) : ∀ b ∈ Text.blanks n, isAscii b = true := by
    intro b hb
    rw [List.eq_of_mem_replicate hb]
    decide
  -- Each snippet in front adds its gap and its text, which reach up to where it stops.
  induction snippets generalizing j last index with
  | nil => cases hs
  | cons t rest ih =>
    rw [rebuild_cons hplain]
    rcases j with _ | j
    · cases hs
      exact ⟨_, _, rfl, List.length_replicate, hblanks _⟩
    · rw [List.pairwise_cons] at hordered
      rw [List.take_succ_cons, List.forall_mem_cons] at hruns
      obtain ⟨before, behind, hrebuild, hlength, hascii⟩ :=
        ih hordered.1 hordered.2 hruns.2 hs (index + 1)
      have ht := hstart t List.mem_cons_self
      have hstop := hordered.1 s (List.mem_of_getElem? hs)
      refine ⟨Text.blanks (t.offset - last) ++ (t.text ++ before), behind, ?_, ?_, ?_⟩
      · rw [hrebuild]
        simp only [List.append_assoc]
      · simp only [List.length_append, hlength, Text.blanks, List.length_replicate, stop] at hstop ⊢
        omega
      · obtain ⟨c, -, htext⟩ := category_of_isRun hruns.1
        intro b hb
        rcases List.mem_append.mp hb with hb | hb
        · exact hblanks _ b hb
        · exact (List.mem_append.mp hb).elim (fun hb => (htext b hb).1) (hascii b)

end Rebuild

/-- A snippet that is shown stands in the shown line at its offset, counted in characters. -/
theorem exists_place {line : Bytes} {j : Nat} {s : Snippet}
    (hs : (visibleSnippets line)[j]? = some s) :
    ∃ before target after, shownLine line = before ++ target ++ after ∧
      before.length = s.offset ∧ target ≠ [] ∧ s.text = encode target := by
  have hplain : Look.plain.styles = none := rfl
  obtain ⟨hruns, target, hne, htarget⟩ := isRun_visibleSnippets hs
  obtain ⟨before, behind, hrebuild, hlength, hascii⟩ := rebuild_split hplain
    (fun t _ => Nat.zero_le _) (pairwise_visibleSnippets line) hruns hs j 0
  rw [rebuild_visible hplain, htarget] at hrebuild
  -- The same bytes, taken apart into characters, are cut at the same two places.
  have hunits := congrArg units hrebuild
  rw [Text.units_encode, Text.units_append_asciiChars hascii, Text.units_encode_append] at hunits
  obtain ⟨front, rest, hshown, hfront, hrest⟩ := List.map_eq_append_iff.mp hunits
  obtain ⟨middle, after, rfl, hmiddle, -⟩ := List.map_eq_append_iff.mp hrest
  have hinj : Function.Injective Piece.char := fun _ _ => Piece.char.inj
  obtain rfl := List.map_injective_iff.mpr hinj hfront
  obtain rfl := List.map_injective_iff.mpr hinj hmiddle
  refine ⟨_, _, after, by rw [hshown, List.append_assoc], ?_, hne, htarget⟩
  rw [Text.asciiChars, List.length_map, hlength, Nat.sub_zero]

/-! ## The rows of a frame

Each of the seven rows is encoded characters, and none of them breaks its line: the texts are lines
of a source. -/

theorem newline_not_mem_digits (n : Nat) : '\n' ∉ Nat.toDigits 10 n := by
  intro hmem
  exact absurd (Nat.isDigit_of_mem_toDigits (by decide) (by decide) hmem) (by decide)

/-- What would break the line is white space, and that is shown as a blank. -/
theorem newline_not_mem_shownLine (line : Bytes) : '\n' ∉ shownLine line := by
  intro hmem
  obtain ⟨p, -, hp⟩ := List.mem_map.mp hmem
  rw [shownChar] at hp
  split at hp
  · cases hp
  · next hblank =>
    rcases p with c | b
    · obtain rfl : c = '\n' := hp
      exact hblank (by decide)
    · cases hp

section Rows

variable {look : Look} (hplain : look.styles = none)

theorem newline_not_mem_ruleRow (pad : Nat) (junction : Char) (h : junction ≠ '\n') :
    newline ∉ ruleRow look pad (String.singleton junction) := by
  intro hmem
  rw [ruleRow_eq] at hmem
  have hchars := Text.newline_mem_encode hmem
  simp [h.symm] at hchars

theorem newline_not_mem_textRow {pad : Nat} {number : List Char} {text : Bytes}
    (hnumber : '\n' ∉ number) (htext : newline ∉ text) :
    newline ∉ textRow pad (encode number) text := by
  have hpad : newline ∉ Text.padLeft pad (encode number) := by
    rw [Text.padLeft, Text.blanks_eq_encode, ← Text.encode_append]
    intro hmem
    have hchars := Text.newline_mem_encode hmem
    simp [hnumber] at hchars
  have hgutter : newline ∉ Text.utf8 " │" ∧ newline ∉ Text.utf8 " " := by decide
  rw [textRow, List.mem_append, List.mem_append]
  rintro ((hmem | hmem) | hmem)
  · exact hpad hmem
  · exact hgutter.1 hmem
  · split at hmem
    · cases hmem
    · exact (List.mem_append.mp hmem).elim hgutter.2 htext

/-- The row of a neighbour has its number, if it exists, and its text. -/
theorem neighbourRow_eq {pad n : Nat} {neighbour : Option Bytes} (hn : neighbour.isSome → 0 < n) :
    neighbourRow pad n neighbour =
      textRow pad (encode (neighbourNumber n neighbour)) (neighbour.getD []) := by
  cases neighbour with
  | none => rfl
  | some text =>
    rw [neighbourRow, if_pos (hn rfl), Text.decimal_eq_encode]
    rfl

/-- The row of a neighbour is one, whether the neighbour exists or not. -/
theorem isRow_neighbourRow {pad n : Nat} {neighbour : Option Bytes}
    (hn : neighbour.isSome → 0 < n) (hfits : (Nat.toDigits 10 n).length ≤ pad) :
    IsRow (pad + 1) (neighbourNumber n neighbour) (neighbourText neighbour)
      (neighbourRow pad n neighbour) := by
  rw [neighbourRow_eq hn]
  cases neighbour with
  | none => exact isRow_textRow (Nat.zero_le _) rfl []
  | some text =>
    refine isRow_textRow hfits ?_ text
    show (encode (Nat.toDigits 10 n)).length = (Nat.toDigits 10 n).length
    rw [← Text.decimal_eq_encode, length_decimal]

include hplain

/-- The row of the line in question, without styles. -/
theorem failingRow_eq {pad n : Nat} (line : Bytes) (target : Nat) :
    failingRow look pad n target (visibleSnippets line) =
      encode (List.replicate (pad - (Nat.toDigits 10 n).length) ' ' ++ Nat.toDigits 10 n) ++
        (Text.utf8 " │" ++ encode (' ' :: shownLine line)) := by
  have hgutter : Text.utf8 " │ " = Text.utf8 " │" ++ String.utf8EncodeChar ' ' := by decide
  rw [failingRow, paint_plain hplain, rebuild_visible hplain, length_decimal,
    Text.blanks_eq_encode, Text.decimal_eq_encode, ← Text.encode_append, hgutter, Text.encode_cons]
  simp only [List.append_assoc]

/-- The row of the carets: one for each character of the snippet. -/
theorem caretRow_eq {s : Snippet} {target : List Char} (hs : s.text = encode target) (pad : Nat) :
    caretRow look pad s = encode (List.replicate pad ' ') ++ (Text.utf8 " │" ++
      encode (' ' :: (List.replicate s.offset ' ' ++ List.replicate target.length '^'))) := by
  have hgutter : Text.utf8 " │ " = Text.utf8 " │" ++ String.utf8EncodeChar ' ' := by decide
  have hcaret : Text.utf8 "^" = String.utf8EncodeChar '^' := by decide
  rw [caretRow, paint_plain hplain, Text.countChars, hs, Text.units_encode, List.length_map, hcaret,
    Text.times_eq_encode, Text.blanks_eq_encode, Text.blanks_eq_encode, hgutter, Text.encode_cons,
    Text.encode_append]
  simp only [List.append_assoc]

end Rows

/-- A line of a text has no line feed. -/
theorem newline_not_mem_lineNumbered {text : Bytes} {n : Nat} :
    newline ∉ (lineNumbered (Source.ofText text).lines n).getD [] := by
  rcases n with _ | n
  · exact List.not_mem_nil
  · rcases hline : (Source.ofText text).lines[n]? with _ | line
    · simp [lineNumbered, hline]
    · have hfree := Source.newline_not_mem_of_ofText line (List.mem_of_getElem? hline)
      simp only [lineNumbered, hline, Option.map_some, Option.getD_some]
      exact fun hmem => hfree (Source.mem_of_mem_dropReturn hmem)

theorem pos_of_lineNumbered {lines : List Bytes} {n : Nat} (h : (lineNumbered lines n).isSome) :
    0 < n := by
  rcases n with _ | n
  · cases h
  · exact Nat.succ_pos n

/-- Line `n` of some lines and its neighbours. -/
def linesAround (lines : List Bytes) (n : Nat) : Window :=
  ⟨lineNumbered lines (n - 1), lineNumbered lines n, lineNumbered lines (n + 1)⟩

/-- Reading a window goes well if no fault is met up to the line after the one in question. -/
theorem window_of_readable {source : Source} {n : Nat}
    (h : source.fault = none ∨ n + 1 ≤ source.lines.length) :
    window source n = .ok (linesAround source.lines n) := by
  unfold window
  split
  · next fault hfault =>
    have hlong := h.resolve_left (by rw [hfault]; exact Option.some_ne_none _)
    rw [if_neg (Nat.not_lt.mpr hlong)]
    rfl
  · rfl

/-- The rows that a frame consists of. -/
def frameRows (look : Look) (n : Nat) (w : Window) (snippets : List Snippet) (target : Nat)
    (s : Snippet) : Rows where
  top := ruleRow look (gutter n) "┬"
  previous := neighbourRow (gutter n) (n - 1) w.before
  empty := textRow (gutter n) [] []
  failing := failingRow look (gutter n) n target snippets
  caret := caretRow look (gutter n) s
  next := neighbourRow (gutter n) (n + 1) w.after
  bottom := ruleRow look (gutter n) "┴"

/-- The report about a place in a file ends with the rows of a frame, if the line exists and has a
snippet at the place, and nothing goes wrong with reading up to the line after it. -/
theorem body_of_readable {disk : Disk} {path text line : Bytes} {loc : Location} {s : Snippet}
    (hread : disk.read path = .ok text) (hvalid : loc.isValid = true)
    (hreadable : (Source.ofText text).fault = none ∨
      loc.line.toNat + 1 ≤ (Source.ofText text).lines.length)
    (hline : lineNumbered (Source.ofText text).lines loc.line.toNat = some line)
    (hs : (visibleSnippets line)[loc.column.toNat]? = some s) (look : Look) :
    body look disk loc path =
      (Text.utf8 "Inside file '" ++ disk.canonical path ++ Text.utf8 "':") ::
        (frameRows look loc.line.toNat (linesAround (Source.ofText text).lines loc.line.toNat)
          (visibleSnippets line) loc.column.toNat s).toList := by
  have hcurrent : (linesAround (Source.ofText text).lines loc.line.toNat).current = some line := hline
  simp only [body, Disk.source, hread, window_of_readable hreadable, excerpt, hvalid, hcurrent, hs]
  rfl

section Frame

variable {look : Look} {text line : Bytes} {n j : Nat} {s : Snippet}
  {before target after : List Char} (hplain : look.styles = none)

include hplain

/-- The rows of a frame are aligned, if the snippet stands in the shown line at its offset. -/
theorem aligned_frameRows (hshown : shownLine line = before ++ target ++ after)
    (hlength : before.length = s.offset) (htarget : s.text = encode target) (lines : List Bytes) :
    Aligned lines n (gutter n + 1) look.width before target after
      (frameRows look n (linesAround lines n) (visibleSnippets line) j s) where
  top := isRule_ruleRow look (gutter n) '┬'
  previous := isRow_neighbourRow pos_of_lineNumbered
    (length_toDigits_le_gutter ((Nat.sub_le n 1).trans (Nat.le_succ n)))
  empty := isRow_textRow (Nat.zero_le _) rfl []
  failing := by
    rw [← hshown, ← Text.units_encode]
    show IsRow _ _ _ (failingRow look (gutter n) n j (visibleSnippets line))
    rw [failingRow_eq hplain]
    exact isRow_of_fits (length_toDigits_le_gutter (Nat.le_succ n)) _
  caret := by
    -- The carets begin in the column where the target does, since what is before it is ASCII.
    rw [hlength, ← Text.units_encode]
    show IsRow _ _ _ (caretRow look (gutter n) s)
    rw [caretRow_eq hplain htarget]
    have hfits : ([] : List Char).length ≤ gutter n := Nat.zero_le _
    have hrow := isRow_of_fits hfits
      (encode (' ' :: (List.replicate s.offset ' ' ++ List.replicate target.length '^')))
    rwa [List.length_nil, Nat.sub_zero, List.append_nil] at hrow
  next := isRow_neighbourRow pos_of_lineNumbered (length_toDigits_le_gutter le_rfl)
  bottom := isRule_ruleRow look (gutter n) '┴'

/-- No row goes over its line, so the rows can be read off the report. -/
theorem newline_not_mem_frameRows (htarget : s.text = encode target) :
    ∀ row ∈ (frameRows look n (linesAround (Source.ofText text).lines n) (visibleSnippets line)
      j s).toList, newline ∉ row := by
  have hgutter : newline ∉ Text.utf8 " │" := by decide
  have hneighbour (m : Nat) :
      newline ∉ neighbourRow (gutter n) m (lineNumbered (Source.ofText text).lines m) := by
    rw [neighbourRow_eq pos_of_lineNumbered]
    refine newline_not_mem_textRow ?_ newline_not_mem_lineNumbered
    rw [neighbourNumber]
    split
    · exact newline_not_mem_digits m
    · exact List.not_mem_nil
  -- The other rows are characters on both sides of the gutter.
  have hencoded {cs ds : List Char} (hcs : '\n' ∉ cs) (hds : '\n' ∉ ds) :
      newline ∉ encode cs ++ (Text.utf8 " │" ++ encode ds) := by
    rw [List.mem_append, List.mem_append]
    rintro (hmem | hmem | hmem)
    · exact hcs (Text.newline_mem_encode hmem)
    · exact hgutter hmem
    · exact hds (Text.newline_mem_encode hmem)
  have hfailing : newline ∉ failingRow look (gutter n) n j (visibleSnippets line) := by
    rw [failingRow_eq hplain]
    refine hencoded ?_ ?_
    · simp [newline_not_mem_digits]
    · simp [newline_not_mem_shownLine]
  have hcaret : newline ∉ caretRow look (gutter n) s := by
    rw [caretRow_eq hplain htarget]
    exact hencoded (by simp) (by simp)
  have hempty : newline ∉ textRow (gutter n) (encode []) [] :=
    newline_not_mem_textRow List.not_mem_nil List.not_mem_nil
  simp only [Rows.toList, frameRows, List.forall_mem_cons]
  exact ⟨newline_not_mem_ruleRow (gutter n) '┬' (by decide), hneighbour (n - 1), hempty, hfailing,
    hcaret, hneighbour (n + 1), newline_not_mem_ruleRow (gutter n) '┴' (by decide),
    List.forall_mem_nil _⟩

end Frame

/-! ## Reports

What is left is to see that the report consists of these rows, which takes a disk on which the file
can be read. -/

/-- The plain report about a place in a file ends with the seven rows of an aligned frame, if the
line exists and has a snippet at the place, and nothing goes wrong with reading up to the line after
it. The shown line is the line up to the end of its last snippet, and the carets stand below the
characters of the snippet in question. None of the differences that the number of blanks is computed
from is negative: the number fits in front of the gutter, and the snippets follow one another. -/
theorem report_aligned {disk : Disk} {f : Failure.InFile} {text line : Bytes} {s : Snippet}
    {width : Int} (hread : disk.read f.path = .ok text) (hvalid : f.loc.isValid = true)
    (hreadable : (Source.ofText text).fault = none ∨
      f.loc.line.toNat + 1 ≤ (Source.ofText text).lines.length)
    (hline : lineNumbered (Source.ofText text).lines f.loc.line.toNat = some line)
    (hs : (visibleSnippets line)[f.loc.column.toNat]? = some s) (hwidth : 0 < width) :
    ∃ rows before target after,
      f.report (Look.plain.withWidth width) disk =
        Text.unlines (Text.splitAt newline (f.message disk) ++
          (Text.utf8 "Inside file '" ++ disk.canonical f.path ++ Text.utf8 "':") :: rows.toList) ∧
      (∀ row ∈ rows.toList, newline ∉ row) ∧
      shownLine line = before ++ target ++ after ∧ before.length = s.offset ∧
      s.text = encode target ∧
      Aligned (Source.ofText text).lines f.loc.line.toNat (gutter f.loc.line.toNat + 1) width.toNat
        before target after rows ∧
      (Text.decimal f.loc.line.toNat).length ≤ gutter f.loc.line.toNat ∧
      (visibleSnippets line).Pairwise fun t u => t.stop ≤ u.offset := by
  obtain ⟨look, hlook, hplain, hlookWidth⟩ : ∃ look, Look.plain.withWidth width = look ∧
      look.styles = none ∧ look.width = width.toNat :=
    ⟨_, if_pos hwidth, rfl, rfl⟩
  obtain ⟨before, target, after, hshown, hlength, -, htarget⟩ := exists_place hs
  have hbody := body_of_readable hread hvalid hreadable hline hs look
  have hhead : (Text.splitAt newline (f.message disk)).map (look.paint .alarm) =
      Text.splitAt newline (f.message disk) := by
    rw [List.map_congr_left fun part _ => paint_plain hplain .alarm part, List.map_id']
  rw [hlook, ← hlookWidth, Failure.InFile.report, render, hbody]
  -- The message has no styles either, so its lines stand in the report as they are.
  refine ⟨frameRows look f.loc.line.toNat
      (linesAround (Source.ofText text).lines f.loc.line.toNat) (visibleSnippets line)
      f.loc.column.toNat s, before, target, after, ?_, newline_not_mem_frameRows hplain htarget,
    hshown, hlength, htarget, aligned_frameRows hplain hshown hlength htarget _,
    length_decimal_le_gutter _, pairwise_visibleSnippets line⟩
  exact congrArg (fun head => Text.unlines (head ++ _)) hhead

/-- Nine lines, the last of them with a character that is not ASCII, and a tenth. -/
def borderText : Bytes :=
  Text.unlines (List.replicate 8 (Text.utf8 "a;") ++ [Text.utf8 "let\té = 1;", Text.utf8 "b;"])

/-- The failure at the character in the ninth line of `borderText`. -/
def borderFailure : Failure.InFile := ⟨.plain (Text.utf8 "not ASCII"), ⟨9, 1⟩, Text.utf8 "border"⟩

/-- The disk on which every path holds `borderText`. -/
def borderDisk : Disk := ⟨fun _ => .ok borderText, fun _ => true, id⟩

/-- The ninth line of `borderText`. -/
def borderLine : Bytes := Text.utf8 "let\té = 1;"

/-- The next line has a number with one digit more, and the gutter stands to the right of it. -/
theorem report_aligned_border :
    borderFailure.loc.isValid = true ∧
      lineNumbered (Source.ofText borderText).lines 9 = some borderLine ∧
      (visibleSnippets borderLine)[1]? = some ⟨Text.utf8 "é", 4⟩ ∧
      ∃ rows before target after, ∃ head : List Bytes,
        borderFailure.report (Look.plain.withWidth 5) borderDisk =
          Text.unlines (head ++ rows.toList) ∧
        shownLine borderLine = before ++ target ++ after ∧ before.length = 4 ∧
        Aligned (Source.ofText borderText).lines 9 3 5 before target after rows := by
  have hread : borderDisk.read borderFailure.path = .ok borderText := rfl
  have hvalid : borderFailure.loc.isValid = true := by decide
  have hreadable : (Source.ofText borderText).fault = none ∨
      borderFailure.loc.line.toNat + 1 ≤ (Source.ofText borderText).lines.length := by
    decide +kernel
  have hline : lineNumbered (Source.ofText borderText).lines borderFailure.loc.line.toNat =
      some borderLine := by decide +kernel
  have hs : (visibleSnippets borderLine)[borderFailure.loc.column.toNat]? =
      some ⟨Text.utf8 "é", 4⟩ := by decide +kernel
  have hwidth : (0 : Int) < 5 := by decide
  obtain ⟨rows, before, target, after, hreport, -, hshown, hlength, -, haligned, -⟩ :=
    report_aligned hread hvalid hreadable hline hs hwidth
  rw [List.append_cons] at hreport
  exact ⟨hvalid, hline, hs, rows, before, target, after, _, hreport, hshown, hlength, haligned⟩

end Report

end LetFn
