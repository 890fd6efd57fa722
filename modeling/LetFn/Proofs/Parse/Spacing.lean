import Mathlib.Logic.Relation
import LetFn.Proofs.Parse.Text

/-!
# White space and comments make no difference

Tokens bear the index of their snippet and not its offset, so of a line only the texts of its
snippets count, and whether it has a fault: its `gist`. White space is not part of any text. More or
less of it where there is some, or at the ends of a line, leaves the gist as it is, and so does a
comment behind the line (`Respaced.gist_eq`). A carriage return at the end of a line is white space
too, so text may end its lines in either way, as long as no line gets too long to be read
(`parse_spacing`).
-/

namespace LetFn

open Snippet

namespace Snippet

/-- What tokens depend on, if the line has no fault: the texts of its snippets. Otherwise they
depend on the fault too. -/
def gist (line : Bytes) : List Bytes × Bool :=
  ((segment line).1.map Snippet.text, (segment line).2.isSome)

/-- One change of the white space of a line, or a comment added to it. -/
inductive Respaced : Bytes → Bytes → Prop
  /-- White space that stands somewhere is replaced. -/
  | within (front gap gap' rest : Bytes) (hgap : Blank gap) (hne : gap ≠ []) (hgap' : Blank gap')
      (hne' : gap' ≠ []) : Respaced (front ++ (gap ++ rest)) (front ++ (gap' ++ rest))
  /-- White space at the beginning is replaced, added or removed. -/
  | leading (gap gap' rest : Bytes) (hgap : Blank gap) (hgap' : Blank gap') :
      Respaced (gap ++ rest) (gap' ++ rest)
  /-- White space at the end is replaced, added or removed. -/
  | trailing (front gap gap' : Bytes) (hgap : Blank gap) (hgap' : Blank gap') :
      Respaced (front ++ gap) (front ++ gap')
  /-- A comment is added. -/
  | comment (line bytes : Bytes) : Respaced line (line ++ (Text.utf8 " //" ++ bytes))

/-! ## Gists of lines

White space and comments go between the cuts or behind them, so they leave the texts of the snippets
as they are. -/

/-- The text begins with a byte that is not ASCII. -/
def beginsStray (s : Bytes) : Bool := s.head?.any fun b => !Category.isAscii b

theorem isSome_faultAt? (offset : Nat) (rest : Bytes) :
    (faultAt? offset rest).isSome = beginsStray rest := by
  rcases rest with _ | ⟨b, rest⟩
  · rfl
  · rcases hascii : Category.isAscii b <;> simp [faultAt?, beginsStray, hascii]

theorem beginsStray_append {s : Bytes} (h : s ≠ []) (more : Bytes) :
    beginsStray (s ++ more) = beginsStray s := by
  obtain ⟨b, s, rfl⟩ := List.exists_cons_of_ne_nil h
  rfl

/-- The gist of a line is told by how it is cut. -/
theorem gist_of_cuts {offset : Nat} {front rest : Bytes} {snippets : List Snippet}
    (h : Cuts offset front snippets rest) :
    gist (front ++ rest) = (snippets.map Snippet.text, beginsStray rest) := by
  obtain ⟨snippets', hcuts, htexts⟩ := h.shift 0
  rw [gist, segment, hcuts.segmentFrom_eq, htexts, isSome_faultAt?]

theorem gist_indent {gap : Bytes} (hgap : Blank gap) (line : Bytes) :
    gist (gap ++ line) = gist line := by
  obtain ⟨front, snippets, rest, rfl, hcuts⟩ := exists_cuts (0 + gap.length) line
  rw [← List.append_assoc, gist_of_cuts (hcuts.indent hgap), gist_of_cuts hcuts]

/-- Either cutting stops within the line and it does not matter what follows, or a line that follows
after white space adds its gist. -/
theorem gist_append_cases (line : Bytes) :
    (∀ more, gist (line ++ more) = gist line) ∨
      (gist line).2 = false ∧ ∀ gap tail, gap ≠ [] → Blank gap →
        gist (line ++ (gap ++ tail)) = ((gist line).1 ++ (gist tail).1, (gist tail).2) := by
  obtain ⟨front, snippets, rest, rfl, hcuts⟩ := exists_cuts 0 line
  rw [gist_of_cuts hcuts]
  by_cases hrest : rest = []
  · subst hrest
    refine .inr ⟨rfl, fun gap tail hne hgap => ?_⟩
    obtain ⟨front', snippets', rest', rfl, hnext⟩ :=
      exists_cuts (0 + front.length + gap.length) tail
    have hwhole : front ++ [] ++ (gap ++ (front' ++ rest')) =
        front ++ (gap ++ front') ++ rest' := by simp
    rw [hwhole, gist_of_cuts (hcuts.append_gap hne hgap hnext), gist_of_cuts hnext, List.map_append]
  · refine .inl fun more => ?_
    rw [List.append_assoc, gist_of_cuts (hcuts.append_of_stopped hrest more),
      beginsStray_append hrest]

theorem gist_nil : gist [] = ([], false) := by
  rw [gist, segment, segmentFrom_nothing rfl]
  rfl

theorem gist_comment (bytes : Bytes) : gist (Text.utf8 "//" ++ bytes) = ([], false) := by
  rw [gist, segment, segmentFrom_comment]
  rfl

theorem gist_trailing {gap : Bytes} (hgap : Blank gap) (line : Bytes) :
    gist (line ++ gap) = gist line := by
  by_cases hne : gap = []
  · rw [hne, List.append_nil]
  rcases gist_append_cases line with hstopped | ⟨hfault, hgoes⟩
  · exact hstopped gap
  · have hline := hgoes gap [] hne hgap
    rw [gist_nil, List.append_nil, List.append_nil, ← hfault] at hline
    exact hline

theorem gist_append_comment (line bytes : Bytes) :
    gist (line ++ (Text.utf8 " //" ++ bytes)) = gist line := by
  rcases gist_append_cases line with hstopped | ⟨hfault, hgoes⟩
  · exact hstopped _
  · have hblank : Blank [Text.blank] := List.forall_mem_singleton.mpr (by decide)
    have hline := hgoes [Text.blank] (Text.utf8 "//" ++ bytes) (List.cons_ne_nil _ _) hblank
    rw [gist_comment, List.append_nil] at hline
    exact hline.trans (congrArg (Prod.mk _) hfault.symm)

/-- Spacing a line otherwise leaves its gist. -/
theorem Respaced.gist_eq {line line' : Bytes} (h : Respaced line line') :
    gist line' = gist line := by
  cases h with
  | within front gap gap' rest hgap hne hgap' hne' =>
    rcases gist_append_cases front with hstopped | ⟨-, hgoes⟩
    · rw [hstopped, hstopped]
    · rw [hgoes gap rest hne hgap, hgoes gap' rest hne' hgap']
  | leading _ _ _ hgap hgap' => rw [gist_indent hgap, gist_indent hgap']
  | trailing _ _ _ hgap hgap' => rw [gist_trailing hgap, gist_trailing hgap']
  | comment _ bytes => exact gist_append_comment line bytes

end Snippet

/-! ## Tokens

A token has the number of its snippet for a column, not the place of its first byte. -/

namespace Token

theorem ofSnippets_congr {snippets snippets' : List Snippet}
    (h : snippets'.map Snippet.text = snippets.map Snippet.text) (n : UInt32) (column : Nat) :
    ofSnippets n column snippets' = ofSnippets n column snippets := by
  induction snippets generalizing snippets' column with
  | nil => rw [List.map_eq_nil_iff.mp h]
  | cons s rest ih =>
    obtain ⟨s', rest', rfl, htext, hrest⟩ := List.map_eq_cons_iff.mp h
    rw [ofSnippets, ofSnippets, htext, ih hrest]

/-- Lines with the same gist give the same tokens. -/
theorem ofLine_of_gist {line line' : Bytes} (h : gist line' = gist line)
    (hfault : (segment line).2 = none) (n : UInt32) : ofLine n line' = ofLine n line := by
  rw [gist, gist, Prod.mk.injEq, hfault] at h
  have hfault' : (segment line').2 = none := by simpa using h.2
  simp only [ofLine, hfault, hfault', ofSnippets_congr h.1]
  rcases ofSnippets n 0 (segment line).1 <;> rfl

end Token

/-- Lines with the same tokens, each on its own, make the same module. -/
theorem parseLines_congr {lines lines' : List Bytes}
    (h : List.Forall₂ (fun line line' => ∀ n, Token.ofLine n line' = Token.ofLine n line) lines
      lines') : parseLines lines' = parseLines lines := by
  have hlexed (n : UInt32) : Lexed.ofLinesFrom n lines' = Lexed.ofLinesFrom n lines := by
    induction h generalizing n with
    | nil => rfl
    | cons hline _ ih => rw [Lexed.ofLinesFrom, Lexed.ofLinesFrom, hline, ih]
  rw [parseLines, parseLines, Lexed.ofLines, Lexed.ofLines, hlexed]

/-! ## Carriage returns

A text with both characters at its line ends is cut into the same lines with a carriage return at
the end of each. -/

namespace Text

/-- The text with a carriage return in front of every line feed. -/
def crlf (text : Bytes) : Bytes :=
  text.flatMap fun b => if b = newline then [carriageReturn, newline] else [b]

/-- The pieces with a carriage return at the end of each but the last. -/
def withReturns : List Bytes → List Bytes
  | [] => []
  | [last] => [last]
  | piece :: next :: rest => (piece ++ [carriageReturn]) :: withReturns (next :: rest)

theorem withReturns_cons (piece : Bytes) {rest : List Bytes} (h : rest ≠ []) :
    withReturns (piece :: rest) = (piece ++ [carriageReturn]) :: withReturns rest := by
  obtain ⟨next, rest, rfl⟩ := List.exists_cons_of_ne_nil h
  rfl

theorem withReturns_modifyHead (b : UInt8) (pieces : List Bytes) :
    withReturns (pieces.modifyHead (b :: ·)) = (withReturns pieces).modifyHead (b :: ·) := by
  rcases pieces with _ | ⟨piece, _ | ⟨next, rest⟩⟩ <;> rfl

theorem splitAt_crlf (text : Bytes) :
    splitAt newline (crlf text) = withReturns (splitAt newline text) := by
  induction text with
  | nil => rfl
  | cons b text ih =>
    by_cases hb : b = newline
    · have hcrlf : crlf (b :: text) = carriageReturn :: newline :: crlf text := by simp [crlf, hb]
      rw [hcrlf, splitAt_cons (by decide), splitAt_sep, ih, hb, splitAt_sep,
        withReturns_cons _ (splitAt_ne_nil text)]
      rfl
    · have hcrlf : crlf (b :: text) = b :: crlf text := by simp [crlf, hb]
      rw [hcrlf, splitAt_cons hb, splitAt_cons hb, ih, withReturns_modifyHead]

end Text

theorem Token.ofLine_append_return (n : UInt32) (line : Bytes) :
    ofLine n (line ++ [Text.carriageReturn]) = ofLine n line := by
  rw [ofLine, ofLine, Snippet.segment, Snippet.segment, segmentFrom_append_return]

/-- If carriage returns make no line too long, the same pieces can be read with and without. -/
theorem Source.takeWhile_withReturns {pieces : List Bytes}
    (h : ∀ piece ∈ pieces.dropLast, fits piece = true →
      fits (piece ++ [Text.carriageReturn]) = true) :
    List.Forall₂ (fun line line' => ∀ n, Token.ofLine n line' = Token.ofLine n line)
      (pieces.takeWhile fits) ((Text.withReturns pieces).takeWhile fits) := by
  induction pieces with
  | nil => exact .nil
  | cons piece rest ih =>
    by_cases hrest : rest = []
    · rw [hrest, Text.withReturns]
      exact List.forall₂_same.mpr fun _ _ _ => rfl
    rw [List.dropLast_cons_of_ne_nil hrest, List.forall_mem_cons] at h
    rw [Text.withReturns_cons piece hrest]
    -- A piece that is too long stays so with a carriage return, and one that fits still fits.
    rcases hfits : fits piece with _ | _
    · have hlong : fits (piece ++ [Text.carriageReturn]) = false := by
        rw [Bool.eq_false_iff, Ne, fits_iff] at hfits ⊢
        rw [List.length_append]
        omega
      rw [List.takeWhile_cons, List.takeWhile_cons, hfits, hlong]
      exact .nil
    · rw [List.takeWhile_cons_of_pos hfits, List.takeWhile_cons_of_pos (h.1 hfits)]
      exact .cons (fun n => Token.ofLine_append_return n piece) (ih h.2)

/-! ## Whole sources

Each line may be spaced otherwise any number of times. -/

/-- Lines that have no segmentation fault can be respaced and commented as often as one likes, and
the lines of a text can end in carriage returns as far as they are not too long for that: the module
is the same, locations included, or the fault is, its location included. -/
theorem parse_spacing :
    (∀ lines lines' : List Bytes, (∀ line ∈ lines, (segment line).2 = none) →
      List.Forall₂ (Relation.ReflTransGen Respaced) lines lines' →
        parseLines lines' = parseLines lines) ∧
      ∀ text : Bytes, (∀ line ∈ (Text.splitAt Text.newline text).dropLast,
        Source.fits line = true → Source.fits (line ++ [Text.carriageReturn]) = true) →
          parseText (Text.crlf text) = parseText text := by
  constructor
  · intro lines lines' hfault hlines
    refine parseLines_congr ?_
    induction hlines with
    | nil => exact .nil
    | @cons line line' lines lines' hline _ ih =>
      obtain ⟨hfirst, hrest⟩ := List.forall_mem_cons.mp hfault
      -- One step after the other.
      have hgist : gist line' = gist line := by
        induction hline with
        | refl => rfl
        | tail _ hstep ih => rw [hstep.gist_eq, ih]
      exact .cons (Token.ofLine_of_gist hgist hfirst) (ih hrest)
  · intro text hfits
    rw [parseText_eq, parseText_eq, Source.readable, Source.readable, Text.splitAt_crlf]
    exact parseLines_congr (Source.takeWhile_withReturns hfits)

/-- A binding, and a statement that is not finished. -/
def plainLines : List Bytes := [Text.utf8 "let x = 1;", Text.utf8 "x"]

/-- The same with other white space, and with a comment that is not valid UTF-8. -/
def spacedLines : List Bytes :=
  [Text.utf8 "\tlet x \n = 1; //" ++ [0xC3, 0x28], Text.utf8 "x "]

theorem respaced_plainLines :
    List.Forall₂ (Relation.ReflTransGen Respaced) plainLines spacedLines := by
  have hblank : Blank (Text.utf8 "\t") ∧ Blank (Text.utf8 " ") ∧ Blank (Text.utf8 " \n ") := by
    decide +kernel
  have hindented : Respaced (Text.utf8 "let x = 1;") (Text.utf8 "\tlet x = 1;") :=
    .leading [] (Text.utf8 "\t") _ Blank.nil hblank.1
  have hwithin : Respaced (Text.utf8 "\tlet x = 1;") (Text.utf8 "\tlet x \n = 1;") :=
    .within (Text.utf8 "\tlet x") (Text.utf8 " ") (Text.utf8 " \n ") (Text.utf8 "= 1;") hblank.2.1
      (by decide) hblank.2.2 (by decide)
  have hcomment : Respaced (Text.utf8 "\tlet x \n = 1;")
      (Text.utf8 "\tlet x \n = 1; //" ++ [0xC3, 0x28]) := .comment _ [0xC3, 0x28]
  have htrailing : Respaced (Text.utf8 "x") (Text.utf8 "x ") :=
    .trailing (Text.utf8 "x") [] (Text.utf8 " ") Blank.nil hblank.2.1
  exact .cons (((Relation.ReflTransGen.single hindented).tail hwithin).tail hcomment)
    (.cons (.single htrailing) .nil)

theorem parse_spacing_plainLines :
    ((∀ line ∈ plainLines, (segment line).2 = none) ∧
      List.Forall₂ (Relation.ReflTransGen Respaced) plainLines spacedLines ∧
        parseLines spacedLines = parseLines plainLines) ∧
      (∀ line ∈ (Text.splitAt Text.newline (Text.unlines plainLines)).dropLast,
        Source.fits line = true → Source.fits (line ++ [Text.carriageReturn]) = true) ∧
      parseText (Text.crlf (Text.unlines plainLines)) = parseText (Text.unlines plainLines) := by
  have hfault : ∀ line ∈ plainLines, (segment line).2 = none := by decide +kernel
  have hfits : ∀ line ∈ (Text.splitAt Text.newline (Text.unlines plainLines)).dropLast,
      Source.fits line = true → Source.fits (line ++ [Text.carriageReturn]) = true := by
    decide +kernel
  exact ⟨⟨hfault, respaced_plainLines, parse_spacing.1 _ _ hfault respaced_plainLines⟩, hfits,
    parse_spacing.2 _ hfits⟩

end LetFn
