import LetFn.Proofs.Report.Alignment
import LetFn.Proofs.Report.Target

/-!
# Reports about parse faults

When the text of a file is no module, the report about the file has a frame with carets under what
parsing complained about (`report_shows_cause`). Two things come together here. The location of the
fault leads to the snippet that the fault is about (`Report.Target`), and a frame about a snippet
has its carets below the characters of that snippet (`Report.Alignment`). What remains is that the
lines which the frame shows can be read: they can if none of them is over the limit
(`readable_of_fits`).
-/

namespace LetFn

open Snippet
open Text (units encode newline)

namespace Report

/-- The report of a parse fault is its description with the body about its place. -/
theorem report_ofParseFault (look : Look) (disk : Disk) (f : ParseFault) (path : Bytes) :
    ((Failure.ofParseFault f).inFile path).report look disk =
      Text.unlines ((Text.splitAt newline (Failure.describe f)).map (look.paint .alarm) ++
        body look disk f.loc path) := by
  rcases f with ⟨cause | ⟨expected, found⟩, loc⟩ <;> rfl

/-- A caret is drawn for each character of a snippet, in whatever style. -/
theorem caretRow_of_encode {s : Snippet} {target : List Char} (hs : s.text = encode target)
    (look : Look) (pad : Nat) :
    caretRow look pad s = Text.blanks pad ++ Text.utf8 " │ " ++ Text.blanks s.offset ++
      look.paint .alarm (Text.times target.length (Text.utf8 "^")) := by
  rw [caretRow, Text.countChars, hs, Text.units_encode, List.length_map]

/-- The lines of a source are within the limit, so their snippets can be counted. -/
theorem length_segment_lt (text : Bytes) :
    ∀ line ∈ (Source.ofText text).lines, (segment line).1.length < UInt32.size := by
  intro line hline
  rw [Source.ofText_eq_ofPieces] at hline
  have hshort := Source.fits_iff.mp (Source.fits_of_mem_ofPieces line hline)
  have hle := length_segmentFrom_le 0 line
  exact Nat.lt_of_le_of_lt hle (Nat.lt_trans hshort (by decide))

/-- If the text of a file is no module, the report about the file has a frame, and the snippet that
the frame points at is the one that the fault is about. The line in question is read anew for that
and cut into snippets anew, one more carriage return dropped. The line shows as `before ++ target ++
after`, where `target` is the snippet, and the row below it has a caret for each character of
`target`, behind as many blanks as `before` has characters. So it has one caret at least. The carets
are there in any style, and without styles all seven rows are aligned. -/
theorem report_shows_cause {disk : Disk} {path text : Bytes} {f : ParseFault}
    (hread : disk.read path = .ok text)
    (hlines : (Source.ofText text).lines.length < UInt32.size)
    (hf : parseText text = .error f) (hvalid : f.loc.isValid = true)
    (hfits : ∀ line ∈ (Text.splitAt Text.newline text).take (f.loc.line.toNat + 1),
      line.length < Source.limit) :
    ∃ w line s before target after, window (Source.ofText text) f.loc.line.toNat = .ok w ∧
      w.current = some line ∧ (visibleSnippets line)[f.loc.column.toNat]? = some s ∧
      PointsAt line s f.cause ∧ shownLine line = before ++ target ++ after ∧
      before.length = s.offset ∧ target ≠ [] ∧ s.text = encode target ∧
      ∀ look : Look, ∃ rows : Rows,
        ((Failure.ofParseFault f).inFile path).report look disk =
          Text.unlines ((Text.splitAt newline (Failure.describe f)).map (look.paint .alarm) ++
            (Text.utf8 "Inside file '" ++ disk.canonical path ++ Text.utf8 "':") :: rows.toList) ∧
        rows.caret = Text.blanks (gutter f.loc.line.toNat) ++ Text.utf8 " │ " ++
          Text.blanks before.length ++
          look.paint .alarm (Text.times target.length (Text.utf8 "^")) ∧
        (look.styles = none →
          Aligned (Source.ofText text).lines f.loc.line.toNat (gutter f.loc.line.toNat + 1)
            look.width before target after rows) := by
  -- From the location to the snippet, and from the snippet to its place in the shown line.
  obtain ⟨line, s, hline, hs, hpoints⟩ :=
    pointsAt_of_parseLines hlines (length_segment_lt text) hf hvalid
  obtain ⟨before, target, after, hshown, hlength, hne, htarget⟩ := exists_place hs
  have hreadable := readable_of_fits hfits
  refine ⟨linesAround (Source.ofText text).lines f.loc.line.toNat, line, s, before, target, after,
    window_of_readable hreadable, hline, hs, hpoints, hshown, hlength, hne, htarget, ?_⟩
  -- The rows do not depend on the fault but on the line and the snippet.
  intro look
  refine ⟨frameRows look f.loc.line.toNat
      (linesAround (Source.ofText text).lines f.loc.line.toNat) (visibleSnippets line)
      f.loc.column.toNat s, ?_, ?_, fun hplain => aligned_frameRows hplain hshown hlength htarget _⟩
  · rw [report_ofParseFault, body_of_readable hread hvalid hreadable hline hs]
  · rw [hlength]
    exact caretRow_of_encode htarget look (gutter f.loc.line.toNat)

/-- The second line has a snippet that is no word, and two carriage returns at its end. -/
def reportedText : Bytes := Text.utf8 "let a = 1;\r\nb\t@ c; // x\r\r\nd;"

/-- What is wrong with `reportedText`. -/
def reportedFault : ParseFault := ⟨.lexical (.invalid (Text.utf8 "@")), ⟨2, 1⟩⟩

/-- The disk on which every path holds `reportedText`. -/
def reportedDisk : Disk := ⟨fun _ => .ok reportedText, fun _ => true, id⟩

/-- The second line of `reportedText` and its neighbours, as a report reads them. -/
def reportedWindow : Window :=
  ⟨some (Text.utf8 "let a = 1;"), some (Text.utf8 "b\t@ c; // x"), some (Text.utf8 "d;")⟩

/-- The report about the file has a caret under that snippet. -/
theorem report_shows_reportedFault :
    parseText reportedText = .error reportedFault ∧ reportedFault.loc.isValid = true ∧
      window (Source.ofText reportedText) 2 = .ok reportedWindow ∧
      (visibleSnippets (Text.utf8 "b\t@ c; // x"))[1]? = some ⟨Text.utf8 "@", 2⟩ ∧
      ∃ (head : List Bytes) (rows : Rows),
        ((Failure.ofParseFault reportedFault).inFile []).report .plain reportedDisk =
          Text.unlines (head ++ rows.toList) ∧
        rows.caret = Text.utf8 "   │   ^" := by
  have hparse : (match parseText reportedText with
      | .ok _ => none
      | .error f => some f) = some reportedFault := by decide +kernel
  have hf : parseText reportedText = .error reportedFault := by
    split at hparse
    · cases hparse
    · next f hf =>
      cases hparse
      exact hf
  have hlines : (Source.ofText reportedText).lines.length < UInt32.size := by decide +kernel
  have hfits : ∀ line ∈ (Text.splitAt Text.newline reportedText).take 3,
      line.length < Source.limit := by decide +kernel
  have hread : reportedDisk.read [] = .ok reportedText := rfl
  have hwindow : window (Source.ofText reportedText) 2 = .ok reportedWindow := by decide +kernel
  have hsnippet : (visibleSnippets (Text.utf8 "b\t@ c; // x"))[1]? = some ⟨Text.utf8 "@", 2⟩ := by
    decide +kernel
  obtain ⟨w, line, s, before, target, after, hw, hline, hs, -, -, hlength, -, htarget, hreport⟩ :=
    report_shows_cause hread hlines hf rfl hfits
  obtain ⟨rows, hrows, hcaret, -⟩ := hreport .plain
  rw [List.append_cons] at hrows
  refine ⟨hf, rfl, hwindow, hsnippet, _, rows, hrows, ?_⟩
  -- The window has one line in question, and that has one snippet with the index 1.
  obtain rfl := Except.ok.inj (hw.symm.trans hwindow)
  obtain rfl := Option.some.inj hline
  obtain rfl := Option.some.inj (hs.symm.trans hsnippet)
  have hone : target.length = 1 := by
    have hunits := congrArg (fun text => (units text).length) htarget
    rw [Text.units_encode, List.length_map] at hunits
    rw [← hunits]
    decide +kernel
  rw [hcaret, hlength, hone]
  decide +kernel

end Report

end LetFn
