import LetFn.Command.Run
import LetFn.Proofs.Parse.Text
import LetFn.Proofs.Token.Stream

/-!
# Which files the commands accept

Three commands work on a source file, and each has its own order of asking for tokens, looking for
a bad line and looking whether the file could be read. They agree all the same
(`commands_agree`): a file is accepted if all of its lines can be read and they make up a module,
or, where only tokens are asked for, if none of them is bad.
-/

namespace LetFn

open Snippet Text

/-! ## Texts -/

namespace Source

/-- All lines of the text can be read. -/
def IsReadable (text : Bytes) : Prop := ∀ line ∈ splitAt newline text, line.length < limit

/-- All lines of the text can be read, and they make up a module. -/
def IsModule (text : Bytes) : Prop :=
  IsReadable text ∧ ∃ m, parseLines (splitAt newline text) = .ok m

/-- All lines of the text can be read, and none of them is bad. -/
def HasTokens (text : Bytes) : Prop :=
  IsReadable text ∧ ∀ line ∈ splitAt newline text, isGood line = true

theorem isModule_iff {text : Bytes} :
    IsModule text ↔ (ofText text).fault = none ∧ ∃ m, parseLines (ofText text).lines = .ok m := by
  rw [IsModule, IsReadable, ← fault_ofText_eq_none_iff]
  apply and_congr_right
  intro hfits
  rw [fault_ofText_eq_none_iff] at hfits
  rw [parseLines, parseLines, Lexed.ofLines, Lexed.ofLines,
    Lexed.ofLinesFrom_ofText_of_fits 1 hfits]

theorem hasTokens_iff {text : Bytes} :
    HasTokens text ↔
      (ofText text).fault = none ∧ (Lexed.ofLines (ofText text).lines).fault = none := by
  rw [HasTokens, IsReadable, ← fault_ofText_eq_none_iff]
  apply and_congr_right
  intro hfits
  rw [fault_ofText_eq_none_iff] at hfits
  rw [Lexed.ofLines, Lexed.ofLinesFrom_ofText_of_fits 1 hfits, Lexed.fault_eq_none_iff]

theorem IsModule.hasTokens {text : Bytes} (h : IsModule text) : HasTokens text := by
  obtain ⟨hfits, m, hm⟩ := h
  exact ⟨hfits, Lexed.fault_eq_none_iff.mp (Lexed.parse_eq_ok.mp hm).1⟩

/-- A module is parsed to the end of its source, so the reader's fault is met. -/
theorem metFault_of_parseLines {s : Source} {m : Node} (h : parseLines s.lines = .ok m) :
    s.metFault = s.fault := by
  obtain ⟨hfault, hmodule⟩ := Lexed.parse_eq_ok.mp h
  simp [metFault, Lexed.reachesEnd, hfault, hmodule]

end Source

/-! ## Commands

Three commands share reading and differ in what they ask of the text. The exit code and the standard
output of each are computed for a text that was read, and the theorem compares them. -/

namespace Command

open Source

variable {w : World} {s : Setup} {path content : Bytes}

theorem source_of_read (hread : w.disk.read path = .ok content) :
    w.disk.source path = .ok (ofText content) := by
  rw [Disk.source, hread]

/-- Parsing a file succeeds exactly on the modules: whoever got to the end of the tokens has also
asked for the line that could not be read. -/
theorem exists_parseFile_iff (hread : w.disk.read path = .ok content) :
    (∃ m log, parseFile w s path = .ok (m, log)) ↔ IsModule content := by
  rw [isModule_iff]
  simp only [parseFile, source_of_read hread]
  constructor
  · rintro ⟨m, log, h⟩
    split at h
    · cases h
    · cases h
    · next n hmet hn => exact ⟨(metFault_of_parseLines hn).symm.trans hmet, n, hn⟩
  · rintro ⟨hfault, m, hm⟩
    rw [(metFault_of_parseLines hm).trans hfault, hm]
    exact ⟨m, _, rfl⟩

theorem status_runParse {format : Bytes} (hformat : format = utf8 "text" ∨ format = utf8 "json") :
    (runParse w s path format).2 = 0 ↔ ∃ m log, parseFile w s path = .ok (m, log) := by
  rw [runParse]
  split
  · next text htext => simp [htext]
  · next m log hm =>
    refine ⟨fun _ => ⟨m, log, hm⟩, fun _ => ?_⟩
    rcases hformat with rfl | rfl
    · rw [if_neg (by decide), if_pos rfl]
    · rw [if_pos rfl]

theorem status_runFmt :
    (runFmt w s path false).2 = 0 ↔ ∃ m log, parseFile w s path = .ok (m, log) := by
  rw [runFmt]
  split
  · next text htext => simp [htext]
  · next m log hm => exact ⟨fun _ => ⟨m, log, hm⟩, fun _ => rfl⟩

theorem status_runTokens (hread : w.disk.read path = .ok content) :
    (runTokens w s path).2 = 0 ↔ HasTokens content := by
  -- Every token has been taken, so the stream has met the first bad line, if there is one.
  have hdrain := Stream.fault_drain (ofText content).lines
  rw [hasTokens_iff, ← hdrain]
  simp only [runTokens, source_of_read hread]
  rcases (Stream.start (ofText content).lines).drain.2.fault with _ | f <;>
    rcases (ofText content).fault with _ | g <;> simp

theorem out_runParse {format : Bytes} (h : (runParse w s path format).2 ≠ 0) :
    (runParse w s path format).1.out = [] := by
  rw [runParse] at h ⊢
  split at h
  · rfl
  · split at h
    · exact absurd rfl h
    · split at h
      · exact absurd rfl h
      · next hjson htext => simp [hjson, htext]

theorem out_runFmt (h : (runFmt w s path false).2 ≠ 0) : (runFmt w s path false).1.out = [] := by
  rw [runFmt] at h ⊢
  split at h
  · rfl
  · exact absurd rfl h

/-- The commands agree on files: printing the tree and printing the canonical form succeed on the
modules, printing the tokens on all texts that have no bad line, and none of them succeeds if the
file could not be read to its end. A command that prints a tree or a canonical form prints nothing
if it fails. -/
theorem commands_agree (w : World) (s : Setup) {path content : Bytes}
    (hread : w.disk.read path = .ok content) :
    (∀ format, format = utf8 "text" ∨ format = utf8 "json" →
      ((runParse w s path format).2 = 0 ↔ IsModule content) ∧
        ((runParse w s path format).2 = 0 → (runTokens w s path).2 = 0)) ∧
      ((runFmt w s path false).2 = 0 ↔ IsModule content) ∧
      ((runTokens w s path).2 = 0 ↔ HasTokens content) ∧
      (∀ format, (runParse w s path format).2 ≠ 0 → (runParse w s path format).1.out = []) ∧
      ((runFmt w s path false).2 ≠ 0 → (runFmt w s path false).1.out = []) := by
  have hparse := exists_parseFile_iff (s := s) hread
  have htokens := status_runTokens (s := s) hread
  refine ⟨?_, status_runFmt.trans hparse, htokens, fun _ => out_runParse, out_runFmt⟩
  intro format hformat
  have hmodule := (status_runParse hformat).trans hparse
  exact ⟨hmodule, fun h => htokens.mpr (hmodule.mp h).hasTokens⟩

/-- A run on a disk on which every path holds `text`. -/
def worldOf (text : Bytes) : World where
  env := ⟨[]⟩
  disk := ⟨fun _ => .ok text, fun _ => true, id⟩
  stamp := []
  run := []
  terminal := false
  styles := fun _ text => text

/-- The default settings and a log without records. -/
def plainSetup : Setup := ⟨.default, ⟨.error, .pairs, [], []⟩⟩

/-- A module with a comment that is not ASCII. -/
def acceptedText : Bytes := utf8 "x; // \u00e9\r\n"

/-- No module, but without a bad line. -/
def refusedText : Bytes := utf8 "x y; // \u00e9"

theorem commands_agree_acceptedText :
    (runParse (worldOf acceptedText) plainSetup [] (utf8 "json")).2 = 0 ∧
      (runTokens (worldOf refusedText) plainSetup []).2 = 0 ∧
      (runFmt (worldOf refusedText) plainSetup [] false).2 ≠ 0 ∧
      (runFmt (worldOf refusedText) plainSetup [] false).1.out = [] := by
  have hread (text : Bytes) : (worldOf text).disk.read [] = .ok text := rfl
  obtain ⟨hparse, -⟩ := commands_agree (worldOf acceptedText) plainSetup (hread _)
  obtain ⟨-, hfmt, htokens, -, hout⟩ := commands_agree (worldOf refusedText) plainSetup (hread _)
  have hok : ∃ m, parseLines (splitAt newline acceptedText) = .ok m := by
    have h : (parseLines (splitAt newline acceptedText)).isOk = true := by decide +kernel
    rcases hm : parseLines (splitAt newline acceptedText) with f | m
    · rw [hm] at h
      cases h
    · exact ⟨m, rfl⟩
  have hmodule : IsModule acceptedText := by
    refine ⟨?_, hok⟩
    unfold IsReadable
    decide +kernel
  have hgood : HasTokens refusedText := by
    unfold HasTokens IsReadable
    decide +kernel
  have hbad : ¬ IsModule refusedText := by
    rintro ⟨-, m, hm⟩
    have h : (parseLines (splitAt newline refusedText)).isOk = false := by decide +kernel
    rw [hm] at h
    cases h
  have hne : (runFmt (worldOf refusedText) plainSetup [] false).2 ≠ 0 := fun h => hbad (hfmt.mp h)
  exact ⟨(hparse _ (.inr rfl)).1.mpr hmodule, htokens.mpr hgood, hne, hout hne⟩

end Command

end LetFn
