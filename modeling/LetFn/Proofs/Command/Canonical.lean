import LetFn.Proofs.Command.Verdict

/-!
# Canonical form is final

Printing a file in canonical form parses it and writes its tree. What is written parses to the same
tree again, and writing a tree does not depend on its locations, so a file that holds the canonical
form is printed as it stands and passes the check (`runFmt_fixpoint`).
-/

namespace LetFn.Command

open Source Text

variable {w : World} {s : Setup} {path content : Bytes} {m : Node} {log : Bytes}

/-- What was made of a file is what some lines make up. -/
theorem exists_lines_of_parseFile (h : parseFile w s path = .ok (m, log)) :
    ∃ lines, parseLines lines = .ok m := by
  rw [parseFile] at h
  split at h
  · cases h
  · next source _ =>
    split at h
    · cases h
    · cases h
    · next hm =>
      cases h
      exact ⟨source.lines, hm⟩

/-- A text of which all lines can be read is parsed as a file just as it is by itself. -/
theorem exists_parseFile_of_parseText (hread : w.disk.read path = .ok content)
    (hfits : IsReadable content) (hm : parseText content = .ok m) :
    ∃ log, parseFile w s path = .ok (m, log) := by
  have hmet : (ofText content).metFault = none :=
    (metFault_of_parseLines hm).trans (fault_ofText_eq_none_iff.mpr hfits)
  rw [parseText] at hm
  simp only [parseFile, source_of_read hread, hmet, hm]
  exact ⟨_, rfl⟩

/-- If a file can be printed in canonical form, and no line of that is over the limit, then a file
that holds what was printed is printed as it stands, and checking it finds nothing to say. -/
theorem runFmt_fixpoint (w : World) (s : Setup) (path : Bytes)
    (hok : (runFmt w s path false).2 = 0)
    (hlimit : ∀ line ∈ splitAt newline (runFmt w s path false).1.out, line.length + 1 ≤ limit)
    (w' : World) (s' : Setup) (path' : Bytes)
    (hread : w'.disk.read path' = .ok (runFmt w s path false).1.out) :
    (runFmt w' s' path' false).2 = 0 ∧
      (runFmt w' s' path' false).1.out = (runFmt w s path false).1.out ∧
      (runFmt w' s' path' true).2 = 0 ∧ (runFmt w' s' path' true).1.out = [] := by
  obtain ⟨m, log, hfile⟩ := status_runFmt.mp hok
  obtain ⟨lines, hm⟩ := exists_lines_of_parseFile hfile
  have hout : (runFmt w s path false).1.out = m.format := by
    rw [runFmt, hfile]
    rfl
  rw [hout] at hlimit hread ⊢
  -- The printed text is parsed as the same tree up to locations, and canonical text does not show
  -- these.
  obtain ⟨n, hn, hsame⟩ :=
    Node.parseText_format_of_isWellFormed (Node.isWellFormed_of_parseLines hm) hlimit
  have hformat := Node.format_eq_of_same hsame
  obtain ⟨log', hfile'⟩ := exists_parseFile_of_parseText (s := s') hread hlimit hn
  have hprint : runFmt w' s' path' false = (⟨n.format, log'⟩, 0) := by
    rw [runFmt, hfile']
    rfl
  have hcheck : runFmt w' s' path' true = (⟨[], log'⟩, 0) := by
    simp only [runFmt, hfile', hread, hformat, if_true]
  rw [hprint, hcheck]
  exact ⟨rfl, hformat, rfl, rfl⟩

/-- A module with signs, needless and needed parentheses, a function and a comment. -/
def looseText : Bytes := utf8 "let f=fn(a:b):c\x7b-(a)**2*(1-(2) );\x7d;\n\n (x) - +(y-z); // end"

/-- `looseText` in canonical form. -/
def tidyText : Bytes := (runFmt (worldOf looseText) plainSetup [] false).1.out

theorem runFmt_tidyText :
    (runFmt (worldOf looseText) plainSetup [] false).2 = 0 ∧ tidyText ≠ looseText ∧
      (∀ line ∈ splitAt newline tidyText, line.length + 1 ≤ limit) ∧
      (runFmt (worldOf tidyText) plainSetup [] false).1.out = tidyText ∧
      (runFmt (worldOf tidyText) plainSetup [] true).2 = 0 := by
  have hok : (runFmt (worldOf looseText) plainSetup [] false).2 = 0 := by decide +kernel
  have hlimit : ∀ line ∈ splitAt newline tidyText, line.length + 1 ≤ limit := by decide +kernel
  obtain ⟨-, hout, hcheck, -⟩ :=
    runFmt_fixpoint _ _ _ hok hlimit (worldOf tidyText) plainSetup [] rfl
  exact ⟨hok, by decide +kernel, hlimit, hout, hcheck⟩

end LetFn.Command
