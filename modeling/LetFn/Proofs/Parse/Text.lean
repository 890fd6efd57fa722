import LetFn.Proofs.Node.RoundTrip
import LetFn.Proofs.Parse.Append
import LetFn.Proofs.Snippet.Cuts

/-!
# Parsing a text

Parsing a text is parsing its lines in front of the first that is over the limit (`parseText_eq`).
The verdict does not say that there was such a line. So a text that is accepted may go on behind
what was parsed, and the module is that of the whole text exactly if the lines that were not read
hold no tokens (`parseText_complete_iff`). They may hold a statement, which is then lost
(`parseText_drops_statement`).
-/

namespace LetFn

open Grammar Snippet

namespace Source

/-- The lines of a text in front of the first that is over the limit. -/
def readable (text : Bytes) : List Bytes := (Text.splitAt Text.newline text).takeWhile fits

/-- The lines of a text from the first that is over the limit on. -/
def unread (text : Bytes) : List Bytes := (Text.splitAt Text.newline text).dropWhile fits

theorem readable_append_unread (text : Bytes) :
    readable text ++ unread text = Text.splitAt Text.newline text :=
  List.takeWhile_append_dropWhile

/-- Lines that fit are read as they were before they were joined. -/
theorem readable_join {lines : List Bytes} (hne : lines ≠ [])
    (hlines : ∀ line ∈ lines, Text.newline ∉ line ∧ line.length < limit) :
    readable (Text.join [Text.newline] lines) = lines := by
  rw [readable, Text.splitAt_join hne fun line hline => (hlines line hline).1,
    List.takeWhile_eq_self_iff]
  intro line hline
  exact fits_iff.mpr (hlines line hline).2

end Source

theorem parseText_eq (text : Bytes) : parseText text = parseLines (Source.readable text) := by
  rw [parseText, parseLines, parseLines, Lexed.ofLines, Lexed.ofLinesFrom_ofText]
  rfl

/-! ## Lines without tokens

A module is empty only if there was nothing to parse. -/

/-- A line has no tokens if it has no snippets and is not bad. -/
theorem Token.ofLine_eq_nil_iff {n : UInt32} {line : Bytes} :
    ofLine n line = .ok [] ↔ segment line = ([], none) := by
  constructor
  · intro h
    have hsnippets := ofLine_eq_ok h
    rcases hline : segment line with ⟨_ | ⟨s, rest⟩, _ | fault⟩
    · rfl
    · simp [ofLine, hline, ofSnippets] at h
    all_goals
      rw [hline] at hsnippets
      obtain ⟨w, more, -, -, hcons⟩ := ofSnippets_cons hsnippets
      cases hcons
  · intro h
    simp [ofLine, h, ofSnippets]

theorem Lexed.ofLinesFrom_eq_nil_iff {n : UInt32} {lines : List Bytes} :
    ofLinesFrom n lines = ⟨[], none⟩ ↔ ∀ line ∈ lines, segment line = ([], none) := by
  induction lines generalizing n with
  | nil => simp [ofLinesFrom]
  | cons line rest ih =>
    rw [ofLinesFrom, List.forall_mem_cons, ← ih (n := n + 1), ← Token.ofLine_eq_nil_iff (n := n)]
    rcases Token.ofLine n line with fault | tokens
    · simp
    · rcases ofLinesFrom (n + 1) rest with ⟨more, fault⟩
      simp [and_assoc]

/-- Only tokens make statements, and all of them do. -/
theorem Parser.program_eq_nil_iff {ts : List Token} : program ts = .ok ([], []) ↔ ts = [] := by
  constructor
  · intro h
    rcases ts with _ | ⟨token, rest⟩
    · rfl
    rw [program_statement (List.cons_ne_nil _ _)] at h
    rcases hfirst : (statement (token :: rest)).outcome with e | ⟨x, left⟩
    · rw [hfirst] at h
      cases h
    · rw [hfirst, Outcome.andThen_ok] at h
      rcases hmore : program left with e | ⟨more, left⟩
      · rw [hmore] at h
        cases h
      · rw [hmore] at h
        cases h
  · rintro rfl
    exact program_nil

/-- A module without statements comes of lines without tokens only. -/
theorem parseLines_eq_nil_iff {lines : List Bytes} :
    (∃ m, parseLines lines = .ok m ∧ m.stmts = []) ↔
      ∀ line ∈ lines, segment line = ([], none) := by
  rw [← Lexed.ofLinesFrom_eq_nil_iff (n := 1), ← Lexed.ofLines]
  constructor
  · rintro ⟨m, hm, hstmts⟩
    obtain ⟨hfault, hmodule⟩ := Lexed.parse_eq_ok.mp hm
    obtain ⟨xs, hxs, rfl⟩ := Parser.module_eq_ok.mp hmodule
    obtain rfl : xs = [] := hstmts
    have htokens := Parser.program_eq_nil_iff.mp hxs
    rcases hlexed : Lexed.ofLines lines with ⟨tokens, fault⟩
    rw [hlexed] at hfault htokens
    cases hfault
    cases htokens
    rfl
  · intro hlexed
    refine ⟨.module .unknown [], Lexed.parse_eq_ok.mpr ?_, rfl⟩
    rw [hlexed]
    exact ⟨rfl, Parser.module_eq_ok.mpr ⟨[], Parser.program_nil, rfl⟩⟩

/-! ## Accepted texts

The text is judged by the lines that were read, so it is accepted for what it is exactly if those
that were not read have no tokens. -/

theorem Node.eraseAll_eq_nil_iff {xs : List Node} : eraseAll xs = [] ↔ xs = [] := by
  cases xs <;> simp

theorem Node.same_refl_of_parseLines {lines : List Bytes} {m : Node}
    (h : parseLines lines = .ok m) : m.same m = true :=
  same_of_erase_eq (isKnown_of_isWellFormed (isWellFormed_of_parseLines h)) rfl

/-- The module of an accepted text is that of all its lines, whatever their length, exactly if the
lines that were not read hold nothing but white space and comments. -/
theorem parseText_complete_iff {text : Bytes} {m : Node} (h : parseText text = .ok m) :
    (∃ n, parseLines (Text.splitAt Text.newline text) = .ok n ∧ n.same m = true) ↔
      ∀ line ∈ Source.unread text, segment line = ([], none) := by
  rw [parseText_eq] at h
  rw [← Source.readable_append_unread]
  constructor
  · rintro ⟨n, hn, hsame⟩
    obtain ⟨b, hb, hstmts⟩ := parseLines_cut h hn
    refine parseLines_eq_nil_iff.mp ⟨b, hb, ?_⟩
    have hsame := congrArg Node.stmts (Node.erase_eq_of_same hsame)
    rw [Node.stmts_erase, Node.stmts_erase, hstmts, List.append_right_eq_self] at hsame
    exact Node.eraseAll_eq_nil_iff.mp hsame
  · intro hunread
    have hlex := (Lexed.parse_eq_ok.mp h).1
    -- Lines without tokens change nothing at all.
    have hwhole : parseLines (Source.readable text ++ Source.unread text) = .ok m := by
      rw [← h, parseLines, parseLines, Lexed.ofLines, Lexed.ofLinesFrom_append _ hlex,
        Lexed.ofLinesFrom_eq_nil_iff.mpr hunread, List.append_nil]
      exact congrArg Lexed.parse (congrArg (Lexed.mk _) hlex.symm)
    exact ⟨m, hwhole, Node.same_refl_of_parseLines hwhole⟩

/-! ## Two texts with a line over the limit

A line over the limit is dropped with everything behind it. If it is a comment, nothing is lost; if
it is a statement, the tree lacks it. -/

theorem Source.readable_of_over {line long : Bytes} (hline : Text.newline ∉ line)
    (hnewline : Text.newline ∉ long) (hfits : fits line = true) (hlong : fits long = false) :
    readable (line ++ Text.newline :: long) = [line] ∧
      unread (line ++ Text.newline :: long) = [long] := by
  rw [readable, unread, Text.splitAt_line hline, Text.splitAt_single hnewline]
  simp [hfits, hlong]

theorem Grammar.statement_literal (text : Bytes) :
    Statement [.literal text, .operator .semicolon] (.literal .unknown text) :=
  .expression (.arith (.term (.factor (.atom (.literal text)))))

/-- The statement `a;`. -/
def shortLine : Bytes := Text.utf8 "a;"

/-- The tree of `shortLine`. -/
def shortTree : Node := .module .unknown [.literal .unknown (Text.utf8 "a")]

theorem newline_shortLine : Text.newline ∉ shortLine := by decide

theorem parseLines_shortLine : ∃ m, parseLines [shortLine] = .ok m ∧ m.erase = shortTree := by
  apply parseLines_of_derives
  · decide +kernel
  · have hwords : (Lexed.ofLines [shortLine]).words =
        [.literal (Text.utf8 "a"), .operator .semicolon] := by decide +kernel
    rw [hwords]
    exact .mk (.cons (statement_literal _) .nil)

/-- A comment that is over the limit. -/
def longComment : Bytes := List.replicate Source.limit '/'.toUInt8

/-- Slashes hold nothing if there are two or more. -/
theorem segment_slashes (n : Nat) :
    segment (List.replicate (n + 2) '/'.toUInt8) = ([], none) := by
  rw [List.replicate_succ, List.replicate_succ]
  exact segmentFrom_comment 0 (List.replicate n '/'.toUInt8)

theorem parseText_complete_longComment :
    (∃ m, parseText (shortLine ++ Text.newline :: longComment) = .ok m) ∧
      (∀ line ∈ Source.unread (shortLine ++ Text.newline :: longComment),
        segment line = ([], none)) ∧
      ∃ n, parseLines (Text.splitAt Text.newline (shortLine ++ Text.newline :: longComment)) =
        .ok n ∧ n.erase = shortTree := by
  have hnewline : Text.newline ∉ longComment := by
    intro hmem
    exact absurd (List.eq_of_mem_replicate hmem) (by decide)
  have hlong : Source.fits longComment = false := by
    simp [Source.fits, longComment]
  have hcut := Source.readable_of_over newline_shortLine hnewline (by decide) hlong
  obtain ⟨m, hm, hshort⟩ := parseLines_shortLine
  have hparse : parseText (shortLine ++ Text.newline :: longComment) = .ok m := by
    rw [parseText_eq, hcut.1, hm]
  have hunread : ∀ line ∈ Source.unread (shortLine ++ Text.newline :: longComment),
      segment line = ([], none) := by
    rw [hcut.2, List.forall_mem_singleton]
    exact segment_slashes (Source.limit - 2)
  obtain ⟨n, hn, hsame⟩ := (parseText_complete_iff hparse).mpr hunread
  exact ⟨⟨m, hparse⟩, hunread, n, hn, (Node.erase_eq_of_same hsame).trans hshort⟩

/-- The statement `b;` in a line that is over the limit because of the blanks it begins with. -/
def longLine : Bytes := Text.blanks Source.limit ++ Text.utf8 "b;"

/-- The words of `a;` and `b;`. -/
def bothWords : List Word :=
  [.literal (Text.utf8 "a"), .operator .semicolon, .literal (Text.utf8 "b"), .operator .semicolon]

/-- The tree of `a;` and `b;`. -/
def bothTree : Node :=
  .module .unknown [.literal .unknown (Text.utf8 "a"), .literal .unknown (Text.utf8 "b")]

theorem readsText_longLine : ReadsText (shortLine ++ Text.newline :: longLine) bothWords := by
  have hsemicolon : Word.classify? (Text.utf8 ";") = some (.operator .semicolon) := by decide
  have ha : Word.classify? (Text.utf8 "a") = some (.literal (Text.utf8 "a")) := by decide
  have hb : Word.classify? (Text.utf8 "b") = some (.literal (Text.utf8 "b")) := by decide
  have hsep (rest : Bytes) : Separates (Text.utf8 "a") (Text.utf8 ";" ++ rest) ∧
      Separates (Text.utf8 "b") (Text.utf8 ";" ++ rest) := by
    constructor <;>
    · intro b hb c hc
      cases hb
      cases hc
      decide
  have hlast : ReadsText (Text.utf8 ";" ++ []) [.operator .semicolon] :=
    readsText_append hsemicolon (by simp [Separates]) readsText_nil
  have hsecond : ReadsText longLine [.literal (Text.utf8 "b"), .operator .semicolon] :=
    readsText_blanks _ (readsText_append hb (hsep []).2 hlast)
  have hbreak : Separates (Text.utf8 ";") (Text.newline :: longLine) :=
    separates_blank (isRun_of_classify? hsemicolon) (by decide) longLine
  have hfirst := readsText_append hsemicolon hbreak (readsText_newline hsecond)
  have hboth := readsText_append ha (hsep _).1 hfirst
  exact hboth

/-- A line that is over the limit is left out without a word, and with it a statement. -/
theorem parseText_drops_statement :
    ∃ m n, parseText (shortLine ++ Text.newline :: longLine) = .ok m ∧ m.erase = shortTree ∧
      parseLines (Text.splitAt Text.newline (shortLine ++ Text.newline :: longLine)) = .ok n ∧
      n.erase = bothTree ∧ n.same m = false := by
  have hnewline : Text.newline ∉ longLine := by
    intro hmem
    rcases List.mem_append.mp hmem with hmem | hmem
    · exact absurd (List.eq_of_mem_replicate hmem) (by decide)
    · exact absurd hmem (by decide)
  have hlong : Source.fits longLine = false := by
    simp [Source.fits, longLine, Text.blanks]
  have hcut := Source.readable_of_over newline_shortLine hnewline (by decide) hlong
  obtain ⟨m, hm, hshort⟩ := parseLines_shortLine
  obtain ⟨hfault, hwords⟩ := readsLines_of_readsText readsText_longLine 1
  have hderives : Module bothWords bothTree :=
    .mk (.cons (statement_literal _) (.cons (statement_literal _) .nil))
  rw [← hwords] at hderives
  obtain ⟨n, hn, hboth⟩ := parseLines_of_derives hfault hderives
  refine ⟨m, n, ?_, hshort, hn, hboth, ?_⟩
  · rw [parseText_eq, hcut.1, hm]
  · rw [Bool.eq_false_iff]
    intro hsame
    have heq := Node.erase_eq_of_same hsame
    rw [hshort, hboth] at heq
    cases heq

end LetFn
