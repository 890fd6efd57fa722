import LetFn.Proofs.Parse.Text
import LetFn.Proofs.Text.Units
import LetFn.Repl.Probe

/-!
# Commands are never incomplete

A command begins with a colon, white space apart. No statement begins so, and white space that is
not ASCII makes its line bad, so a command is not a source that further lines could complete
(`isIncomplete_of_isCommand`). Asking first whether the input is a command therefore changes
nothing: `probe_eq` is what the probe comes to.
-/

namespace LetFn

open Category

/-! ## The first byte

Trimming and cutting into snippets agree on the first byte that is no white space, if it is
ASCII. -/

namespace Text

theorem trim_blank {b : UInt8} (hascii : isAscii b = true) (hb : isBlank b = true) (rest : Bytes) :
    trim (b :: rest) = trim rest := by
  have hspace : Piece.isSpace (.char (Char.ofNat b.toNat)) = true :=
    (encode_ascii hascii).2.trans hb
  simp only [trim, units_ascii hascii, List.dropWhile_cons, hspace, if_true]

theorem head?_trim {b : UInt8} (hascii : isAscii b = true) (hb : isBlank b = false)
    (rest : Bytes) : (trim (b :: rest)).head? = some b := by
  have hspace : Piece.isSpace (.char (Char.ofNat b.toNat)) = false :=
    (encode_ascii hascii).2.trans hb
  have hbytes : Piece.bytes (.char (Char.ofNat b.toNat)) = [b] := (encode_ascii hascii).1
  simp only [trim, units_ascii hascii, List.dropWhile_cons, hspace, Bool.false_eq_true, if_false,
    List.reverse_cons]
  rw [(Snippet.takeWhile_concat hspace _).2]
  simp [hbytes]

end Text

namespace Snippet

theorem front?_append (line rest : Bytes) :
    front? (line ++ rest) = (front? line).or (front? rest) := List.find?_append

end Snippet

open Snippet

namespace Token

/-- A line has no tokens only if it is empty or begins with a comment. -/
theorem front?_of_ofLine_nil {n : UInt32} {line : Bytes} (h : ofLine n line = .ok []) :
    ∀ b ∈ front? line, b = '/'.toUInt8 := by
  have hline : segmentFrom 0 line = ([], none) := ofLine_eq_nil_iff.mp h
  obtain ⟨hfront, -⟩ | ⟨_, _, _, -, -, hfault⟩ | ⟨_, _, _, _, -, -, hsome⟩ := scan_cases 0 line
  · exact hfront
  · rw [segmentFrom_fault hfault] at hline
    cases hline
  · rw [segmentFrom_snippet hsome] at hline
    cases hline

theorem front?_of_ofLine_cons {n : UInt32} {line : Bytes} {t : Token} {tokens : List Token}
    (h : ofLine n line = .ok (t :: tokens)) :
    ∃ b, front? line = some b ∧ t.word.spelling.head? = some b := by
  have hsnippets : ofSnippets n 0 (segmentFrom 0 line).1 = .ok (t :: tokens) := ofLine_eq_ok h
  obtain ⟨-, hnone⟩ | ⟨_, _, _, -, -, hfault⟩ | ⟨_, b, run, rest, -, hfront, hsome⟩ :=
    scan_cases 0 line
  · rw [segmentFrom_nothing hnone] at hsnippets
    cases hsnippets
  · rw [segmentFrom_fault hfault] at hsnippets
    cases hsnippets
  · rw [segmentFrom_snippet hsome] at hsnippets
    obtain ⟨w, more, hw, -, hcons⟩ := ofSnippets_cons hsnippets
    cases hcons
    refine ⟨b, hfront, ?_⟩
    rw [Word.spelling_of_classify? hw]
    rfl

end Token

/-- The first token of some lines begins with their first byte that is not white space, unless
that byte opens a comment. -/
theorem Lexed.front?_of_tokens {n : UInt32} {lines : List Bytes} {t : Token}
    {more : List Token} (ht : (ofLinesFrom n lines).tokens = t :: more) :
    ∃ b, front? lines.flatten = some b ∧
      (b = '/'.toUInt8 ∨ t.word.spelling.head? = some b) := by
  induction lines generalizing n with
  | nil => cases ht
  | cons line rest ih =>
    rw [ofLinesFrom] at ht
    rw [List.flatten_cons, front?_append]
    split at ht
    · cases ht
    · next tokens htokens =>
      -- A line without tokens is blank or a comment, and the next line is looked at if it is blank.
      rcases tokens with _ | ⟨u, further⟩
      · rcases hline : front? line with _ | c
        · exact ih ht
        · exact ⟨c, rfl, .inl (Token.front?_of_ofLine_nil htokens c hline)⟩
      · cases ht
        obtain ⟨c, hline, hspelling⟩ := Token.front?_of_ofLine_cons htokens
        rw [hline]
        exact ⟨c, rfl, .inr hspelling⟩

/-! ## Commands

A colon begins no statement, so a source that begins with one is refused at its first word; it is
complete in the sense of the probe, and the shortcut for commands changes nothing. -/

/-- A colon begins no word but itself, and a byte that is not ASCII begins none. -/
theorem Word.eq_colon_of_front {w : Word} {b : UInt8} (hw : w.isLexical = true)
    (hfront : w.spelling.head? = some b) (hb : b = ':'.toUInt8 ∨ isAscii b = false) :
    w = .operator .colon := by
  rcases w with text | op
  · rw [isLexical_literal, isName, Bool.and_eq_true, Bool.and_eq_true] at hw
    obtain ⟨rest, rfl⟩ := List.head?_eq_some_iff.mp hfront
    have halnum : isAlnum b = true := by
      have hall := hw.1.1
      simp only [isAlphanumeric, List.all_cons, Bool.and_eq_true] at hall
      exact hall.2.1
    rcases hb with rfl | hb
    · exact absurd halnum (by decide)
    · rw [isAscii_of_isAlnum halnum] at hb
      cases hb
  · have hall : ∀ op ∈ Operator.spelled, ∀ b ∈ op.spelling.head?,
        b = ':'.toUInt8 ∨ isAscii b = false → op = .colon := by decide +kernel
    have hspelled := mem_spelled_of_isLexical hw
    rw [hall op hspelled b hfront hb]

/-- Nothing begins with a colon. -/
theorem Parser.module_colon {loc : Location} {rest : List Token} :
    module (⟨.operator .colon, loc⟩ :: rest) =
      .error ⟨.operand, ⟨.operator .colon, loc⟩ :: rest⟩ := by
  have hfront : ∀ token ∈ ((⟨.operator .colon, loc⟩ :: rest : List Token)).head?,
      token.word = .operator .colon := by
    rintro token ⟨⟩
    rfl
  rw [module_eq_error, program_statement (List.cons_ne_nil _ _), outcome_statement_expression,
    outcome_expression_arithmetic (List.cons_ne_nil _ _), outcome_binary, outcome_atom_other]
  · rfl
  all_goals
    intro token htoken
    rw [hfront token htoken]
    decide

namespace Repl

/-- A command begins with a colon, or else with white space that is not ASCII. -/
theorem front?_of_isCommand {source : Bytes} (h : isCommand source = true) :
    ∃ b, front? source = some b ∧ (b = ':'.toUInt8 ∨ isAscii b = false) := by
  induction source with
  | nil => simp [isCommand, Text.trim, Text.units, Text.unitsAfter] at h
  | cons b rest ih =>
    -- Within ASCII, white space is the same for trimming and for cutting into snippets.
    rcases hascii : isAscii b with _ | _
    · have hblank : isBlank b = false := by
        rw [Bool.eq_false_iff]
        intro hblank
        rw [isAscii_of_isBlank hblank] at hascii
        cases hascii
      exact ⟨b, by simp [front?, hblank], .inr hascii⟩
    · rcases hblank : isBlank b with _ | _
      · rw [isCommand, Text.head?_trim hascii hblank, beq_iff_eq] at h
        refine ⟨b, ?_, .inl (Option.some.inj h)⟩
        simp [front?, hblank]
      · rw [isCommand, Text.trim_blank hascii hblank] at h
        obtain ⟨c, hfront, hc⟩ := ih h
        refine ⟨c, ?_, hc⟩
        rw [← hfront]
        simp [front?, hblank]

/-- Cutting a text into lines does not change its first byte. -/
theorem front?_flatten_splitAt (text : Bytes) :
    front? (Text.splitAt Text.newline text).flatten = front? text := by
  have hblank : isBlank Text.newline = true := by decide
  induction text with
  | nil => rfl
  | cons b rest ih =>
    by_cases hb : b = Text.newline
    · rw [hb, Text.splitAt_sep, List.flatten_cons, List.nil_append, ih]
      simp [front?, hblank]
    · have hne : Text.splitAt Text.newline rest ≠ [] := Text.splitAt_ne_nil rest
      obtain ⟨line, lines, hlines⟩ := List.exists_cons_of_ne_nil hne
      rw [hlines] at ih
      rw [Text.splitAt_cons hb, hlines]
      show front? (b :: (line :: lines).flatten) = _
      simp only [front?] at ih ⊢
      rw [List.find?_cons, List.find?_cons, ih]

/-- What can be read of a source begins as the source does. -/
theorem front?_of_readable {source : Bytes} {b : UInt8}
    (h : front? (Source.readable source).flatten = some b) : front? source = some b := by
  have hpre : (Source.readable source).flatten <+:
      (Text.splitAt Text.newline source).flatten := by
    refine ⟨(Source.unread source).flatten, ?_⟩
    rw [← List.flatten_append, Source.readable_append_unread]
  rw [← front?_flatten_splitAt]
  exact hpre.find?_eq_some h

/-- A source is incomplete if its tokens are fine but do not end with a statement. -/
theorem isIncomplete_iff {source : Bytes} :
    isIncomplete source = true ↔
      (Lexed.ofLines (Source.readable source)).fault = none ∧
        ∃ expected, Parser.module (Lexed.ofLines (Source.readable source)).tokens =
          .error ⟨expected, []⟩ := by
  rw [isIncomplete, parseText_eq]
  constructor
  · intro h
    split at h
    · cases h
    · next f hf =>
      rcases f with ⟨cause, loc⟩
      obtain ⟨expected, rfl⟩ := ParseCause.isIncomplete_iff.mp h
      obtain ⟨rest, hmodule, hlex, hfound, -⟩ := Lexed.parse_eq_unexpected.mp hf
      -- Something was left if a word was found, and then the source is not incomplete.
      rcases rest with _ | ⟨token, rest⟩
      · exact ⟨hlex rfl, expected, hmodule⟩
      · cases hfound
  · rintro ⟨hlex, expected, hmodule⟩
    have hf : parseLines (Source.readable source) =
        .error ⟨.unexpected expected none, .unknown⟩ :=
      Lexed.parse_eq_unexpected.mpr ⟨[], hmodule, fun _ => hlex, rfl, rfl⟩
    rw [hf]
    rfl

/-- A command is never a source that ended too early: it is bad, or the colon is unexpected. -/
theorem isIncomplete_of_isCommand {source : Bytes} (h : isCommand source = true) :
    isIncomplete source = false := by
  rw [Bool.eq_false_iff]
  intro hincomplete
  obtain ⟨-, expected, hmodule⟩ := isIncomplete_iff.mp hincomplete
  rcases htokens : (Lexed.ofLines (Source.readable source)).tokens with _ | ⟨t, more⟩
  · rw [htokens, Parser.module_eq_error, Parser.program_nil] at hmodule
    cases hmodule
  -- The first token begins with the first byte of the source, so it can only be a colon.
  obtain ⟨b, hfront, hb⟩ := front?_of_isCommand h
  obtain ⟨c, hlines, hc⟩ := Lexed.front?_of_tokens htokens
  obtain rfl : b = c := by
    rw [front?_of_readable hlines] at hfront
    exact (Option.some.inj hfront).symm
  have hlexical : t.word.isLexical = true := by
    apply Lexed.lexical_words 1 (Source.readable source)
    rw [← Lexed.ofLines, Lexed.words, htokens]
    exact List.mem_cons_self
  have hcolon : t.word = .operator .colon := by
    rcases hc with rfl | hspelling
    · exact absurd hb (by decide)
    · exact Word.eq_colon_of_front hlexical hspelling hb
  rcases t with ⟨word, loc⟩
  obtain rfl : word = .operator .colon := hcolon
  rw [htokens, Parser.module_colon] at hmodule
  cases hmodule

/-- What the probe says depends on completeness alone. -/
theorem probe_eq (pending line : Bytes) :
    probe pending line =
      if isIncomplete (extend pending line) then .more (extend pending line)
      else .done (extend pending line) := by
  simp only [probe]
  rcases hcommand : isCommand (extend pending line) with _ | _
  · simp
  · simp [isIncomplete_of_isCommand hcommand]

end Repl

end LetFn
