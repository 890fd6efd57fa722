import LetFn.Proofs.Parse
import LetFn.Proofs.Session.Pull
import LetFn.Proofs.Token.Stream

/-!
# Parsing while reading

A session takes its tokens from a stream, one ahead of what it has parsed, and asks for lines as it
goes. Whether it has met a bad line when it stops depends on how far it got. `Session.parse_start`
says that this comes to the same as making all lines into tokens first: the bad line counts exactly
if no token was left.

So a bad line is what is reported if a module can begin with the words in front of it, and is not
even looked at otherwise (`parseLines_of_bad_line`).
-/

namespace LetFn

open Grammar Snippet

namespace Session

theorem advance_start (n : Nat) (s : Stream) : (start s).advance n = start (Stream.after n s) := by
  induction n generalizing s with
  | zero => rfl
  | succ n ih =>
    show advance n (start s.next.2) = _
    rw [ih, Stream.after_next]

/-- What a session says depends on the calls that its stream has answered. -/
theorem verdict_advance (n k : Nat) (lines : List Bytes) (result : Except ParseFault Node) :
    ((start (Stream.after n (Stream.start lines))).advance k).verdict result =
      match (Stream.after (n + k + 1) (Stream.start lines)).fault with
      | some fault => .error (.ofLexical fault)
      | none => result := by
  rw [advance_start, Stream.after_after]
  rfl

/-- From the token at index `n` on, parsing while reading gives the same verdict as reading
first. -/
theorem parse_after (lines : List Bytes) (n : Nat) :
    (start (Stream.after n (Stream.start lines))).parse.1 =
      Lexed.parse ⟨(Lexed.ofLines lines).tokens.drop n, (Lexed.ofLines lines).fault⟩ := by
  have hahead : (start (Stream.after n (Stream.start lines))).ahead =
      (Lexed.ofLines lines).tokens.drop n := by
    rw [ahead_start, Stream.remaining_after, Stream.remaining_start]
  have hlength := List.length_drop (i := n) (l := (Lexed.ofLines lines).tokens)
  rw [← hahead] at hlength
  simp only [Lexed.parse, ← hahead]
  rcases hmodule : Parser.module (start (Stream.after n (Stream.start lines))).ahead
    with ⟨expected, rest⟩ | m
  · obtain ⟨taken, _, _, htokens, -, -⟩ := Parser.completes_of_module hmodule
    simp only [parse_of_error hmodule, verdict_advance]
    rcases rest with _ | ⟨token, rest⟩
    · -- The session met the end, so it met the bad line as well.
      rw [List.length_nil, Nat.sub_zero, Stream.fault_after_of_le (by omega)]
      rcases (Lexed.ofLines lines).fault with _ | fault <;> rfl
    · -- The unexpected token is looked at, so no line behind it has been asked for.
      have hlt : n + ((start (Stream.after n (Stream.start lines))).ahead.length -
          (token :: rest).length) < (Lexed.ofLines lines).tokens.length := by
        rw [htokens, List.length_append, List.length_cons] at hlength ⊢
        omega
      rw [Stream.fault_after_of_lt hlt]
      rcases (Lexed.ofLines lines).fault with _ | fault <;> rfl
  · simp only [parse_of_ok hmodule, verdict_advance]
    rw [Stream.fault_after_of_le (by omega)]
    rcases (Lexed.ofLines lines).fault with _ | fault <;> rfl

/-- Parsing while reading gives the same verdict as reading first. -/
theorem parse_start (lines : List Bytes) :
    (start (Stream.start lines)).parse.1 = parseLines lines :=
  parse_after lines 0

end Session

/-! ## Bad lines

A line is bad from its first snippet that is no word, or from the byte that ended segmentation.
Tokens before it are those of the lines above; whether they can be completed decides which of the
two faults is reported. -/

namespace Parser

/-- No module begins with some words exactly if one of them is unexpected. -/
theorem not_viable_iff {ts : List Token} :
    ¬ Viable (ts.map Token.word) ↔
      ∃ expected token rest, module ts = .error ⟨expected, token :: rest⟩ := by
  constructor
  -- A module that went wrong at the end only can still be completed.
  · intro hnot
    by_cases hstuck : ∃ expected token rest, module ts = .error ⟨expected, token :: rest⟩
    · exact hstuck
    · refine absurd (viable_of_module ?_) hnot
      intro expected token rest hmodule
      exact hstuck ⟨expected, token, rest, hmodule⟩
  · rintro ⟨expected, token, rest, hmodule⟩ hviable
    obtain ⟨taken, -, hdead, -⟩ := deadEnd_of_module hmodule
    exact hdead (hviable.take _)

end Parser

namespace Lexed

/-- An unexpected word is reported whether a bad line follows or not. -/
theorem parse_of_stuck {l : Lexed} {expected : Parser.Expected} {token : Token}
    {rest : List Token} (h : Parser.module l.tokens = .error ⟨expected, token :: rest⟩) :
    l.parse = .error (.ofFailed ⟨expected, token :: rest⟩) := by
  unfold parse
  rw [h]
  rcases l.fault with _ | fault <;> rfl

theorem parse_of_viable {l : Lexed} {fault : LexicalFault} (hfault : l.fault = some fault)
    (hviable : Viable l.words) : l.parse = .error (.ofLexical fault) := by
  unfold parse
  rw [hfault]
  rcases hmodule : Parser.module l.tokens with ⟨expected, _ | ⟨token, rest⟩⟩ | m
  · rfl
  · exact absurd hviable (Parser.not_viable_iff.mpr ⟨expected, token, rest, hmodule⟩)
  · rfl

end Lexed

/-- If a module can begin with the words before the first bad line, that line is reported, with the
number of the line and of the snippets in front of its flaw. If not, the report is that about the
lines before it. Either way it does not matter that the lines are read only as they are needed. -/
theorem parseLines_of_bad_line (good rest : List Bytes) (bad : Bytes) (cause : LexicalCause)
    (hlines : (good ++ bad :: rest).length < UInt32.size)
    (hsnippets : ∀ line ∈ good ++ bad :: rest, (segment line).1.length < UInt32.size)
    (hgood : ∀ line ∈ good, isGood line = true) (hbad : flaw? bad = some cause) :
    (Session.start (.start (good ++ bad :: rest))).parse.1 = parseLines (good ++ bad :: rest) ∧
      (Viable (Lexed.ofLines good).words →
        ∃ loc, parseLines (good ++ bad :: rest) = .error ⟨.lexical cause, loc⟩ ∧
          loc.line.toNat = good.length + 1 ∧ loc.column.toNat = (soundSnippets bad).length) ∧
      (¬ Viable (Lexed.ofLines good).words →
        ∃ f, parseLines (good ++ bad :: rest) = .error f ∧ parseLines good = .error f) := by
  have hlexed := Lexed.ofLinesFrom_of_flaw hgood hbad 1 rest
  rw [← Lexed.ofLines, ← Lexed.ofLines] at hlexed
  refine ⟨Session.parse_start _, ?_, ?_⟩
  -- No word is unexpected, so the parser gets to the bad line.
  · intro hviable
    refine ⟨⟨1 + UInt32.ofNat good.length, UInt32.ofNat (soundSnippets bad).length⟩, ?_, ?_, ?_⟩
    · rw [parseLines, Lexed.parse_of_viable (congrArg Lexed.fault hlexed)]
      · rfl
      · rw [Lexed.words, hlexed]
        exact hviable
    · apply Lexed.toNat_lineNumber
      rw [List.length_append, List.length_cons] at hlines
      omega
    · have hcolumn := hsnippets bad (by simp)
      have hsound : (soundSnippets bad).length ≤ (segment bad).1.length :=
        (List.takeWhile_prefix _).length_le
      exact UInt32.toNat_ofNat_of_lt' (Nat.lt_of_le_of_lt hsound hcolumn)
  -- A word is unexpected, and it is whether the bad line follows or not.
  · intro hnot
    obtain ⟨expected, token, left, hmodule⟩ := Parser.not_viable_iff.mp hnot
    refine ⟨_, ?_, Lexed.parse_of_stuck hmodule⟩
    rw [parseLines, hlexed]
    exact Lexed.parse_of_stuck hmodule

/-- The line `b @ 1`, which is bad behind its first snippet. -/
def strayLine : Bytes := Text.utf8 "b @ 1"

theorem parseLines_strayLine :
    ([Text.utf8 "a;"] ++ strayLine :: [Text.utf8 "1 1"]).length < UInt32.size ∧
      (∀ line ∈ [Text.utf8 "a;"] ++ strayLine :: [Text.utf8 "1 1"],
        (segment line).1.length < UInt32.size) ∧
      (∀ line ∈ [Text.utf8 "a;"], isGood line = true) ∧
      flaw? strayLine = some (.invalid (Text.utf8 "@")) ∧
      ∃ loc, parseLines ([Text.utf8 "a;"] ++ strayLine :: [Text.utf8 "1 1"]) =
          .error ⟨.lexical (.invalid (Text.utf8 "@")), loc⟩ ∧
        loc.line.toNat = 2 ∧ loc.column.toNat = 1 := by
  have hsnippets : ∀ line ∈ [Text.utf8 "a;"] ++ strayLine :: [Text.utf8 "1 1"],
      (segment line).1.length < UInt32.size := by decide +kernel
  have hgood : ∀ line ∈ [Text.utf8 "a;"], isGood line = true := by decide +kernel
  have hbad : flaw? strayLine = some (.invalid (Text.utf8 "@")) := by decide +kernel
  have hwords : (Lexed.ofLines [Text.utf8 "a;"]).words =
      [.literal (Text.utf8 "a"), .operator .semicolon] := by decide +kernel
  have hviable : Viable (Lexed.ofLines [Text.utf8 "a;"]).words := by
    have hstatement := Statement.expression (.arith (.term (.factor (.atom (.literal
      (Text.utf8 "a"))))))
    rw [hwords]
    exact ⟨[], _, .mk (.cons hstatement .nil)⟩
  have hcolumn : (soundSnippets strayLine).length = 1 := by decide +kernel
  refine ⟨by decide, hsnippets, hgood, hbad, ?_⟩
  rw [← hcolumn]
  exact (parseLines_of_bad_line _ _ _ _ (by decide) hsnippets hgood hbad).2.1 hviable

end LetFn
