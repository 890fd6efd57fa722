import LetFn.Proofs.Session

/-!
# Where a session stops

A session that ends with a fault in line `k` has asked for `k` lines, no more and no fewer: the
unexpected token is looked at and nothing behind it, and a bad line is the last one read. So the
verdict is the same for all sources that begin with those lines, since an unexpected token stays
unexpected whatever follows it. And the session can go on: parsing again begins with the unexpected
token (`parse_stops_at_fault`).
-/

namespace LetFn.Session

open Grammar

variable {lines : List Bytes}

/-- A session at the beginning of its lines. -/
def ofLines (lines : List Bytes) : Session := start (.start lines)

theorem ahead_ofLines : (ofLines lines).ahead = (Lexed.ofLines lines).tokens := by
  rw [ofLines, ahead_start, Stream.remaining_start]

/-! ## What has been taken -/

/-- Every token in front of the unexpected one has been taken, and that one is looked at. -/
theorem parse_ofLines_of_stuck {expected : Parser.Expected} {taken rest : List Token} {token : Token}
    (htokens : (Lexed.ofLines lines).tokens = taken ++ token :: rest)
    (h : Parser.module (Lexed.ofLines lines).tokens = .error ⟨expected, token :: rest⟩) :
    (ofLines lines).parse.2 = start (Stream.after taken.length (.start lines)) := by
  rw [← ahead_ofLines] at h
  rw [parse_of_error h, ahead_ofLines, htokens, List.length_append, Nat.add_sub_cancel]
  exact advance_start _ _

/-- If the bad line is what counts, every token has been taken. -/
theorem parse_ofLines_of_lexical {cause : LexicalCause} {loc : Location}
    (h : parseLines lines = .error ⟨.lexical cause, loc⟩) :
    (ofLines lines).parse.2 =
      start (Stream.after (Lexed.ofLines lines).tokens.length (.start lines)) := by
  rcases hmodule : Parser.module (Lexed.ofLines lines).tokens with ⟨expected, _ | ⟨token, rest⟩⟩ | m
  · rw [← ahead_ofLines] at hmodule
    rw [parse_of_error hmodule, ahead_ofLines]
    exact advance_start _ _
  · have hstuck := Lexed.parse_of_stuck hmodule
    rw [← parseLines, h] at hstuck
    cases hstuck
  · rw [← ahead_ofLines] at hmodule
    rw [parse_of_ok hmodule, ahead_ofLines]
    exact advance_start _ _

/-! ## The lines up to the fault decide

Later lines have not been read when the fault is met. Cutting them off changes neither the tokens
before the fault nor what is said about it. -/

/-- The tokens in front of an unexpected one and the lines they are in leave no choice. -/
theorem parseLines_of_stuck_take {k : Nat} {taken pending : List Token} {token : Token}
    {expected : Parser.Expected} {rest : List Token}
    (htokens : (Lexed.ofLines lines).tokens = taken ++ token :: rest)
    (h : Parser.module (Lexed.ofLines lines).tokens = .error ⟨expected, token :: rest⟩)
    (hread : Lexed.ofLines (lines.take k) = ⟨taken ++ token :: pending, none⟩)
    {others : List Bytes} (hothers : others.take k = lines.take k) :
    parseLines others = .error ⟨.unexpected expected (some token.word), token.loc⟩ := by
  have hfault : (Lexed.ofLinesFrom 1 (others.take k)).fault = none := by
    rw [hothers, ← Lexed.ofLines, hread]
  have happend := Lexed.ofLinesFrom_append (others.drop k) hfault
  rw [List.take_append_drop, hothers, ← Lexed.ofLines, ← Lexed.ofLines, hread] at happend
  rw [htokens] at h
  rw [parseLines, happend]
  refine Lexed.parse_of_stuck (Eq.trans (congrArg Parser.module ?_) (Parser.module_error_of_stuck h
    (pending ++ (Lexed.ofLinesFrom (1 + UInt32.ofNat (lines.take k).length)
      (others.drop k)).tokens)))
  rw [List.append_assoc]
  rfl

/-- Behind a bad line nothing is read. -/
theorem ofLines_of_fault_take {k : Nat} {fault : LexicalFault}
    (hread : (Lexed.ofLines (lines.take k)).fault = some fault) {others : List Bytes}
    (hothers : others.take k = lines.take k) : Lexed.ofLines others = Lexed.ofLines lines := by
  have hlines := Lexed.ofLinesFrom_append_of_fault (lines.drop k) hread
  rw [← hothers] at hread
  have hsame := Lexed.ofLinesFrom_append_of_fault (others.drop k) hread
  rw [List.take_append_drop] at hlines hsame
  rw [Lexed.ofLines, Lexed.ofLines, hlines, hsame, hothers]

/-! ## Faults in a line

The two kinds of fault end in the same facts: how many lines were read, what they were, where the
session stands, and that parsing once more gives the same answer. -/

/-- The session `s` has stopped at the fault `f` of its lines. -/
structure Stopped (lines : List Bytes) (f : ParseFault) (s : Session) : Prop where
  /-- The line of the fault is the last one that was asked for. -/
  reads : s.stream.reads = f.loc.line.toNat
  line : s.stream.line.toNat = f.loc.line.toNat
  /-- The fault is that of all sources which begin with the lines up to it. -/
  decided : ∀ others, others.take f.loc.line.toNat = lines.take f.loc.line.toNat →
    (ofLines others).parse.1 = .error f
  /-- An unexpected token is the first with which no module can go on. It is the last one taken from
  the stream, and what is parsed next begins with it. -/
  front : ∀ expected found, f.cause = .unexpected expected found →
    s.stream.loc = f.loc ∧
      ∃ i token, (Lexed.ofLines lines).tokens[i]? = some token ∧
        DeadEnd (Lexed.ofLines lines).words i ∧ found = some token.word ∧ f.loc = token.loc ∧
        s.front = some token ∧
        s.parse.1 =
          Lexed.parse ⟨(Lexed.ofLines lines).tokens.drop i, (Lexed.ofLines lines).fault⟩

theorem stopped_of_lexical (hlines : lines.length < UInt32.size) {cause : LexicalCause}
    {loc : Location} (h : parseLines lines = .error ⟨.lexical cause, loc⟩) :
    Stopped lines ⟨.lexical cause, loc⟩ (ofLines lines).parse.2 := by
  have hfault := Lexed.fault_of_parse h
  have hreads := Stream.reads_of_fault hlines hfault
  have hreached := Stream.reached_after lines ((Lexed.ofLines lines).tokens.length + 1)
  have hmet := Stream.fault_after_of_le (Nat.le_refl (Lexed.ofLines lines).tokens.length)
  rw [parse_ofLines_of_lexical h]
  refine ⟨hreads, ?_, ?_, ?_⟩
  · have hline := (Stream.current_after lines ((Lexed.ofLines lines).tokens.length + 1)).fault
    rw [hmet, hfault] at hline
    exact congrArg UInt32.toNat (hline _ rfl).symm
  -- The lines read so far end with the bad one, so nothing behind them is asked for.
  · intro others hothers
    have hread : (Lexed.ofLines (lines.take loc.line.toNat)).fault = some ⟨cause, loc⟩ := by
      have hlexed := congrArg Lexed.fault hreached.lexed
      rw [hreads] at hlexed
      rw [hlexed, hmet, hfault]
    rw [ofLines, parse_start, parseLines, ofLines_of_fault_take hread hothers]
    exact h
  · rintro _ _ ⟨⟩

theorem stopped_of_unexpected (hlines : lines.length < UInt32.size) {expected : Parser.Expected}
    {token : Token} {rest : List Token}
    (h : Parser.module (Lexed.ofLines lines).tokens = .error ⟨expected, token :: rest⟩) :
    Stopped lines ⟨.unexpected expected (some token.word), token.loc⟩ (ofLines lines).parse.2 := by
  obtain ⟨taken, htokens, hdead⟩ := Parser.deadEnd_of_module h
  have hget : (Lexed.ofLines lines).tokens[taken.length]? = some token := by
    rw [htokens, List.getElem?_append_right (Nat.le_refl _), Nat.sub_self]
    rfl
  obtain ⟨hlt, htoken⟩ := List.getElem?_eq_some_iff.mp hget
  have hreads := Stream.reads_of_token hlines hlt
  have hreached := Stream.reached_after lines (taken.length + 1)
  -- The unexpected token has been handed out, and it is the last so far.
  have hgiven : Stream.given (taken.length + 1) (.start lines) = taken ++ [token] := by
    rw [Stream.given_eq_take, Stream.remaining_start, List.take_add_one, hget, htokens,
      List.take_left]
    rfl
  rw [htoken] at hreads
  rw [hgiven] at hreached
  rw [parse_ofLines_of_stuck htokens h]
  refine ⟨hreads, ?_, ?_, ?_⟩
  · have hline := (Stream.current_after lines taken.length).next.2
    rw [Stream.next_after, Stream.remaining_start, hget] at hline
    exact congrArg UInt32.toNat (hline _ rfl).symm
  -- Up to its line the tokens are the same, whatever other lines follow.
  · intro others hothers
    have hread := hreached.lexed
    rw [hreads, Stream.fault_after_of_lt hlt, List.append_assoc] at hread
    rw [ofLines, parse_start]
    exact parseLines_of_stuck_take htokens h hread hothers
  · rintro _ _ ⟨⟩
    refine ⟨?_, taken.length, token, hget, hdead, rfl, rfl, ?_, parse_after lines taken.length⟩
    · have hloc := hreached.loc
      rw [List.getLast?_append] at hloc
      exact hloc
    · show (Stream.after taken.length (.start lines)).next.1 = _
      rw [Stream.next_after, Stream.remaining_start, hget]

/-- A session that ends with a fault in some line stops there: it has read the lines up to that one,
nothing behind them could change its verdict, and if a token was unexpected, the session looks at
that token and goes on from it when it is asked to parse again. -/
theorem parse_stops_at_fault (lines : List Bytes) (hlines : lines.length < UInt32.size)
    {f : ParseFault} {s : Session} (h : (ofLines lines).parse = (.error f, s))
    (hloc : f.loc.isValid = true) : Stopped lines f s := by
  have hverdict := congrArg Prod.fst h
  rw [ofLines, parse_start] at hverdict
  obtain rfl : (ofLines lines).parse.2 = s := congrArg Prod.snd h
  rcases f with ⟨cause | ⟨expected, found⟩, loc⟩
  · exact stopped_of_lexical hlines hverdict
  · obtain ⟨rest, hmodule, -, rfl, rfl⟩ := Lexed.parse_eq_unexpected.mp hverdict
    rcases rest with _ | ⟨token, rest⟩
    · cases hloc
    · exact stopped_of_unexpected hlines hmodule

/-- The lines `a;`, `b 2;` and `@`: a word is unexpected in the second, and the third is bad. -/
def haltedLines : List Bytes := [Text.utf8 "a;", Text.utf8 "b 2;", Text.utf8 "@"]

theorem parse_stops_haltedLines :
    haltedLines.length < UInt32.size ∧
      (ofLines haltedLines).parse.1.toBool = false ∧
      (ofLines haltedLines).parse.2.stream.reads = 2 ∧
      Stopped haltedLines ⟨.unexpected .semicolon (some (.literal (Text.utf8 "2"))), ⟨2, 1⟩⟩
        (ofLines haltedLines).parse.2 := by
  have hfault : (match (ofLines haltedLines).parse.1 with
      | .ok _ => none
      | .error f => some f) =
      some ⟨.unexpected .semicolon (some (.literal (Text.utf8 "2"))), ⟨2, 1⟩⟩ := by
    decide +kernel
  rcases hparse : (ofLines haltedLines).parse with ⟨f | m, s⟩
  · rw [hparse] at hfault
    cases hfault
    have hstopped := parse_stops_at_fault haltedLines (by decide) hparse (by decide)
    exact ⟨by decide, rfl, hstopped.reads, hstopped⟩
  · rw [hparse] at hfault
    cases hfault

end LetFn.Session
