import LetFn.Token.Stream
import LetFn.Proofs.Token.Line

/-!
# A stream hands out the tokens of its lines

Two views of a stream. What it will still hand out is `Stream.remaining`, and a call takes the first
of these away (`remaining_step`). What it has handed out is tied to how many lines it has asked for
by `Reached`: the lines asked for make up the tokens handed out, those pending and the fault. A call
keeps that, and whenever it asks for another line, nothing is pending (`Reached.next`).

`stream_refines_lines` puts the two together for any number of calls.
-/

namespace LetFn.Stream

open Snippet

/-- The stream after `n` calls. -/
def after : Nat → Stream → Stream
  | 0, s => s
  | n + 1, s => (after n s).next.2

/-- The tokens that the first `n` calls hand out. -/
def given : Nat → Stream → List Token
  | 0, _ => []
  | n + 1, s => given n s ++ (after n s).next.1.toList

/-! ## What is still to come

A call hands out the first of what remains, so any number of calls hand out that many tokens, or all
of them if there are fewer. -/

/-- At a fault nothing more is handed out, and nothing changes. -/
theorem next_of_fault {s : Stream} (h : s.fault ≠ none) : s.next = (none, s) := by
  obtain ⟨fault, hfault⟩ := Option.ne_none_iff_exists'.mp h
  rw [next, hfault]

/-- Each call takes one token away. -/
theorem remaining_after (s : Stream) (n : Nat) : (after n s).remaining = s.remaining.drop n := by
  induction n with
  | zero => rfl
  | succ n ih => rw [after, (remaining_step _).2, ih, List.tail_drop]

/-- What a call hands out is told by the number of calls before it. -/
theorem next_after (s : Stream) (n : Nat) : (after n s).next.1 = s.remaining[n]? := by
  rw [(remaining_step _).1, remaining_after, List.head?_drop]

/-- The first calls hand out the first tokens. -/
theorem given_eq_take (s : Stream) (n : Nat) : given n s = s.remaining.take n := by
  induction n with
  | zero => rfl
  | succ n ih => rw [given, ih, next_after, List.take_add_one]

theorem after_next (s : Stream) (n : Nat) : after n s.next.2 = after (n + 1) s := by
  induction n with
  | zero => rfl
  | succ n ih => exact congrArg (fun s => s.next.2) ih

/-- Some calls and then some more. -/
theorem after_after (s : Stream) (m n : Nat) : after n (after m s) = after (m + n) s := by
  induction n with
  | zero => rfl
  | succ n ih => exact congrArg (fun s => s.next.2) ih

/-- Taking tokens until there is none calls the stream once more than there are tokens. -/
theorem collect_eq {n : Nat} {s : Stream} (h : s.remaining.length < n) :
    collect n s = (s.remaining, after (s.remaining.length + 1) s) := by
  induction n generalizing s with
  | zero => exact absurd h (Nat.not_lt_zero _)
  | succ n ih =>
    obtain ⟨hfst, hsnd⟩ := remaining_step s
    rw [collect]
    -- The call that finds nothing is the last.
    split
    · next s' hnext =>
      rw [hnext] at hfst
      rw [List.head?_eq_none_iff.mp hfst.symm]
      show ([], s') = ([], s.next.2)
      rw [hnext]
    · next token s' hnext =>
      rw [hnext] at hfst hsnd
      obtain ⟨rest, hrest⟩ := List.head?_eq_some_iff.mp hfst.symm
      rw [hrest, List.tail_cons] at hsnd
      rw [hrest, List.length_cons] at h
      have hlt : s'.remaining.length < n := by
        rw [hsnd]
        omega
      rw [ih hlt, hsnd, hrest, List.length_cons, ← after_next s, hnext]

theorem drain_eq (s : Stream) : s.drain = (s.remaining, after (s.remaining.length + 1) s) :=
  collect_eq (Nat.lt_succ_self _)

theorem drain_fst (s : Stream) : s.drain.1 = s.remaining := by
  rw [drain_eq]

/-! ## What has been read

One lemma for each thing a call can do with a line: find that there is none, read a good one, read a
bad one. -/

/-- The stream has handed out `given`, out of the lines it has asked for. -/
structure Reached (lines : List Bytes) (given : List Token) (s : Stream) : Prop where
  unread : s.unread = lines.drop s.reads
  line : s.line = UInt32.ofNat (min s.reads lines.length)
  lexed : Lexed.ofLines (lines.take s.reads) = ⟨given ++ s.pending, s.fault⟩
  ended : s.fault ≠ none → s.pending = []
  loc : s.loc = (given.getLast?.map Token.loc).getD .unknown

namespace Reached

variable {lines : List Bytes} {given : List Token} {s : Stream}

/-- At the start nothing has been asked for. -/
theorem start (lines : List Bytes) : Reached lines [] (start lines) where
  unread := rfl
  line := by simp [Stream.start]
  lexed := rfl
  ended h := absurd rfl h
  loc := rfl

/-- When nothing is pending, the lines asked for have been handed out. -/
theorem lexed_idle (h : Reached lines given s) (hfault : s.fault = none)
    (hpending : s.pending = []) : Lexed.ofLines (lines.take s.reads) = ⟨given, none⟩ := by
  rw [h.lexed, hfault, hpending, List.append_nil]

/-- A further line is read where nothing is pending. -/
theorem lexed_read (h : Reached lines given s) (hfault : s.fault = none) (hpending : s.pending = [])
    {text : Bytes} {rest : List Bytes} (hunread : s.unread = text :: rest) :
    s.reads < lines.length ∧ lines.drop (s.reads + 1) = rest ∧
      Lexed.ofLines (lines.take (s.reads + 1)) =
        ⟨given ++ (Lexed.ofLinesFrom (s.line + 1) [text]).tokens,
          (Lexed.ofLinesFrom (s.line + 1) [text]).fault⟩ := by
  have hdrop : lines.drop s.reads = text :: rest := by rw [← h.unread, hunread]
  have hlt : s.reads < lines.length := by
    have hlength := congrArg List.length hdrop
    rw [List.length_drop, List.length_cons] at hlength
    omega
  have hget : lines[s.reads]? = some text := by
    rw [← List.head?_drop, hdrop, List.head?_cons]
  have htail : lines.drop (s.reads + 1) = rest := by
    rw [← List.tail_drop, hdrop, List.tail_cons]
  have hlexed := h.lexed_idle hfault hpending
  have hnumber : (1 : UInt32) + UInt32.ofNat (lines.take s.reads).length = s.line + 1 := by
    rw [h.line, List.length_take, UInt32.add_comm]
  -- The lines asked for get one longer, and the line is numbered by them.
  refine ⟨hlt, htail, ?_⟩
  rw [List.take_add_one, hget, Option.toList_some, Lexed.ofLines,
    Lexed.ofLinesFrom_append _ (by rw [← Lexed.ofLines, hlexed]), ← Lexed.ofLines, hlexed, hnumber]

/-- The lines are used up, which asking once more does not change. -/
theorem ask_end (h : Reached lines given s) (hunread : s.unread = []) :
    Reached lines given { s with reads := s.reads + 1 } := by
  have hle : lines.length ≤ s.reads := by
    rw [h.unread] at hunread
    exact List.drop_eq_nil_iff.mp hunread
  have hle' : lines.length ≤ s.reads + 1 := Nat.le_succ_of_le hle
  refine ⟨?_, ?_, ?_, h.ended, h.loc⟩
  · rw [hunread, List.drop_of_length_le hle']
  · rw [h.line, Nat.min_eq_right hle, Nat.min_eq_right hle']
  · rw [← h.lexed, List.take_of_length_le hle, List.take_of_length_le hle']

/-- A line is read, and it is good or bad. -/
theorem ask_line (h : Reached lines given s) (hfault : s.fault = none) (hpending : s.pending = [])
    {text : Bytes} {rest : List Bytes} (hunread : s.unread = text :: rest)
    {pending : List Token} {fault : Option LexicalFault}
    (hline : Lexed.ofLinesFrom (s.line + 1) [text] = ⟨pending, fault⟩)
    (hended : fault ≠ none → pending = []) :
    Reached lines given
      { s with pending, unread := rest, line := s.line + 1, fault, reads := s.reads + 1 } := by
  obtain ⟨hlt, hrest, hlexed⟩ := h.lexed_read hfault hpending hunread
  refine ⟨hrest.symm, ?_, ?_, hended, h.loc⟩
  · show s.line + 1 = UInt32.ofNat (min (s.reads + 1) lines.length)
    rw [h.line, Nat.min_eq_left (Nat.le_of_lt hlt), Nat.min_eq_left (Nat.succ_le_of_lt hlt),
      Nat.succ_eq_add_one, UInt32.ofNat_add]
    rfl
  · show Lexed.ofLines (lines.take (s.reads + 1)) = _
    rw [hlexed, hline]

/-- What one call does: it keeps count, it asks for a line only when all tokens so far have been
handed out, and it finds none only at the end of the lines or at a bad one. -/
structure Call (lines : List Bytes) (given : List Token) (s : Stream) (answer : Option Token)
    (s' : Stream) : Prop where
  reached : Reached lines (given ++ answer.toList) s'
  asked : ∀ r, s.reads ≤ r → r < s'.reads → Lexed.ofLines (lines.take r) = ⟨given, none⟩
  going : answer ≠ none → s'.fault = none
  exhausted : answer = none → s'.fault ≠ none ∨ s'.unread = []

/-- One call keeps count of what was handed out. -/
theorem next (h : Reached lines given s) : Call lines given s s.next.1 s.next.2 := by
  fun_induction Stream.next s with
  | case1 s fault hfault =>
    refine ⟨by simpa using h, ?_, fun hne => absurd rfl hne, fun _ => .inl (by simp [hfault])⟩
    intro r hle hlt
    exact absurd hlt (Nat.not_lt.mpr hle)
  -- A pending token is handed out without asking for a line.
  | case2 s hfault token rest hpending =>
    refine ⟨⟨h.unread, h.line, ?_, fun hne => absurd hfault hne, by simp⟩, ?_, fun _ => hfault, ?_⟩
    · rw [h.lexed, hpending]
      simp
    · intro r hle hlt
      exact absurd hlt (Nat.not_lt.mpr hle)
    · intro hnone
      cases hnone
  -- The lines are used up, and asking for one more is counted.
  | case3 s hfault hpending hunread =>
    refine ⟨by simpa using h.ask_end hunread, ?_, fun hne => absurd rfl hne, fun _ => .inr hunread⟩
    intro r hle hlt
    obtain rfl : s.reads = r := Nat.le_antisymm hle (Nat.le_of_lt_succ hlt)
    exact h.lexed_idle hfault hpending
  | case4 s hfault hpending text rest hunread line s' fault hline =>
    have hread : Lexed.ofLinesFrom (s.line + 1) [text] = ⟨[], some fault⟩ := by
      simp [Lexed.ofLinesFrom, line, hline]
    have hreached := h.ask_line hfault hpending hunread hread fun _ => rfl
    refine ⟨?_, ?_, fun hne => absurd rfl hne, fun _ => .inl (by simp)⟩
    · simpa [s', hpending] using hreached
    · intro r hle hlt
      obtain rfl : s.reads = r := Nat.le_antisymm hle (Nat.le_of_lt_succ hlt)
      exact h.lexed_idle hfault hpending
  | case5 s hfault hpending text rest hunread line s' tokens hline ih =>
    have hread : Lexed.ofLinesFrom (s.line + 1) [text] = ⟨tokens, none⟩ := by
      simp [Lexed.ofLinesFrom, line, hline]
    have hreached := h.ask_line hfault hpending hunread hread fun hne => absurd rfl hne
    have hcall := ih (by simpa [s', hfault] using hreached)
    refine ⟨hcall.reached, ?_, hcall.going, hcall.exhausted⟩
    intro r hle hlt
    -- The first line is asked for here, and any further one by the call that goes on.
    rcases Nat.eq_or_lt_of_le hle with rfl | hlt'
    · exact h.lexed_idle hfault hpending
    · exact hcall.asked r hlt' hlt

/-- Where a stream is over, its fault is that of all its lines. -/
theorem fault_of_exhausted (h : Reached lines given s) (hend : s.fault ≠ none ∨ s.unread = []) :
    s.fault = (Lexed.ofLines lines).fault := by
  -- A fault in the lines asked for is a fault of all; if there are no more lines, these are all.
  rcases hend with hfault | hunread
  · obtain ⟨fault, hfault⟩ := Option.ne_none_iff_exists'.mp hfault
    have hread : (Lexed.ofLines (lines.take s.reads)).fault = some fault := by
      rw [h.lexed, hfault]
    have hall := Lexed.ofLinesFrom_append_of_fault (lines.drop s.reads) hread
    rw [List.take_append_drop] at hall
    rw [hfault, Lexed.ofLines, hall]
    exact hread.symm
  · have hle : lines.length ≤ s.reads := by
      rw [h.unread] at hunread
      exact List.drop_eq_nil_iff.mp hunread
    rw [← List.take_of_length_le hle, h.lexed]

end Reached

/-! ## Any number of calls

From one call to all of them, by induction on their number. -/

theorem remaining_start (lines : List Bytes) :
    (start lines).remaining = (Lexed.ofLines lines).tokens := by
  simp [remaining, start, Lexed.ofLines]

/-- So do any number of calls. -/
theorem reached_after (lines : List Bytes) (n : Nat) :
    Reached lines (given n (start lines)) (after n (start lines)) := by
  induction n with
  | zero => exact .start lines
  | succ n ih => exact ih.next.reached

/-- While tokens are handed out there is no fault. -/
theorem fault_after_of_lt {lines : List Bytes} {n : Nat}
    (h : n < (Lexed.ofLines lines).tokens.length) : (after (n + 1) (start lines)).fault = none := by
  apply (reached_after lines n).next.going
  rw [next_after, remaining_start, List.getElem?_eq_getElem h]
  exact Option.some_ne_none _

/-- When there is no token left, the stream has met the first bad line, if there is one. -/
theorem fault_after_of_le {lines : List Bytes} {n : Nat}
    (h : (Lexed.ofLines lines).tokens.length ≤ n) :
    (after (n + 1) (start lines)).fault = (Lexed.ofLines lines).fault := by
  apply (reached_after lines (n + 1)).fault_of_exhausted
  apply (reached_after lines n).next.exhausted
  rw [next_after, remaining_start, List.getElem?_eq_none h]

theorem after_of_fault {s : Stream} (h : s.fault ≠ none) (n : Nat) : after n s = s := by
  induction n with
  | zero => rfl
  | succ n ih => rw [after, ih, next_of_fault h]

/-- When all has been handed out, the fault is that of the lines. -/
theorem fault_drain (lines : List Bytes) :
    (start lines).drain.2.fault = (Lexed.ofLines lines).fault := by
  rw [drain_eq, remaining_start, fault_after_of_le (Nat.le_refl _)]

/-- Lines that can be read are handed out to their last word. -/
theorem drain_of_readsLines {lines : List Bytes} {words : List Word} (h : ReadsLines lines words) :
    (start lines).drain.2.fault = none ∧ (start lines).drain.1.map Token.word = words := by
  rw [fault_drain, drain_fst, remaining_start]
  exact h 1

/-! ## How many lines have been read

A stream that hands out a token of some line has not gone beyond that line. Together with the count
of lines asked for this gives the exact number. -/

/-- What is pending, and the fault, are of the line read last. -/
structure Current (s : Stream) : Prop where
  pending : ∀ t ∈ s.pending, t.loc.line = s.line
  fault : ∀ f ∈ s.fault, f.loc.line = s.line

/-- A token is handed out before a line behind its own is read. -/
theorem Current.next {s : Stream} (h : Current s) :
    Current s.next.2 ∧ ∀ t ∈ s.next.1, t.loc.line = s.next.2.line := by
  fun_induction Stream.next s with
  | case1 s fault hfault => exact ⟨h, by simp⟩
  | case2 s hfault token rest hpending =>
    have hline := h.pending
    rw [hpending, List.forall_mem_cons] at hline
    exact ⟨⟨hline.2, h.fault⟩, by simpa using hline.1⟩
  | case3 s hfault hpending hunread => exact ⟨⟨h.pending, h.fault⟩, by simp⟩
  | case4 s hfault hpending text rest hunread line s' fault hline =>
    refine ⟨⟨by simp [s', hpending], ?_⟩, by simp⟩
    simpa using Token.line_of_ofLine_error hline
  -- The pending tokens are now those of the line just read.
  | case5 s hfault hpending text rest hunread line s' tokens hline ih =>
    exact ih ⟨Token.line_of_mem_ofSnippets (Token.ofLine_eq_ok hline), by simp [s', hfault]⟩

/-- At any time what is pending is of the line read last. -/
theorem current_after (lines : List Bytes) (n : Nat) : Current (after n (start lines)) := by
  induction n with
  | zero => exact ⟨by simp [after, start], by simp [after, start]⟩
  | succ n ih => exact ih.next.1

/-- The line counter counts, as long as there are no more lines than it can. -/
theorem toNat_line {lines : List Bytes} {given : List Token} {s : Stream}
    (h : Reached lines given s) (hlines : lines.length < UInt32.size) :
    s.line.toNat = min s.reads lines.length := by
  rw [h.line]
  exact UInt32.toNat_ofNat_of_lt' (by omega)

/-- A call that finds a token or a bad line has not asked for a line that is not there. -/
theorem Reached.Call.reads_le {lines : List Bytes} {given : List Token} {s s' : Stream}
    {answer : Option Token} (h : Call lines given s answer s') (hle : s.reads ≤ lines.length)
    (hfound : answer ≠ none ∨ s'.fault ≠ none) : s'.reads ≤ lines.length := by
  refine Nat.not_lt.mp fun hover => ?_
  -- Otherwise it asked for one when all tokens of all lines had been handed out.
  have hall := h.asked lines.length hle hover
  have hread := h.reached.lexed
  rw [List.take_length] at hall
  rw [List.take_of_length_le (Nat.le_of_lt hover), hall, Lexed.mk.injEq] at hread
  rcases hfound with hanswer | hfault
  · obtain ⟨token, rfl⟩ := Option.ne_none_iff_exists'.mp hanswer
    simpa using hread.1
  · exact hfault hread.2.symm

/-- Until the last token no line is asked for that is not there. -/
theorem reads_after_le {lines : List Bytes} {n : Nat}
    (h : n ≤ (Lexed.ofLines lines).tokens.length) :
    (after n (start lines)).reads ≤ lines.length := by
  induction n with
  | zero => exact Nat.zero_le _
  | succ n ih =>
    refine (reached_after lines n).next.reads_le (ih (Nat.le_of_succ_le h)) (.inl ?_)
    rw [next_after, remaining_start, List.getElem?_eq_getElem h]
    exact Option.some_ne_none _

/-- When a token is handed out, the lines up to its own have been asked for. -/
theorem reads_of_token {lines : List Bytes} (hlines : lines.length < UInt32.size) {n : Nat}
    (h : n < (Lexed.ofLines lines).tokens.length) :
    (after (n + 1) (start lines)).reads = (Lexed.ofLines lines).tokens[n].loc.line.toNat := by
  have hanswer : (after n (start lines)).next.1 = some (Lexed.ofLines lines).tokens[n] := by
    rw [next_after, remaining_start, List.getElem?_eq_getElem h]
  have hline := (current_after lines n).next.2 _ hanswer
  rw [hline, ← after, toNat_line (reached_after lines (n + 1)) hlines,
    Nat.min_eq_left (reads_after_le h)]

/-- When a bad line is met, the lines up to it have been asked for. -/
theorem reads_of_fault {lines : List Bytes} (hlines : lines.length < UInt32.size)
    {fault : LexicalFault} (h : (Lexed.ofLines lines).fault = some fault) :
    (after ((Lexed.ofLines lines).tokens.length + 1) (start lines)).reads =
      fault.loc.line.toNat := by
  have hfault := fault_after_of_le (Nat.le_refl (Lexed.ofLines lines).tokens.length)
  rw [h] at hfault
  have hline := (current_after lines _).fault _ hfault
  have hle := (reached_after lines _).next.reads_le (reads_after_le (Nat.le_refl _))
    (.inr (by rw [← after, hfault]; exact Option.some_ne_none _))
  rw [hline, toNat_line (reached_after lines _) hlines]
  exact (Nat.min_eq_left hle).symm

/-- What can be seen of a stream of `lines` after `n` calls, which handed out `given`. -/
structure Observed (lines : List Bytes) (n : Nat) (given : List Token) (s : Stream) : Prop where
  /-- The tokens handed out are the first `n` words at their places, or all if there are fewer. -/
  first : given.map Token.placed = (placedWords lines).take n
  /-- None of them is of the first bad line or a later one. -/
  good : ∀ t ∈ given, t.loc.line.toNat ≤ (goodLines lines).length
  /-- The location is that of the last of them. -/
  loc : s.loc = (given.getLast?.map Token.loc).getD .unknown
  /-- The line counter counts the lines obtained, one for each time that one was asked for until
  there were no more. -/
  line : s.line.toNat = min s.reads lines.length ∧ s.unread = lines.drop s.line.toNat
  /-- When the next call asks for a line after it has been asked for `r` times, the `r` lines
  obtained, or all if there are fewer, are good, and all their tokens have been handed out. -/
  asked : ∀ r, s.reads ≤ r → r < s.next.2.reads →
    (∀ line ∈ lines.take r, isGood line = true) ∧
      given.map Token.placed = placedWords (lines.take r)
  /-- There is a fault exactly if the first bad line has been obtained. -/
  fault : s.fault ≠ none ↔ (goodLines lines).length < s.line.toNat
  /-- After a fault nothing changes any more: no token, no further line, the same fault. -/
  final : s.fault ≠ none → ∀ m, (after m s).next = (none, s)

/-- The words of a part of the lines, at their places. -/
theorem placed_take {lines : List Bytes} (hlines : lines.length < UInt32.size)
    (hsnippets : ∀ line ∈ lines, (segment line).1.length < UInt32.size) (r : Nat) :
    (Lexed.ofLines (lines.take r)).tokens.map Token.placed = placedWords (lines.take r) := by
  apply Lexed.placed_tokens
  · rw [List.length_take, UInt32.toNat_one]
    omega
  · intro line hline
    exact hsnippets line (List.mem_of_mem_take hline)

/-- However often a stream is called, it hands out the words of its good lines in order, it reads no
more lines than that takes, and it stops for good at the first bad one. -/
theorem stream_refines_lines (lines : List Bytes) (hlines : lines.length < UInt32.size)
    (hsnippets : ∀ line ∈ lines, (segment line).1.length < UInt32.size) :
    (start lines).drain.1.map Token.placed = placedWords lines ∧
      ∀ n, Observed lines n (given n (start lines)) (after n (start lines)) := by
  have htokens : (Lexed.ofLines lines).tokens.map Token.placed = placedWords lines := by
    simpa using placed_take hlines hsnippets lines.length
  refine ⟨by rw [drain_fst, remaining_start, htokens], fun n => ?_⟩
  have hreached := reached_after lines n
  have hline := toNat_line hreached hlines
  have hgiven : given n (start lines) = (Lexed.ofLines lines).tokens.take n := by
    rw [given_eq_take, remaining_start]
  -- Each field of `Observed` from what was reached.
  refine ⟨by rw [hgiven, List.map_take, htokens], ?_, hreached.loc, ⟨hline, ?_⟩, ?_, ?_, ?_⟩
  · intro t ht
    rw [hgiven] at ht
    have hplaced : t.placed ∈ placedWords lines := by
      rw [← htokens]
      exact List.mem_map_of_mem (List.mem_of_mem_take ht)
    exact line_of_mem_placedWords hplaced
  · rw [hreached.unread, hline]
    rcases Nat.le_total (after n (start lines)).reads lines.length with hle | hle
    · rw [Nat.min_eq_left hle]
    · rw [Nat.min_eq_right hle, List.drop_of_length_le hle, List.drop_length]
  · intro r hle hlt
    have hasked := hreached.next.asked r hle hlt
    refine ⟨Lexed.fault_eq_none_iff.mp (congrArg Lexed.fault hasked), ?_⟩
    rw [← placed_take hlines hsnippets, hasked]
  -- The fault of the stream is that of the lines obtained, which are good up to the first bad one.
  · have hfault : (Lexed.ofLines (lines.take (after n (start lines)).reads)).fault =
        (after n (start lines)).fault := by rw [hreached.lexed]
    rw [← hfault, hline, Ne, Lexed.ofLines, Lexed.fault_eq_none_iff, ← Nat.not_le,
      le_length_goodLines_iff (Nat.min_le_right _ _), ← List.take_eq_take_min]
  · intro hfault m
    rw [after_of_fault hfault, next_of_fault hfault]

/-- The lines `a;`, an empty one, `b @` and `c`. -/
def brokenLines : List Bytes := [Text.utf8 "a;", [], Text.utf8 "b @", Text.utf8 "c"]

/-- Two good lines in front of a bad one. -/
theorem observed_brokenLines :
    brokenLines.length < UInt32.size ∧
      (∀ line ∈ brokenLines, (segment line).1.length < UInt32.size) ∧
      (goodLines brokenLines).length = 2 ∧
      Observed brokenLines 3 (given 3 (start brokenLines)) (after 3 (start brokenLines)) := by
  have hsnippets : ∀ line ∈ brokenLines, (segment line).1.length < UInt32.size := by
    decide +kernel
  refine ⟨by decide, hsnippets, by decide +kernel, ?_⟩
  exact (stream_refines_lines brokenLines (by decide) hsnippets).2 3

end LetFn.Stream
