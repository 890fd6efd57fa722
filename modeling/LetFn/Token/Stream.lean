import LetFn.Token

/-!
# Token streams

A stream hands out the tokens of its lines one at a time and reads as little as it can: the next
line is asked for only when every token of the lines before it has been taken. A bad line ends
the stream for good, and none of its tokens is handed out.
-/

namespace LetFn

/-- The state of a stream. -/
structure Stream where
  /-- Tokens of the current line that have not been taken. -/
  pending : List Token
  /-- Lines that have not been read. -/
  unread : List Bytes
  /-- The number of lines read, as locations count them. -/
  line : UInt32
  /-- The location of the token taken last. -/
  loc : Location
  /-- The fault of the bad line. -/
  fault : Option LexicalFault
  /-- How often a line was asked for, whether there was one or not. -/
  reads : Nat

namespace Stream

/-- A stream at the beginning of its lines. -/
def start (lines : List Bytes) : Stream := ⟨[], lines, 0, .unknown, none, 0⟩

/-- Takes the next token; none at the end of the lines and after a bad line. -/
def next (s : Stream) : Option Token × Stream :=
  match s.fault with
  | some _ => (none, s)
  | none =>
    match s.pending with
    | token :: rest => (some token, { s with pending := rest, loc := token.loc })
    | [] =>
      match _h : s.unread with
      | [] => (none, { s with reads := s.reads + 1 })
      | text :: rest =>
        let line := s.line + 1
        let s := { s with unread := rest, line, reads := s.reads + 1 }
        match Token.ofLine line text with
        | .error fault => (none, { s with fault := some fault })
        -- A line may have no tokens, and then the next one is asked for.
        | .ok tokens => next { s with pending := tokens }
termination_by s.unread.length
decreasing_by simp [_h]

/-- The tokens still to come. -/
def remaining (s : Stream) : List Token :=
  match s.fault with
  | some _ => []
  | none => s.pending ++ (Lexed.ofLinesFrom (s.line + 1) s.unread).tokens

/-- A call hands out the first of the tokens still to come, and leaves the others. -/
theorem remaining_step (s : Stream) :
    s.next.1 = s.remaining.head? ∧ s.next.2.remaining = s.remaining.tail := by
  fun_induction next s with
  | case1 s fault hfault => simp [remaining, hfault]
  | case2 s hfault token rest hpending => simp [remaining, hfault, hpending]
  | case3 s hfault hpending hunread =>
    simp [remaining, hfault, hpending, hunread, Lexed.ofLinesFrom]
  | case4 s hfault hpending text rest hunread line s' fault hline =>
    simp [remaining, hfault, hpending, hunread, Lexed.ofLinesFrom, line, hline]
  | case5 s hfault hpending text rest hunread line s' tokens hline ih =>
    have hsame : remaining { s' with pending := tokens } = s.remaining := by
      simp [remaining, hfault, hpending, hunread, Lexed.ofLinesFrom, line, s', hline]
    rwa [hsame] at ih

/-- Takes tokens until there is none, at most `n` of them. -/
def collect : Nat → Stream → List Token × Stream
  | 0, s => ([], s)
  | n + 1, s =>
    match s.next with
    | (none, s) => ([], s)
    | (some token, s) =>
      let after := collect n s
      (token :: after.1, after.2)

/-- Takes every token and meets the end. -/
def drain (s : Stream) : List Token × Stream := collect (s.remaining.length + 1) s

end Stream

end LetFn
