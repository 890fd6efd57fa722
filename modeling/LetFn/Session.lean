import LetFn.Parser.Reply
import LetFn.Token.Stream

/-!
# Sessions

A session is a parser on a stream. It looks at one token, and the lines behind that token may not
have been read yet. To take the token is to have the stream hand out the next one (`skip`); there is
no other way to go on, and no way back.

A production of the grammar works on the session as it is: it gives a value and the session behind
it, or says what it expected where the session stands. As a stream comes to an end, so do
productions: each answer bounds the tokens that are still ahead.
-/

namespace LetFn

/-- A parser on a stream, with the token it looks at. -/
structure Session where
  stream : Stream
  front : Option Token

namespace Session

/-- A parser that looks at the next token of the stream. -/
def start (stream : Stream) : Session :=
  let (front, stream) := stream.next
  ⟨stream, front⟩

/-- The session behind the token it looks at. -/
def skip (s : Session) : Session := start s.stream

/-- The location of the token looked at, unknown at the end. -/
def loc (s : Session) : Location :=
  match s.front with
  | none => .unknown
  | some token => token.loc

/-! ### Tokens ahead -/

/-- The token looked at and those to come. -/
def ahead (s : Session) : List Token :=
  match s.front with
  | none => []
  | some token => token :: s.stream.remaining

theorem ahead_start (s : Stream) : (start s).ahead = s.remaining := by
  obtain ⟨hfst, hsnd⟩ := s.remaining_step
  unfold start ahead
  rcases hnext : s.next with ⟨_ | token, s'⟩
  · rw [hnext] at hfst
    exact (List.head?_eq_none_iff.mp hfst.symm).symm
  · rw [hnext] at hfst hsnd
    obtain ⟨rest, hrest⟩ := List.head?_eq_some_iff.mp hfst.symm
    rw [hrest] at hsnd ⊢
    simp only [hsnd, List.tail_cons]

theorem ahead_of_front {s : Session} {token : Token} (h : s.front = some token) :
    s.ahead = token :: s.skip.ahead := by
  rw [skip, ahead_start, ahead, h]

theorem length_skip_lt {s : Session} {token : Token} (h : s.front = some token) :
    s.skip.ahead.length < s.ahead.length := by
  rw [ahead_of_front h]
  exact Nat.lt_succ_self _

/-! ### Answers -/

/-- A value, and the session behind it with fewer than `n` tokens ahead. -/
structure Pulled (α : Type) (n : Nat) where
  value : α
  session : Session
  shorter : session.ahead.length < n

namespace Pulled

variable {α β : Type} {n : Nat}

/-- The token looked at is taken and gives a value. -/
def taken {s : Session} {token : Token} (value : α) (h : s.front = some token) :
    Pulled α s.ahead.length :=
  ⟨value, s.skip, length_skip_lt h⟩

/-- No token is taken for a value. -/
def here (value : α) (s : Session) : Pulled α (s.ahead.length + 1) := ⟨value, s, Nat.lt_add_one _⟩

/-- Another value in place of the one that was pulled. -/
def give (p : Pulled α n) (value : β) : Pulled β n := ⟨value, p.session, p.shorter⟩

/-- The same, with one more token allowed behind it. -/
def weaken (p : Pulled α n) : Pulled α (n + 1) := ⟨p.value, p.session, Nat.lt_succ_of_lt p.shorter⟩

/-- What is pulled behind `p`, be it without taking a token, is within the bound of `p`. -/
def goOn (p : Pulled α n) (q : Pulled β (p.session.ahead.length + 1)) : Pulled β n :=
  ⟨q.value, q.session, Nat.lt_of_lt_of_le q.shorter p.shorter⟩

/-- What is pulled behind `p` is within the bound of `p`. -/
def andThen (p : Pulled α n) (q : Pulled β p.session.ahead.length) : Pulled β n := p.goOn q.weaken

end Pulled

/-- What was expected where the session stands. -/
structure Halted where
  expected : Parser.Expected
  session : Session

/-- The answer of a production to a session with fewer than `n` tokens ahead. -/
abbrev Pull (α : Type) (n : Nat) := Except Halted (Pulled α n)

/-! ### Single tokens -/

/-- Takes the operator `op`. -/
def want (op : Operator) (expected : Parser.Expected) (s : Session) : Pull Unit s.ahead.length :=
  match h : s.front with
  | some ⟨.operator o, _⟩ =>
    if o = op then .ok (.taken () h) else .error ⟨expected, s⟩
  | _ => .error ⟨expected, s⟩

/-- Takes a literal. -/
def takeLiteral (expected : Parser.Expected) (s : Session) : Pull Bytes s.ahead.length :=
  match h : s.front with
  | some ⟨.literal text, _⟩ => .ok (.taken text h)
  | _ => .error ⟨expected, s⟩

end Session

end LetFn
