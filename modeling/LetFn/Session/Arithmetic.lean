import LetFn.Session

/-!
# Arithmetic, pulled from a stream

The productions of arithmetic on a session, as `Parser.atom`, `Parser.binary` and `Parser.climb` are
on a list of tokens.
-/

namespace LetFn.Session

mutual

/-- `literal | '-' atom | '+' atom | '(' arithmetic ')'`. -/
def atom (s : Session) : Pull Node s.ahead.length :=
  match h : s.front with
  | some ⟨.literal text, loc⟩ => .ok (.taken (.literal loc text) h)
  | some ⟨.operator .sub, loc⟩ => do
    let sign := Pulled.taken () h
    let x ← atom sign.session
    return sign.andThen (x.give (.expression loc .sub (.literal loc (Text.utf8 "0")) x.value))
  | some ⟨.operator .add, _⟩ => do
    let sign := Pulled.taken () h
    let x ← atom sign.session
    return sign.andThen x
  | some ⟨.operator .lparen, _⟩ => do
    let paren := Pulled.taken () h
    let x ← binary 0 paren.session
    let close ← want .rparen .closeParen x.session
    return paren.andThen (x.andThen (close.give x.value))
  | _ => .error ⟨.operand, s⟩
termination_by 2 * s.ahead.length
decreasing_by
  all_goals
    have := (Pulled.taken () h).shorter
    omega

/-- An arithmetic expression whose operators bind tighter than `prec`. -/
def binary (prec : Nat) (s : Session) : Pull Node s.ahead.length := do
  let x ← atom s
  let y ← climb prec s.loc x.value x.session
  return x.goOn y
termination_by 2 * s.ahead.length + 1
decreasing_by
  · omega
  · have := x.shorter; omega

/-- Goes on from the left operand `x`, which begins at `loc`. -/
def climb (prec : Nat) (loc : Location) (x : Node) (s : Session) :
    Pull Node (s.ahead.length + 1) :=
  match h : s.front with
  | some ⟨.operator op, _⟩ =>
    if prec < op.precedence then do
      let sign := Pulled.taken () h
      let y ← binary op.precedence sign.session
      let z ← climb prec loc (.expression loc op x y.value) y.session
      return (sign.andThen (y.goOn z)).weaken
    else .ok (.here x s)
  | _ => .ok (.here x s)
termination_by 2 * s.ahead.length
decreasing_by
  · have := (Pulled.taken () h).shorter; omega
  · have := sign.shorter; have := y.shorter; omega

end

end LetFn.Session
