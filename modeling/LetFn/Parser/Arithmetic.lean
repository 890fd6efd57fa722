import LetFn.Parser.Reply

/-!
# Arithmetic

Arithmetic is parsed by precedence climbing: `binary prec` reads an operand and goes on as long
as operators follow that bind tighter than `prec`. All operators associate to the left, `**`
included. A binary expression begins where its left operand begins, parentheses included. There
are no unary nodes: `-x` is `0 - x`, and `+x` is `x`.
-/

namespace LetFn.Parser

mutual

/-- `literal | '-' atom | '+' atom | '(' arithmetic ')'`. -/
def atom (ts : List Token) : Reply Node ts.length :=
  match ts with
  | ⟨.literal text, loc⟩ :: rest => .ok (.before (.literal loc text) rest)
  | ⟨.operator .sub, loc⟩ :: rest =>
    match atom rest with
    | .error e => .error e
    | .ok x =>
      .ok ⟨.expression loc .sub (.literal loc (Text.utf8 "0")) x.value, x.rest, by
        have := x.shorter; simp; omega⟩
  | ⟨.operator .add, _⟩ :: rest =>
    match atom rest with
    | .error e => .error e
    | .ok x => .ok (x.widen (by simp))
  | ⟨.operator .lparen, _⟩ :: rest =>
    match binary 0 rest with
    | .error e => .error e
    | .ok x =>
      match want .rparen .closeParen x.rest with
      | .error e => .error e
      | .ok close => .ok ⟨x.value, close.rest, by
          have := x.shorter; have := close.shorter; simp; omega⟩
  | ts => .error ⟨.operand, ts⟩
termination_by 2 * ts.length

/-- An arithmetic expression whose operators bind tighter than `prec`. -/
def binary (prec : Nat) (ts : List Token) : Reply Node ts.length :=
  match atom ts with
  | .error e => .error e
  | .ok x =>
    match climb prec (frontLoc ts) x.value x.rest with
    | .error e => .error e
    | .ok y => .ok (y.widen x.shorter)
termination_by 2 * ts.length + 1
decreasing_by
  · omega
  · have := x.shorter; omega

/-- Goes on from the left operand `x`, which begins at `loc`. -/
def climb (prec : Nat) (loc : Location) (x : Node) (ts : List Token) :
    Reply Node (ts.length + 1) :=
  match ts with
  | ⟨.operator op, opLoc⟩ :: rest =>
    if prec < op.precedence then
      match binary op.precedence rest with
      | .error e => .error e
      | .ok y =>
        match climb prec loc (.expression loc op x y.value) y.rest with
        | .error e => .error e
        | .ok z => .ok (y.behind z)
    else .ok (.before x (⟨.operator op, opLoc⟩ :: rest))
  | ts => .ok (.before x ts)
termination_by 2 * ts.length
decreasing_by
  · simp; omega
  · have := y.shorter; simp; omega

end

end LetFn.Parser
