import LetFn.Parser.Arithmetic

/-!
# Statements

A statement is a binding or an expression, closed by a semicolon. An expression is a block, a
function literal or arithmetic; blocks and function literals are no operands of arithmetic.
-/

namespace LetFn.Parser

/-! ### Names and parameters -/

/-- A name with the type after its colon, if it has one. -/
structure Annotated where
  loc : Location
  name : Bytes
  type : Option Bytes

/-- `literal (':' literal)?`. -/
def annotated (ts : List Token) : Reply Annotated ts.length :=
  match takeLiteral .name ts with
  | .error e => .error e
  | .ok name =>
    match want .colon .typeColon name.rest with
    | .error _ => .ok ⟨⟨frontLoc ts, name.value, none⟩, name.rest, name.shorter⟩
    | .ok colon =>
      match takeLiteral .typeName colon.rest with
      | .error e => .error e
      | .ok type => .ok ⟨⟨frontLoc ts, name.value, some type.value⟩, type.rest, by
          have := name.shorter; have := colon.shorter; have := type.shorter; omega⟩

/-- The name of a binding, with or without a type. -/
def bindingName (ts : List Token) : Reply Node ts.length :=
  match annotated ts with
  | .error e => .error e
  | .ok a =>
    match a.value.type with
    | none => .ok ⟨.literal a.value.loc a.value.name, a.rest, a.shorter⟩
    | some type => .ok ⟨.typed ⟨a.value.loc, a.value.name, type⟩, a.rest, a.shorter⟩

/-- A parameter, which must have a type. -/
def parameter (ts : List Token) : Reply TypedName ts.length :=
  match annotated ts with
  | .error e => .error e
  | .ok a =>
    match a.value.type with
    | none => .error ⟨.typeColon, a.rest⟩
    | some type => .ok ⟨⟨a.value.loc, a.value.name, type⟩, a.rest, a.shorter⟩

/-- `parameter (',' parameter)* ')'`. -/
def parameters (ts : List Token) : Reply (List TypedName) ts.length :=
  match parameter ts with
  | .error e => .error e
  | .ok p =>
    match want .comma .moreParameters p.rest with
    | .ok comma =>
      match parameters comma.rest with
      | .error e => .error e
      | .ok more => .ok ⟨p.value :: more.value, more.rest, by
          have := p.shorter; have := comma.shorter; have := more.shorter; omega⟩
    | .error _ =>
      match want .rparen .moreParameters p.rest with
      | .error e => .error e
      | .ok close => .ok ⟨[p.value], close.rest, by
          have := p.shorter; have := close.shorter; omega⟩
termination_by ts.length
decreasing_by have := p.shorter; have := comma.shorter; omega

/-- `parameters | ')'`. -/
def parameterList (ts : List Token) : Reply (List TypedName) ts.length :=
  match ts with
  | ⟨.operator .rparen, _⟩ :: rest => .ok (.before [] rest)
  | ⟨.literal text, loc⟩ :: rest => parameters (⟨.literal text, loc⟩ :: rest)
  | ts => .error ⟨.parameter, ts⟩

/-- A function literal up to its body. -/
structure Header where
  params : List TypedName
  ret : Bytes

/-- What follows `fn` up to the body: `'(' parameterList ':' literal`. -/
def header (ts : List Token) : Reply Header ts.length :=
  match want .lparen .openParen ts with
  | .error e => .error e
  | .ok paren =>
    match parameterList paren.rest with
    | .error e => .error e
    | .ok params =>
      match want .colon .returnColon params.rest with
      | .error e => .error e
      | .ok colon =>
        match takeLiteral .returnType colon.rest with
        | .error e => .error e
        | .ok ret => .ok ⟨⟨params.value, ret.value⟩, ret.rest, by
            have := paren.shorter; have := params.shorter
            have := colon.shorter; have := ret.shorter
            omega⟩

/-! ### Statements, blocks and expressions -/

mutual

/-- `block | lambda | arithmetic`. -/
def expression (ts : List Token) : Reply Node ts.length :=
  match ts with
  | [] => .error ⟨.expression, []⟩
  | ⟨.operator .lcurl, loc⟩ :: rest =>
    match blockTail rest with
    | .error e => .error e
    | .ok body => .ok ⟨.block loc body.value, body.rest, by have := body.shorter; simp; omega⟩
  | ⟨.operator .fn, loc⟩ :: rest =>
    match header rest with
    | .error e => .error e
    | .ok head =>
      match want .lcurl .openBrace head.rest with
      | .error e => .error e
      | .ok brace =>
        match blockTail brace.rest with
        | .error e => .error e
        | .ok body =>
          .ok ⟨.lambda loc head.value.ret head.value.params (frontLoc head.rest) body.value,
            body.rest, by
              have := head.shorter; have := brace.shorter; have := body.shorter
              simp; omega⟩
  | ts => binary 0 ts
termination_by 3 * ts.length
decreasing_by
  · simp; omega
  · have := head.shorter; have := brace.shorter; simp; omega

/-- `'let' bindingName '=' expression ';' | expression ';'`. -/
def statement (ts : List Token) : Reply Node ts.length :=
  match ts with
  | ⟨.operator .bind, loc⟩ :: rest =>
    match bindingName rest with
    | .error e => .error e
    | .ok name =>
      match want .assign .assignment name.rest with
      | .error e => .error e
      | .ok assign =>
        match expression assign.rest with
        | .error e => .error e
        | .ok value =>
          match want .semicolon .semicolon value.rest with
          | .error e => .error e
          | .ok stop => .ok ⟨.expression loc .bind name.value value.value, stop.rest, by
              have := name.shorter; have := assign.shorter
              have := value.shorter; have := stop.shorter
              simp; omega⟩
  | ts =>
    match expression ts with
    | .error e => .error e
    | .ok value =>
      match want .semicolon .semicolon value.rest with
      | .error e => .error e
      | .ok stop => .ok ⟨value.value, stop.rest, by
          have := value.shorter; have := stop.shorter; omega⟩
termination_by 3 * ts.length + 1
decreasing_by
  · have := name.shorter; have := assign.shorter; simp; omega
  · omega

/-- What follows `{`: `statement* '}'`. -/
def blockTail (ts : List Token) : Reply (List Node) ts.length :=
  match ts with
  | ⟨.operator .rcurl, _⟩ :: rest => .ok ⟨[], rest, by simp⟩
  | [] => .error ⟨.statement, []⟩
  | ts =>
    match statement ts with
    | .error e => .error e
    | .ok first =>
      match blockTail first.rest with
      | .error e => .error e
      | .ok more => .ok ⟨first.value :: more.value, more.rest, by
          have := first.shorter; have := more.shorter; omega⟩
termination_by 3 * ts.length + 2
decreasing_by
  · omega
  · have := first.shorter; omega

end

/-! ### Modules -/

/-- `statement*` up to the end. -/
def statements (ts : List Token) : Except Failed (List Node) :=
  match ts with
  | [] => .ok []
  | ts =>
    match statement ts with
    | .error e => .error e
    | .ok first =>
      match statements first.rest with
      | .error e => .error e
      | .ok more => .ok (first.value :: more)
termination_by ts.length
decreasing_by exact first.shorter

/-- The module that all of the tokens make up. -/
def module (ts : List Token) : Except Failed Node :=
  match statements ts with
  | .error e => .error e
  | .ok stmts => .ok (.module (frontLoc ts) stmts)

end LetFn.Parser
