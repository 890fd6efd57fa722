import LetFn.Parser.Statement
import LetFn.Session.Arithmetic

/-!
# Statements, pulled from a stream

The productions of statements on a session. Each does what the production of the same name in
`Parser` does on a list of tokens, and takes a token from the stream where that one takes it off the
list.
-/

namespace LetFn.Session

open LetFn.Parser (Annotated Header)

/-! ### Names and parameters -/

/-- `literal (':' literal)?`. -/
def annotated (s : Session) : Pull Annotated s.ahead.length := do
  let name ← takeLiteral .name s
  match want .colon .typeColon name.session with
  | .error _ => return name.give ⟨s.loc, name.value, none⟩
  | .ok colon =>
    let type ← takeLiteral .typeName colon.session
    return name.andThen (colon.andThen (type.give ⟨s.loc, name.value, some type.value⟩))

/-- The name of a binding, with or without a type. -/
def bindingName (s : Session) : Pull Node s.ahead.length := do
  let a ← annotated s
  match a.value.type with
  | none => return a.give (.literal a.value.loc a.value.name)
  | some type => return a.give (.typed ⟨a.value.loc, a.value.name, type⟩)

/-- A parameter, which must have a type. -/
def parameter (s : Session) : Pull TypedName s.ahead.length := do
  let a ← annotated s
  match a.value.type with
  | none => .error ⟨.typeColon, a.session⟩
  | some type => return a.give ⟨a.value.loc, a.value.name, type⟩

/-- `parameter (',' parameter)* ')'`. -/
def parameters (s : Session) : Pull (List TypedName) s.ahead.length := do
  let p ← parameter s
  match want .comma .moreParameters p.session with
  | .ok comma =>
    let more ← parameters comma.session
    return p.andThen (comma.andThen (more.give (p.value :: more.value)))
  | .error _ =>
    let close ← want .rparen .moreParameters p.session
    return p.andThen (close.give [p.value])
termination_by s.ahead.length
decreasing_by have := p.shorter; have := comma.shorter; omega

/-- `parameters | ')'`. -/
def parameterList (s : Session) : Pull (List TypedName) s.ahead.length :=
  match h : s.front with
  | some ⟨.operator .rparen, _⟩ => .ok (.taken [] h)
  | some ⟨.literal _, _⟩ => parameters s
  | _ => .error ⟨.parameter, s⟩

/-- What follows `fn` up to the body: `'(' parameterList ':' literal`. -/
def header (s : Session) : Pull Header s.ahead.length := do
  let paren ← want .lparen .openParen s
  let params ← parameterList paren.session
  let colon ← want .colon .returnColon params.session
  let ret ← takeLiteral .returnType colon.session
  return paren.andThen (params.andThen (colon.andThen (ret.give ⟨params.value, ret.value⟩)))

/-! ### Statements, blocks and expressions -/

mutual

/-- `block | lambda | arithmetic`. -/
def expression (s : Session) : Pull Node s.ahead.length :=
  match h : s.front with
  | none => .error ⟨.expression, s⟩
  | some ⟨.operator .lcurl, loc⟩ => do
    let brace := Pulled.taken () h
    let body ← blockTail brace.session
    return brace.andThen (body.give (.block loc body.value))
  | some ⟨.operator .fn, loc⟩ => do
    let keyword := Pulled.taken () h
    let head ← header keyword.session
    let brace ← want .lcurl .openBrace head.session
    let body ← blockTail brace.session
    let lambda : Node :=
      .lambda loc head.value.ret head.value.params head.session.loc body.value
    return keyword.andThen (head.andThen (brace.andThen (body.give lambda)))
  | some _ => binary 0 s
termination_by 3 * s.ahead.length
decreasing_by
  · have := (Pulled.taken () h).shorter; omega
  · have := keyword.shorter; have := head.shorter; have := brace.shorter; omega

/-- `'let' bindingName '=' expression ';' | expression ';'`. -/
def statement (s : Session) : Pull Node s.ahead.length :=
  match h : s.front with
  | some ⟨.operator .bind, loc⟩ => do
    let keyword := Pulled.taken () h
    let name ← bindingName keyword.session
    let assign ← want .assign .assignment name.session
    let value ← expression assign.session
    let stop ← want .semicolon .semicolon value.session
    let binding : Node := .expression loc .bind name.value value.value
    return keyword.andThen
      (name.andThen (assign.andThen (value.andThen (stop.give binding))))
  | _ => do
    let value ← expression s
    let stop ← want .semicolon .semicolon value.session
    return value.andThen (stop.give value.value)
termination_by 3 * s.ahead.length + 1
decreasing_by
  · have := keyword.shorter; have := name.shorter; have := assign.shorter; omega
  · omega

/-- What follows `{`: `statement* '}'`. -/
def blockTail (s : Session) : Pull (List Node) s.ahead.length :=
  match h : s.front with
  | some ⟨.operator .rcurl, _⟩ => .ok (.taken [] h)
  | none => .error ⟨.statement, s⟩
  | some _ => do
    let first ← statement s
    let more ← blockTail first.session
    return first.andThen (more.give (first.value :: more.value))
termination_by 3 * s.ahead.length + 2
decreasing_by
  · omega
  · have := first.shorter; omega

end

/-! ### Modules -/

/-- `statement*` up to the end. -/
def statements (s : Session) : Pull (List Node) (s.ahead.length + 1) :=
  match s.front with
  | none => .ok (.here [] s)
  | some _ => do
    let first ← statement s
    let more ← statements first.session
    return (first.goOn (more.give (first.value :: more.value))).weaken
termination_by s.ahead.length
decreasing_by exact first.shorter

/-- The module that all that is ahead makes up. -/
def module (s : Session) : Pull Node (s.ahead.length + 1) := do
  let stmts ← statements s
  return stmts.give (.module s.loc stmts.value)

end LetFn.Session
