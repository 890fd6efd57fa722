import LetFn.Yaml.Scalar

/-!
# YAML tokens

Reading turns indentation into brackets: a line indented further opens a block, one indented less
closes blocks. What a key is shows only at the colon behind it, so reading remembers the last place
at which one may have begun, and puts the tokens of a key there once it gets to the colon.

Anchors, aliases, tags, directives and block scalars are not read. A document that cannot be read
to its end has `Token.failed` as its last token, since what stands before may be all that is
needed.
-/

namespace LetFn.Yaml

/-- The brackets of lists and of mappings. -/
inductive Bracket where
  | sequence
  | mapping
  deriving DecidableEq, Repr

/-- A token of a document. -/
inductive Token where
  | blockStart (kind : Bracket)
  | blockEnd
  | flowStart (kind : Bracket)
  | flowEnd (kind : Bracket)
  | blockEntry
  | flowEntry
  | key
  | value
  | scalar (text : String) (plain : Bool)
  | documentStart
  | documentEnd
  | streamEnd
  | failed
  deriving DecidableEq, Repr

/-- A place at which a key may have begun. -/
structure KeyPlace where
  /-- The number of tokens before it. -/
  number : Nat
  index : Nat
  line : Nat
  column : Nat
  /-- Nothing but a key can stand there. -/
  required : Bool

/-- What reading has found so far. -/
structure Scan where
  cursor : Cursor
  tokens : List Token
  /-- The indentation of the open blocks, the innermost first. -/
  indents : List Nat
  /-- The places at which a key may have begun: outside all brackets for the last one, and for the
  others inside the brackets that are open, the innermost first. -/
  keys : List (Option KeyPlace)
  /-- A key may begin here. -/
  keyAllowed : Bool

namespace Scan

/-- Reading begins. -/
def start (s : List Char) : Scan := ⟨.start s, [], [], [none], true⟩

/-- The place is inside brackets or braces. -/
def inFlow (s : Scan) : Bool := 1 < s.keys.length

/-- With one more token at the end. -/
def emit (s : Scan) (t : Token) : Scan := { s with tokens := s.tokens ++ [t] }

/-- Moved on by `n` characters. -/
def advance (s : Scan) (n : Nat) : Scan := { s with cursor := s.cursor.advance n }

/-! ### Blocks -/

/-- Closes the blocks that are indented further than `column`; no column closes them all. -/
def closeBlocks (s : Scan) (column : Option Nat) : Scan :=
  let closed := s.indents.takeWhile fun i => column.all (· < i)
  if s.inFlow then s
  else
    { s with
      tokens := s.tokens ++ closed.map fun _ => .blockEnd
      indents := s.indents.drop closed.length }

/-- Opens a block at `column`, unless that is inside the innermost one; its token is put in after
`number` others. -/
def openBlock (s : Scan) (column number : Nat) (kind : Bracket) : Scan :=
  if !s.inFlow && s.indents.head?.all (· < column) then
    { s with
      tokens := s.tokens.insertIdx number (.blockStart kind)
      indents := column :: s.indents }
  else s

/-! ### Keys -/

/-- The place for a key innermost brackets hold. -/
def place? (s : Scan) : Option KeyPlace := s.keys.head?.join

/-- Puts a place, or none, in place of the innermost one. -/
def setPlace (s : Scan) (place : Option KeyPlace) : Scan :=
  { s with keys := place :: s.keys.drop 1 }

/-- Forgets where a key may have begun; a place for nothing but a key is not forgotten. -/
def dropPlace (s : Scan) : Option Scan :=
  match s.place? with
  | some p => if p.required then none else some (s.setPlace none)
  | none => some s

/-- Notes that a key may begin here. -/
def notePlace (s : Scan) : Option Scan :=
  if s.keyAllowed then do
    let c := s.cursor
    let required := !s.inFlow && s.indents.head? == some c.column
    let s ← s.dropPlace
    some (s.setPlace (some ⟨s.tokens.length, c.index, c.line, c.column, required⟩))
  else some s

/-- The greatest distance from the beginning of a key to its colon. -/
def keyReach : Nat := 1024

/-- The place of the key that ends here: it is in the same line and not too far back. A place for
nothing but a key has to be. -/
def keyHere (s : Scan) : Option (Option KeyPlace) :=
  match s.place? with
  | none => some none
  | some p =>
    if p.line < s.cursor.line || p.index + keyReach < s.cursor.index then
      if p.required then none else some none
    else some (some p)

/-! ### Steps -/

/-- Moves on to the next comment, if there is nothing but white space before it, and then behind
it, and so on. -/
def skipComments : Nat → Cursor → Cursor
  | 0, c => c
  | fuel + 1, c =>
    let c := c.skipToBreak
    let space := c.rest.takeWhile isGap
    if (c.rest.drop space.length).head? == some '#' then
      match gap 0 ⟨[], []⟩ space.length c with
      | some (_, c) => skipComments fuel c
      | none => c
    else c

/-- Moves on to the next token. Tabs count as blanks only where no key can begin. -/
def skipFiller : Nat → Scan → Scan
  | 0, s => s
  | fuel + 1, s =>
    let c := s.cursor.skipBlanks (s.inFlow || !s.keyAllowed)
    let c := if c.rest.head? == some '#' then skipComments c.rest.length c else c
    if c.rest.head?.any isBreak then
      -- A new line allows a key, except inside brackets.
      skipFiller fuel { s with cursor := c.takeBreak.2, keyAllowed := s.keyAllowed || !s.inFlow }
    else { s with cursor := c }

/-- Moves on behind a comment in the same line. -/
def skipLineComment (s : Scan) : Scan :=
  let c := s.cursor.skipBlanks true
  if c.rest.head? == some '#' then { s with cursor := c.skipToBreak } else s

/-- Reads the mark of a document. -/
def documentMark (s : Scan) (t : Token) : Option Scan := do
  let s ← (s.closeBlocks none).dropPlace
  some (({ s with keyAllowed := false }.advance 3).emit t)

/-- Reads an opening bracket. -/
def openFlow (s : Scan) (kind : Bracket) : Option Scan := do
  let s ← s.notePlace
  some (({ s with keys := none :: s.keys, keyAllowed := true }.advance 1).emit (.flowStart kind))

/-- Reads a closing bracket. -/
def closeFlow (s : Scan) (kind : Bracket) : Option Scan := do
  let s ← s.dropPlace
  let keys := if s.inFlow then s.keys.drop 1 else s.keys
  some (({ s with keys := keys, keyAllowed := false }.advance 1).emit (.flowEnd kind))

/-- Reads a comma. -/
def comma (s : Scan) : Option Scan := do
  let s ← s.dropPlace
  some (({ s with keyAllowed := true }.advance 1).emit .flowEntry)

/-- Reads the dash of a list entry. -/
def dash (s : Scan) : Option Scan := do
  if !s.inFlow && !s.keyAllowed then none
  else
    let s ← (s.openBlock s.cursor.column s.tokens.length .sequence).dropPlace
    some (({ s with keyAllowed := true }.advance 1).emit .blockEntry)

/-- Reads the question mark of a key. -/
def question (s : Scan) : Option Scan := do
  if !s.inFlow && !s.keyAllowed then none
  else
    let s ← (s.openBlock s.cursor.column s.tokens.length .mapping).dropPlace
    some (({ s with keyAllowed := !s.inFlow }.advance 1).emit .key)

/-- Reads a colon, and makes what stands before it a key. -/
def colon (s : Scan) : Option Scan := do
  match ← s.keyHere with
  | some p =>
    -- The key was read before it was known to be one: its token goes in front of it, and that of
    -- a new block in front of both.
    let s := { s with tokens := s.tokens.insertIdx p.number .key }
    let s := (s.openBlock p.column p.number .mapping).setPlace none
    some (({ s with keyAllowed := false }.advance 1).emit .value)
  | none =>
    if !s.inFlow && !s.keyAllowed then none
    else
      let s := s.openBlock s.cursor.column s.tokens.length .mapping
      some (({ s with keyAllowed := !s.inFlow }.advance 1).emit .value)

/-- Reads a scalar between quotes. -/
def quoted (s : Scan) (mark : Char) : Option Scan := do
  let s ← s.notePlace
  let c := s.cursor.advance 1
  let (text, c) ← quotedScalar mark [] (c.rest.length + 1) c
  some ({ s with cursor := c, keyAllowed := false }.emit (.scalar (String.ofList text) false))

/-- The column behind which a plain scalar goes on. -/
def scalarIndent (s : Scan) : Nat := (s.indents.head?.map (· + 1)).getD 0

/-- Reads a plain scalar, and a comment right behind it. -/
def plain (s : Scan) : Option Scan := do
  let s ← s.notePlace
  let c := s.cursor
  let (text, g, c) ← plainScalar s.inFlow s.scalarIndent [] ⟨[], []⟩ (c.rest.length + 1) c
  let overLine := !g.breaks.isEmpty
  let s := { s with cursor := c, keyAllowed := overLine }.emit (.scalar (String.ofList text) true)
  some (if overLine then s else s.skipLineComment)

/-- The sign cannot begin a plain scalar. -/
def isIndicator (c : Char) : Bool := "-?:,[]\x7b\x7d#&*!|>'\"%@`".toList.contains c

/-- The text begins a plain scalar: with a sign of no meaning, or with one that would have a
meaning before a blank. -/
def beginsPlain (flow : Bool) (b : Char) (rest : List Char) : Bool :=
  (!isGap b && !isIndicator b) || (b == '-' && !rest.head?.any isBlank) ||
    (!flow && (b == '?' || b == ':') && !atGap rest)

/-- Reads the next token, if the document is not used up. -/
def step (s : Scan) (b : Char) (rest : List Char) : Option Scan :=
  if s.cursor.column == 0 && b == '%' then none
  else if s.cursor.atMarker '-' then s.documentMark .documentStart
  else if s.cursor.atMarker '.' then s.documentMark .documentEnd
  else if b == '[' then (s.openFlow .sequence).map skipLineComment
  else if b == '\x7b' then (s.openFlow .mapping).map skipLineComment
  else if b == ']' then (s.closeFlow .sequence).map skipLineComment
  else if b == '\x7d' then (s.closeFlow .mapping).map skipLineComment
  else if b == ',' then s.comma.map skipLineComment
  else if b == '-' && atGap rest then s.dash
  else if b == '?' && (s.inFlow || atGap rest) then s.question.map skipLineComment
  else if b == ':' && (s.inFlow || atGap rest) then s.colon.map skipLineComment
  else if b == '\'' || b == '"' then (s.quoted b).map skipLineComment
  else if beginsPlain s.inFlow b rest then s.plain
  else none

/-- All tokens. -/
def run : Nat → Scan → List Token
  | 0, s => s.tokens ++ [.failed]
  | fuel + 1, s =>
    let s := s.skipFiller (s.cursor.rest.length + 1)
    -- The column of the next token, whatever it is, says which blocks are over.
    let s := s.closeBlocks (some s.cursor.column)
    match s.cursor.rest with
    | [] =>
      match (s.closeBlocks none).dropPlace with
      | some s => s.tokens ++ [.streamEnd]
      | none => s.tokens ++ [.failed]
    | b :: rest =>
      match s.step b rest with
      | some s => run fuel s
      | none => s.tokens ++ [.failed]

end Scan

/-- The tokens of a document. -/
def Token.ofChars (s : List Char) : List Token := Scan.run (s.length + 2) (.start s)

end LetFn.Yaml
