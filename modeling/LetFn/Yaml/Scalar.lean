import LetFn.Text.Decimal
import LetFn.Yaml.Cursor

/-!
# YAML scalars

A scalar is a text, plain or between quotes. It may go over several lines; the white space around
a line ending is then folded into one blank, or into the empty lines that it holds.
-/

namespace LetFn.Yaml

/-! ### White space inside scalars -/

/-- The white space between two words. -/
structure Gap where
  /-- The blanks before the first line ending. -/
  blanks : List Char
  /-- The line endings. -/
  breaks : List Char

/-- What the white space stands for. -/
def Gap.fold (g : Gap) : List Char :=
  match g.breaks with
  | [] => g.blanks
  | ['\n'] => [' ']
  | '\n' :: others => others
  | breaks => breaks

/-- The white space up to the next word. `tabsFrom` is the column from which a line may be
indented by tabs. -/
def gap (tabsFrom : Nat) (g : Gap) : Nat → Cursor → Option (Gap × Cursor)
  | 0, c => some (g, c)
  | fuel + 1, c =>
    match c.rest with
    | [] => some (g, c)
    | b :: _ =>
      if isBlank b then
        if g.breaks.isEmpty then
          gap tabsFrom { g with blanks := g.blanks ++ [b] } fuel (c.advance 1)
        else if b = '\t' ∧ c.column < tabsFrom then none
        else gap tabsFrom g fuel (c.advance 1)
      else if isBreak b then
        let (kept, c) := c.takeBreak
        gap tabsFrom { g with breaks := g.breaks ++ [kept] } fuel c
      else some (g, c)

/-! ### Plain scalars -/

/-- The sign has a meaning of its own between brackets and braces. -/
def isFlowSign (c : Char) : Bool :=
  c == ',' || c == '[' || c == ']' || c == '\x7b' || c == '\x7d'

/-- The word a text begins with. A colon before white space ends it, and between brackets a sign
that has a meaning there. -/
def plainWord (flow : Bool) : List Char → List Char
  | [] => []
  | b :: rest =>
    if isGap b || (b == ':' && atGap rest) ||
        (flow && (isFlowSign b || (b == '?' && atGap rest))) then []
    else b :: plainWord flow rest

/-- A plain scalar from a place on: its text, the white space behind it and the place behind
that. `text` was read before, up to the white space `before`; lines have to be indented by
`indent`. -/
def plainScalar (flow : Bool) (indent : Nat) (text : List Char) (before : Gap) :
    Nat → Cursor → Option (List Char × Gap × Cursor)
  | 0, c => some (text, before, c)
  | fuel + 1, c =>
    if c.atDocumentMark || c.rest.head? == some '#' then some (text, before, c)
    else
      let word := plainWord flow c.rest
      let text := if word.isEmpty then text else text ++ before.fold ++ word
      let before := if word.isEmpty then before else ⟨[], []⟩
      let c := c.advance word.length
      if c.rest.head?.any isGap then do
        let (before, c) ← gap indent before c.rest.length c
        if !flow && c.column < indent then some (text, before, c)
        else plainScalar flow indent text before fuel c
      else some (text, before, c)

/-! ### Scalars between quotes -/

/-- The character of an escape sequence that has a sign of its own. -/
def escapeSign? (c : Char) : Option Char :=
  match c with
  | '0' => some '\x00'
  | 'a' => some '\x07'
  | 'b' => some '\x08'
  | 't' | '\t' => some '\t'
  | 'n' => some '\n'
  | 'v' => some '\x0b'
  | 'f' => some '\x0c'
  | 'r' => some '\r'
  | 'e' => some '\x1b'
  | ' ' | '"' | '\'' | '\\' | '/' => some c
  | 'N' => some '\u0085'
  | '_' => some '\u00a0'
  | 'L' => some '\u2028'
  | 'P' => some '\u2029'
  | _ => none

/-- How many digits follow the sign in an escape sequence by number. -/
def escapeDigits? (c : Char) : Option Nat :=
  match c with
  | 'x' => some 2
  | 'u' => some 4
  | 'U' => some 8
  | _ => none

/-- The character that an escape sequence stands for, read from behind the backslash, and how many
characters the sequence has there. -/
def escape? : List Char → Option (Char × Nat)
  | [] => none
  | sign :: rest =>
    match escapeSign? sign, escapeDigits? sign with
    | some c, _ => some (c, 1)
    | none, some n => do
      let number ← Decimal.natOfDigits? 16 (rest.take n)
      if (rest.take n).length == n && number.isValidChar then some (Char.ofNat number, n + 1)
      else none
    | none, none => none

/-- The word inside quotes that begins at a place. A line that ends in a backslash ends the word,
and then the white space behind it goes over a line without being a blank. -/
def quotedWord (mark : Char) (word : List Char) :
    Nat → Cursor → Option (List Char × Bool × Cursor)
  | 0, _ => none
  | fuel + 1, c =>
    match c.rest with
    | [] => some (word.reverse, false, c)
    | b :: rest =>
      if isGap b then some (word.reverse, false, c)
      else if b = mark then
        if mark = '\'' ∧ rest.head? = some '\'' then
          quotedWord mark ('\'' :: word) fuel (c.advance 2)
        else some (word.reverse, false, c)
      else if b = '\\' ∧ mark = '"' then
        if rest.head?.any isBreak then
          some (word.reverse, true, (c.advance 1).takeBreak.2)
        else do
          let (d, n) ← escape? rest
          quotedWord mark (d :: word) fuel (c.advance (n + 1))
      else quotedWord mark (b :: word) fuel (c.advance 1)

/-- The white space inside quotes behind a line that ended in a backslash: all but line endings is
dropped. -/
def joinedGap (breaks : List Char) : Nat → Cursor → List Char × Cursor
  | 0, c => (breaks, c)
  | fuel + 1, c =>
    match c.rest with
    | [] => (breaks, c)
    | b :: _ =>
      if isBlank b then joinedGap breaks fuel (c.advance 1)
      else if isBreak b then
        let (kept, c) := c.takeBreak
        joinedGap (breaks ++ [kept]) fuel c
      else (breaks, c)

/-- A scalar between quotes, read from behind the first: its text and the place behind it. -/
def quotedScalar (mark : Char) (text : List Char) : Nat → Cursor → Option (List Char × Cursor)
  | 0, _ => none
  | fuel + 1, c =>
    if c.atDocumentMark || c.rest.isEmpty then none
    else do
      let (word, joined, c) ← quotedWord mark [] (c.rest.length + 1) c
      let text := text ++ word
      if c.rest.head? == some mark then some (text, c.advance 1)
      else if joined then
        let (breaks, c) := joinedGap [] c.rest.length c
        quotedScalar mark (text ++ breaks) fuel c
      else do
        let (g, c) ← gap 0 ⟨[], []⟩ c.rest.length c
        quotedScalar mark (text ++ g.fold) fuel c

end LetFn.Yaml
