/-!
# Places in YAML documents

Indentation has a meaning in YAML, so reading keeps track of where it is: in which line, at which
column, and how many characters from the beginning. A line ends at a line feed, a carriage
return, both, the next line control or one of the two Unicode separators.
-/

namespace LetFn.Yaml

/-! ### Characters -/

/-- A blank or a tab. -/
def isBlank (c : Char) : Bool := c == ' ' || c == '\t'

/-- One of the characters that end a line. -/
def isBreak (c : Char) : Bool :=
  c == '\n' || c == '\r' || c == '\u0085' || c == '\u2028' || c == '\u2029'

/-- A blank, a tab or the end of a line. -/
def isGap (c : Char) : Bool := isBlank c || isBreak c

/-- The text is used up or begins with white space. -/
def atGap (s : List Char) : Bool := s.head?.all isGap

/-- A document may hold the character. -/
def isAllowed (c : Char) : Bool :=
  let n := c.toNat
  n == 0x09 || n == 0x0A || n == 0x0D || (0x20 ≤ n && n ≤ 0x7E) || n == 0x85 ||
    (0xA0 ≤ n && n ≤ 0xFFFD && n != 0xFEFF) || 0x10000 ≤ n

/-! ### Cursors -/

/-- What is left of a document, and where that begins. -/
structure Cursor where
  rest : List Char
  index : Nat
  line : Nat
  column : Nat

namespace Cursor

/-- The beginning of a document. -/
def start (s : List Char) : Cursor := ⟨s, 0, 0, 0⟩

/-- The place `n` characters further on, with no end of a line among them. -/
def advance (c : Cursor) (n : Nat) : Cursor :=
  { c with rest := c.rest.drop n, index := c.index + n, column := c.column + n }

/-- The beginning of the next line, behind a line ending of `n` characters. -/
def nextLine (c : Cursor) (n : Nat) : Cursor := ⟨c.rest.drop n, c.index + n, c.line + 1, 0⟩

/-- The place behind the line ending here, and the line ending as scalars keep it. -/
def takeBreak (c : Cursor) : Char × Cursor :=
  match c.rest with
  | '\r' :: '\n' :: _ => ('\n', c.nextLine 2)
  | b :: _ => (if b = '\u2028' ∨ b = '\u2029' then b else '\n', c.nextLine 1)
  | [] => ('\n', c)

/-- The place behind the blanks, and the tabs where those count as blanks. -/
def skipBlanks (c : Cursor) (tabs : Bool) : Cursor :=
  c.advance (c.rest.takeWhile fun b => b == ' ' || (tabs && b == '\t')).length

/-- The place at the end of the line. -/
def skipToBreak (c : Cursor) : Cursor := c.advance (c.rest.takeWhile (!isBreak ·)).length

/-- The line begins with three times the sign, alone. -/
def atMarker (c : Cursor) (sign : Char) : Bool :=
  c.column == 0 && c.rest.take 3 == [sign, sign, sign] && atGap (c.rest.drop 3)

/-- The line marks the beginning or the end of a document. -/
def atDocumentMark (c : Cursor) : Bool := c.atMarker '-' || c.atMarker '.'

end Cursor

end LetFn.Yaml
