import LetFn.Text.Utf8
import LetFn.Text.Printable

/-!
# Quoted text

Messages and tree dumps show names between quotes, on one line and free of control characters.
A printable character stands for itself; the active quote and the backslash take a backslash
before them; seven controls have a letter; every other character is written by its number, and so
is a stray byte.
-/

namespace LetFn.Text

/-- The letter that stands for a control character after a backslash. -/
def controlLetter? (c : Char) : Option Char :=
  match c.toNat with
  | 0x07 => some 'a'
  | 0x08 => some 'b'
  | 0x0C => some 'f'
  | 0x0A => some 'n'
  | 0x0D => some 'r'
  | 0x09 => some 't'
  | 0x0B => some 'v'
  | _ => none

/-- A character inside quotes of the kind `mark`. -/
def escapeChar (mark c : Char) : Bytes :=
  if c = mark ∨ c = '\\' then utf8 "\\" ++ String.utf8EncodeChar c
  else if isPrintable c then String.utf8EncodeChar c
  else
    match controlLetter? c with
    | some letter => utf8 "\\" ++ String.utf8EncodeChar letter
    | none =>
      if c.toNat < 0x80 then utf8 "\\x" ++ hex 2 c.toNat
      else if c.toNat < 0x10000 then utf8 "\\u" ++ hex 4 c.toNat
      else utf8 "\\U" ++ hex 8 c.toNat

/-- A piece of text inside quotes of the kind `mark`. -/
def escapePiece (mark : Char) : Piece → Bytes
  | .char c => escapeChar mark c
  | .stray b => utf8 "\\x" ++ hex 2 b.toNat

/-- The text between double quotes. -/
def quote (s : Bytes) : Bytes :=
  utf8 "\"" ++ (units s).flatMap (escapePiece '"') ++ utf8 "\""

/-- The character between single quotes. -/
def quoteChar (c : Char) : Bytes := utf8 "'" ++ escapeChar '\'' c ++ utf8 "'"

/-- The character numbered `n`, U+FFFD when no character has that number. -/
def charNumbered (n : Int) : Char :=
  match n with
  | .ofNat n => if n.isValidChar then Char.ofNat n else replacement
  | .negSucc _ => replacement

end LetFn.Text
