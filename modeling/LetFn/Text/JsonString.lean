import LetFn.Text.Utf8

/-!
# Strings in JSON documents

The tree dump and the log both write JSON, with different choices where the format leaves one
open. A `JsonStyle` is such a set of choices, and `jsonString` writes a text as a JSON string
under it.
-/

namespace LetFn.Text

/-- The choices that JSON leaves open for a string. -/
structure JsonStyle where
  /-- `<`, `>` and `&` are written by number. -/
  markupByNumber : Bool
  /-- Backspace and form feed have the short forms. -/
  shortControls : Bool
  /-- What stands for a stray byte. -/
  stray : Bytes

/-- A character by its number, in four hexadecimal digits. -/
def jsonNumber (c : Char) : Bytes := utf8 "\\u" ++ hex 4 c.toNat

/-- A character inside a JSON string. -/
def jsonChar (style : JsonStyle) (c : Char) : Bytes :=
  if c = '"' then utf8 "\\\""
  else if c = '\\' then utf8 "\\\\"
  else if c = '\n' then utf8 "\\n"
  else if c = '\r' then utf8 "\\r"
  else if c = '\t' then utf8 "\\t"
  else if style.shortControls ∧ c.toNat = 0x08 then utf8 "\\b"
  else if style.shortControls ∧ c.toNat = 0x0C then utf8 "\\f"
  else if c.toNat < 0x20 then jsonNumber c
  else if style.markupByNumber ∧ (c = '<' ∨ c = '>' ∨ c = '&') then jsonNumber c
  else if c.toNat = 0x2028 ∨ c.toNat = 0x2029 then jsonNumber c
  else String.utf8EncodeChar c

/-- A piece of text inside a JSON string. -/
def jsonPiece (style : JsonStyle) : Piece → Bytes
  | .char c => jsonChar style c
  | .stray _ => style.stray

/-- The text as a JSON string. -/
def jsonString (style : JsonStyle) (s : Bytes) : Bytes :=
  utf8 "\"" ++ (units s).flatMap (jsonPiece style) ++ utf8 "\""

end LetFn.Text
