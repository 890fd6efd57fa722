import LetFn.Text.Bytes

/-!
# Categories of bytes

Each byte has a category, and neighbouring bytes of one category belong together. Letters and
digits share a category, white space is one, every punctuation mark of the language is a category
of its own, and whatever remains is `other`. Only ASCII is classified with care: bytes from 0x80
on are `other` here, and segmentation stops before it meets one.
-/

namespace LetFn

/-- The lexical class of a byte. -/
inductive Category where
  | space
  | alnum
  | lparen | rparen | lcurl | rcurl
  | semicolon | colon | assign
  | plus | minus | star | slash | percent
  | comma
  | other
  deriving DecidableEq, Repr

namespace Category

/-- The six ASCII white-space bytes: the blank, and the controls from tab to carriage return. -/
def isBlank (b : UInt8) : Bool := b == 0x20 || (0x09 ≤ b && b ≤ 0x0D)

/-- A letter or a digit. -/
def isAlnum (b : UInt8) : Bool := Text.isLetter b || Text.isDigit b

/-- The category of a byte. -/
def of (b : UInt8) : Category :=
  if isBlank b then space
  else if isAlnum b then alnum
  else if b = '('.toUInt8 then lparen
  else if b = ')'.toUInt8 then rparen
  else if b = '\x7b'.toUInt8 then lcurl
  else if b = '\x7d'.toUInt8 then rcurl
  else if b = ';'.toUInt8 then semicolon
  else if b = ':'.toUInt8 then colon
  else if b = '='.toUInt8 then assign
  else if b = '+'.toUInt8 then plus
  else if b = '-'.toUInt8 then minus
  else if b = '*'.toUInt8 then star
  else if b = '/'.toUInt8 then slash
  else if b = '%'.toUInt8 then percent
  else if b = ','.toUInt8 then comma
  else other

/-- The byte is ASCII. -/
def isAscii (b : UInt8) : Bool := b < 0x80

end Category

end LetFn
