/-!
# Bytes

Source files, names and messages are sequences of bytes: a source file may hold any byte at all,
so no text in this library is assumed to be valid UTF-8. This file has the byte sequences that
the rest is built from: written constants, numbers, padding and joining.
-/

namespace LetFn

/-- A text of any origin, valid UTF-8 or not. -/
abbrev Bytes := List UInt8

namespace Text

/-- The line feed. -/
def newline : UInt8 := 0x0A

/-- The carriage return. -/
def carriageReturn : UInt8 := 0x0D

/-- The blank. -/
def blank : UInt8 := 0x20

/-- The UTF-8 bytes of a string. -/
def utf8 (s : String) : Bytes := s.toList.flatMap String.utf8EncodeChar

/-- `n` in decimal. -/
def decimal (n : Nat) : Bytes := (Nat.toDigits 10 n).map Char.toUInt8

/-- `n` in decimal, with a minus sign when it is negative. -/
def signed : Int → Bytes
  | .ofNat n => decimal n
  | .negSucc n => utf8 "-" ++ decimal (n + 1)

/-- `n` blanks. -/
def blanks (n : Nat) : Bytes := List.replicate n blank

/-- `s` followed by blanks up to `width` bytes. -/
def padRight (width : Nat) (s : Bytes) : Bytes := s ++ blanks (width - s.length)

/-- `s` preceded by blanks up to `width` bytes. -/
def padLeft (width : Nat) (s : Bytes) : Bytes := blanks (width - s.length) ++ s

/-- `s`, `n` times. -/
def times (n : Nat) (s : Bytes) : Bytes := (List.replicate n s).flatten

/-- The parts with `sep` between neighbours. -/
def join (sep : Bytes) (parts : List Bytes) : Bytes := sep.intercalate parts

/-- Every line with a line feed after it. -/
def unlines (lines : List Bytes) : Bytes := lines.flatMap (· ++ [newline])

/-- The hexadecimal digit of `n`, in lower case. -/
def hexDigit (n : Nat) : UInt8 := (Nat.digitChar (n % 16)).toUInt8

/-- The last `width` hexadecimal digits of `n`. -/
def hex (width n : Nat) : Bytes :=
  (List.range width).map fun i => hexDigit (n / Nat.pow 16 (width - 1 - i))

/-- An ASCII letter. -/
def isLetter (b : UInt8) : Bool := (0x61 ≤ b && b ≤ 0x7A) || (0x41 ≤ b && b ≤ 0x5A)

/-- A decimal digit. -/
def isDigit (b : UInt8) : Bool := 0x30 ≤ b && b ≤ 0x39

/-- `s` without the carriage return at its end, if it has one. -/
def dropReturn (s : Bytes) : Bytes :=
  if s.getLast? = some carriageReturn then s.dropLast else s

/-- The parts of `s` between occurrences of `sep`; one part when there is none. -/
def splitAt (sep : UInt8) (s : Bytes) : List Bytes :=
  go [] s
where
  /-- `part` is the part being read, last byte first. -/
  go (part : Bytes) : Bytes → List Bytes
    | [] => [part.reverse]
    | b :: rest => if b = sep then part.reverse :: go [] rest else go (b :: part) rest

/-- `s` without the bytes `start` it begins with, if it begins with them. -/
def dropStart? (start s : Bytes) : Option Bytes :=
  if start.isPrefixOf s then some (s.drop start.length) else none

end Text

end LetFn
