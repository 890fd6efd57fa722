import LetFn.Text.Bytes

/-!
# Characters in bytes

`decode?` reads the character a text begins with, if it begins with a well-formed UTF-8 sequence:
neither overlong, nor a surrogate, nor above U+10FFFF. `units` is the view of a whole text that
quoting and escaping work on: its characters in order, and one stray byte wherever no well-formed
sequence starts.
-/

namespace LetFn.Text

/-- A continuation byte. -/
def isTail (b : UInt8) : Bool := 0x80 ≤ b && b ≤ 0xBF

/-- The six bits of a continuation byte. -/
def tailBits (b : UInt8) : Nat := b.toNat % 0x40

/-- The character numbered `n`, if there is one and `n` is at least `low`. -/
def charFrom? (low n : Nat) : Option Char :=
  if low ≤ n ∧ n.isValidChar then some (Char.ofNat n) else none

/-- The character at the beginning of a text and the text after it. -/
def decode? : Bytes → Option (Char × Bytes)
  | [] => none
  | a :: rest =>
    if a < 0x80 then some (Char.ofNat a.toNat, rest)
    else if 0xC0 ≤ a ∧ a < 0xE0 then
      match rest with
      | b :: rest =>
        if isTail b then
          (charFrom? 0x80 (a.toNat % 0x20 * 0x40 + tailBits b)).map (·, rest)
        else none
      | _ => none
    else if 0xE0 ≤ a ∧ a < 0xF0 then
      match rest with
      | b :: c :: rest =>
        if isTail b && isTail c then
          (charFrom? 0x800 ((a.toNat % 0x10 * 0x40 + tailBits b) * 0x40 + tailBits c)).map (·, rest)
        else none
      | _ => none
    else if 0xF0 ≤ a ∧ a < 0xF8 then
      match rest with
      | b :: c :: d :: rest =>
        if isTail b && isTail c && isTail d then
          (charFrom? 0x10000
            (((a.toNat % 0x08 * 0x40 + tailBits b) * 0x40 + tailBits c) * 0x40 + tailBits d)).map
            (·, rest)
        else none
      | _ => none
    else none

/-- Decoding a character takes at least one byte. -/
theorem length_lt_of_decode? {s rest : Bytes} {c : Char} (h : decode? s = some (c, rest)) :
    rest.length < s.length := by
  unfold decode? at h
  split at h
  · simp at h
  · repeat' split at h
    all_goals grind [Option.map_eq_some_iff]

/-- A piece of text: a character, or a byte that starts no well-formed sequence. -/
inductive Piece where
  | char (c : Char)
  | stray (b : UInt8)
  deriving DecidableEq, Repr

/-- The pieces of `s` after those in `before`, which are held last first. -/
def unitsAfter (before : List Piece) (s : Bytes) : List Piece :=
  match s with
  | [] => before.reverse
  | b :: tail =>
    match _h : decode? (b :: tail) with
    | some (c, rest) => unitsAfter (.char c :: before) rest
    | none => unitsAfter (.stray b :: before) tail
termination_by s.length
decreasing_by
  · exact length_lt_of_decode? _h
  · simp

/-- The text as characters and stray bytes. -/
def units (s : Bytes) : List Piece := unitsAfter [] s

/-- U+FFFD, which stands for what is not a character. -/
def replacement : Char := '\uFFFD'

/-- The character of a piece, U+FFFD for a stray byte. -/
def Piece.toChar : Piece → Char
  | .char c => c
  | .stray _ => replacement

/-- The bytes of a piece. -/
def Piece.bytes : Piece → Bytes
  | .char c => String.utf8EncodeChar c
  | .stray b => [b]

/-- The text has no stray byte. -/
def isValid (s : Bytes) : Bool :=
  (units s).all fun
    | .char _ => true
    | .stray _ => false

/-- The characters of a text without a stray byte. -/
def chars? (s : Bytes) : Option (List Char) :=
  (units s).mapM fun
    | .char c => some c
    | .stray _ => none

/-- The number of characters of a text, stray bytes counted as characters. -/
def countChars (s : Bytes) : Nat := (units s).length

/-! ### White space and case -/

/-- White space outside ASCII counts here too: the next line control, the no-break space and the
blanks of the typographic and ideographic blocks. -/
def isSpace (c : Char) : Bool :=
  let n := c.toNat
  (0x09 ≤ n && n ≤ 0x0D) || n == 0x20 || n == 0x85 || n == 0xA0 || n == 0x1680 ||
    (0x2000 ≤ n && n ≤ 0x200A) || n == 0x2028 || n == 0x2029 || n == 0x202F || n == 0x205F ||
    n == 0x3000

/-- A piece that is white space. -/
def Piece.isSpace : Piece → Bool
  | .char c => Text.isSpace c
  | .stray _ => false

/-- `s` without white space at its two ends. -/
def trim (s : Bytes) : Bytes :=
  let inner := (units s).dropWhile Piece.isSpace
  (inner.reverse.dropWhile Piece.isSpace).reverse.flatMap Piece.bytes

/-- The lower case of a character, as far as words of ASCII letters can tell: besides `A` to `Z`
only the dotted capital I and the Kelvin sign have an ASCII letter as their lower case. -/
def lowerChar (c : Char) : Char :=
  if c = '\u0130' then 'i' else if c = '\u212A' then 'k' else c.toLower

/-- `s` with `lowerChar` applied throughout. -/
def lower (s : Bytes) : Bytes :=
  (units s).flatMap fun p => String.utf8EncodeChar (lowerChar p.toChar)

end LetFn.Text
