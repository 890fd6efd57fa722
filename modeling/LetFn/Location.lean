import LetFn.Text.Bytes

/-!
# Locations

A location names a line by its number, from 1, and a snippet of that line by its index, from 0.
Both are 32-bit words and wrap. Line 0 is no line: the location `0:0` stands for "unknown".
-/

namespace LetFn

/-- Where a token or a node begins. -/
structure Location where
  line : UInt32
  column : UInt32
  deriving DecidableEq, Repr

namespace Location

/-- The location of what has no place in a source. -/
def unknown : Location := ⟨0, 0⟩

/-- The location names a line. -/
def isValid (l : Location) : Bool := 0 < l.line

/-- The location as `line:column`. -/
def text (l : Location) : Bytes :=
  Text.decimal l.line.toNat ++ Text.utf8 ":" ++ Text.decimal l.column.toNat

end Location

end LetFn
