import LetFn.Text.Utf8

/-!
# Typed lines

Lines that are typed, or kept from an earlier dialogue, are read through a buffer of limited size.
A line that does not fit is cut, and each part counts as a line of its own. A line feed takes one
carriage return before it along, also when the buffer's end is between the two.
-/

namespace LetFn.Repl

/-- The size of the buffer. -/
def bufferSize : Nat := 4096

/-- A line, or a part of one. -/
structure TypedLine where
  text : Bytes
  /-- The line goes on behind the part. -/
  isPart : Bool
  deriving DecidableEq, Repr

namespace TypedLine

/-- The first line of a text that is not empty, and the text behind it. A part does not end in a
carriage return, which may belong to a line feed. -/
def first (text : Bytes) : TypedLine × Bytes :=
  let filled := text.take bufferSize
  let line := filled.takeWhile (· != Text.newline)
  if line.length < filled.length then (⟨Text.dropReturn line, false⟩, text.drop (line.length + 1))
  else if filled.length < bufferSize then (⟨text, false⟩, [])
  else
    let part := Text.dropReturn filled
    (⟨part, true⟩, text.drop part.length)

/-- The first line uses up some of the text. -/
theorem length_first_lt {text : Bytes} (h : text ≠ []) : (first text).2.length < text.length := by
  have hpos : 0 < text.length := List.length_pos_iff.2 h
  simp only [first]
  split
  · simp only [List.length_drop]
    omega
  · split
    · simpa using hpos
    · next hfull =>
      have hfull : (text.take bufferSize).length = bufferSize := by
        simp only [List.length_take] at hfull ⊢
        omega
      have : 0 < (Text.dropReturn (text.take bufferSize)).length := by
        unfold Text.dropReturn
        split <;> simp_all [bufferSize]
      simp only [List.length_drop]
      omega

/-- The lines of a text. -/
def ofText (text : Bytes) : List TypedLine :=
  if _h : text = [] then [] else (first text).1 :: ofText (first text).2
termination_by text.length
decreasing_by exact length_first_lt _h

end TypedLine

end LetFn.Repl
