import LetFn.Text.Bytes

/-!
# Sources

A source supplies lines one after the other and then ends, either because the text is used up or
because reading failed. Reading a text cuts it at line feeds: a line feed takes one carriage
return before it along, and a last line without a line feed counts if it is not empty. A line of
more than `Source.limit` bytes, its line feed included, cannot be read and ends the source.
-/

namespace LetFn

/-- Why a source ended before its text did. -/
inductive ReadFault where
  /-- A line is over the limit. -/
  | lineTooLong
  /-- The text could not be read at all, for the stated reason. -/
  | unreadable (reason : Bytes)
  deriving DecidableEq, Repr

/-- What the fault says. -/
def ReadFault.message : ReadFault → Bytes
  | .lineTooLong => Text.utf8 "bufio.Scanner: token too long"
  | .unreadable reason => reason

/-- The lines that can be read, and what ended them. -/
structure Source where
  lines : List Bytes
  fault : Option ReadFault
  deriving DecidableEq, Repr

namespace Source

/-- The largest number of bytes of a line with its line feed. -/
def limit : Nat := 1048576

/-- The source with one more line in front. -/
def cons (line : Bytes) (s : Source) : Source := { s with lines := line :: s.lines }

/-- The source of the given lines. -/
def ofLines (lines : List Bytes) : Source := ⟨lines, none⟩

/-- The source that fails at once. -/
def failed (fault : ReadFault) : Source := ⟨[], some fault⟩

/-- What `dropWhile` leaves is no longer than the list. -/
theorem length_dropWhile_le {α : Type} (p : α → Bool) (l : List α) :
    (l.dropWhile p).length ≤ l.length :=
  (List.dropWhile_suffix (l := l) p).length_le

/-- The lines of a text. -/
def ofText (text : Bytes) : Source :=
  if text.isEmpty then ofLines []
  else
    let line := text.takeWhile (· != Text.newline)
    match _h : text.dropWhile (· != Text.newline) with
    | [] =>
      if line.length < limit then ofLines [Text.dropReturn line] else failed .lineTooLong
    | _ :: rest =>
      if line.length < limit then cons (Text.dropReturn line) (ofText rest)
      else failed .lineTooLong
termination_by text.length
decreasing_by
  have := length_dropWhile_le (· != Text.newline) text
  rw [_h] at this
  simp at this
  omega

end Source

end LetFn
