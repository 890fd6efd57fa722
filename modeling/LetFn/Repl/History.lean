import LetFn.Disk.Path
import LetFn.Repl.Input

/-!
# The history of a dialogue

What was evaluated is kept from one dialogue to the next in a file with one entry to a line. Only
the last thousand entries are kept, and an entry equal to the one before it is not added.
-/

namespace LetFn.Repl

/-- The entries, the oldest first. -/
abbrev History := List Bytes

namespace History

/-- The greatest number of entries. -/
def limit : Nat := 1000

/-- The last entries, as many as are kept. -/
def recent (h : History) : History := h.drop (h.length - limit)

/-- The history with one more entry, unless the last one is the same. -/
def add (h : History) (entry : Bytes) : History :=
  if h.getLast? = some entry then h else recent (h ++ [entry])

/-- An input on one line. -/
def entry (source : Bytes) : Bytes := source.map fun b => if b = Text.newline then Text.blank else b

/-- The history in a file. What follows a line that was cut, or that is not UTF-8, is lost. -/
def ofText (text : Bytes) : History :=
  recent (((TypedLine.ofText text).takeWhile fun l => !l.isPart && Text.isValid l.text).map
    TypedLine.text)

/-- The file of a history. -/
def toText (h : History) : Bytes := Text.unlines h

/-- Where the history of the user with the given home directory is kept; without one, in the
working directory. -/
def path (home : Bytes) : Bytes := Path.join [home, Text.utf8 ".lumen_history"]

end History

end LetFn.Repl
