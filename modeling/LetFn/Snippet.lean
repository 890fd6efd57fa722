import LetFn.Category
import LetFn.Text.Utf8
import LetFn.Text.Quoted

/-!
# Snippets

A line is cut into snippets: maximal runs of bytes of one category, white space dropped. Cutting
stops for good at a run of two or more slashes, which opens a comment, and at the first byte that
is not ASCII, which is a fault.

* `Snippet.scan` finds the next snippet of what is left of a line.
* `Snippet.segment` gives all snippets of a line and the fault that stopped it, if any.
* `Segmenter` delivers the same snippets one call at a time.
-/

namespace LetFn

/-- A run of bytes of one category and where in its line it begins. -/
structure Snippet where
  text : Bytes
  offset : Nat
  deriving DecidableEq, Repr

/-- A byte that is not ASCII, and the character found there. -/
structure SegmentFault where
  offset : Nat
  char : Char
  deriving DecidableEq, Repr

namespace SegmentFault

/-- What a segment fault says about the character numbered `char` at `offset`. -/
def wording (offset char : Int) : Bytes :=
  Text.utf8 "non-ASCII character " ++ Text.quoteChar (Text.charNumbered char) ++
    Text.utf8 " at position " ++ Text.signed offset

/-- What the fault says. -/
def message (f : SegmentFault) : Bytes := wording f.offset f.char.toNat

end SegmentFault

namespace Snippet

/-- The offset just after the snippet. -/
def stop (s : Snippet) : Nat := s.offset + s.text.length

/-- The byte belongs to the run that `b` begins. -/
def continues (b c : UInt8) : Bool := Category.isAscii c && Category.of c == Category.of b

/-- A run opens a comment when it is two slashes or more. -/
def opensComment (run : Bytes) : Bool := run.take 2 == Text.utf8 "//"

/-- What the rest of a line begins with, white space apart. -/
inductive Found where
  /-- Nothing, or a comment. -/
  | nothing
  /-- A byte that is not ASCII. -/
  | fault (f : SegmentFault)
  /-- A snippet, and what follows it. -/
  | snippet (s : Snippet) (rest : Bytes)
  deriving Repr

/-- The character a text begins with, U+FFFD when it begins with a stray byte. -/
def leadingChar (s : Bytes) : Char :=
  match Text.decode? s with
  | some (c, _) => c
  | none => Text.replacement

/-- Looks for the next snippet of a line of which `line` is left, starting at `offset`. -/
def scan (offset : Nat) (line : Bytes) : Found :=
  let start := offset + (line.takeWhile Category.isBlank).length
  match line.dropWhile Category.isBlank with
  | [] => .nothing
  | b :: rest =>
    if Category.isAscii b then
      let run := b :: rest.takeWhile (continues b)
      if opensComment run then .nothing
      else .snippet ⟨run, start⟩ (rest.dropWhile (continues b))
    else .fault ⟨start, leadingChar (b :: rest)⟩

/-- A found snippet leaves less of the line than there was. -/
theorem length_lt_of_scan {offset : Nat} {line rest : Bytes} {s : Snippet}
    (h : scan offset line = .snippet s rest) : rest.length < line.length := by
  unfold scan at h
  have hdrop := (List.dropWhile_suffix (l := line) Category.isBlank).length_le
  split at h
  · simp at h
  · rename_i b tail heq
    -- The first byte is always taken, so what is left is at most the tail.
    have htail := (List.dropWhile_suffix (l := tail) (continues b)).length_le
    rw [heq] at hdrop
    grind

/-- The snippets of a line of which `line` is left, starting at `offset`, and the fault that
stopped the search. -/
def segmentFrom (offset : Nat) (line : Bytes) : List Snippet × Option SegmentFault :=
  match _h : scan offset line with
  | .nothing => ([], none)
  | .fault f => ([], some f)
  | .snippet s rest =>
    let after := segmentFrom s.stop rest
    (s :: after.1, after.2)
termination_by line.length
decreasing_by exact length_lt_of_scan _h

/-- The snippets of a line, and the fault that stopped the search. -/
def segment (line : Bytes) : List Snippet × Option SegmentFault := segmentFrom 0 line

end Snippet

/-! ### One snippet at a time -/

/-- A line being cut into snippets on request. -/
structure Segmenter where
  /-- What is left of the line. -/
  rest : Bytes
  /-- The offset of `rest` in the line. -/
  offset : Nat
  /-- The snippet found last. -/
  current : Snippet
  /-- The fault that ended the search. -/
  fault : Option SegmentFault
  /-- The search is over. -/
  done : Bool

namespace Segmenter

/-- The search before its first step. -/
def start (line : Bytes) : Segmenter := ⟨line, 0, ⟨[], 0⟩, none, false⟩

/-- Goes on to the next snippet; `false` once there is none. -/
def next (s : Segmenter) : Bool × Segmenter :=
  if s.done then (false, s)
  else
    match Snippet.scan s.offset s.rest with
    | .nothing => (false, { s with done := true })
    | .fault f => (false, { s with done := true, fault := some f })
    | .snippet found rest => (true, { s with rest, offset := found.stop, current := found })

end Segmenter

end LetFn
