import LetFn.Disk
import LetFn.Location
import LetFn.Snippet

/-!
# Framed excerpts

A report shows a message, the file it is about and, when the message has a location, the line it
points at between its neighbours, with carets under the snippet in question:

    ───┬──────────
     1 │ let x = 1;
       │
     2 │ let y = a @ b;
       │           ^
     3 │ z;
    ───┴──────────

The line in question is rebuilt from its snippets, so every byte of white space shows as one
blank and a comment does not show.
-/

namespace LetFn.Report

/-! ### Looks -/

/-- How a part of a report is painted. -/
inductive Paint where
  /-- The message, the number of the line in question, and the carets. -/
  | alarm
  /-- The snippet in question. -/
  | strong
  /-- A remark in place of a frame. -/
  | faint
  deriving DecidableEq, Repr

/-- The styles of a terminal: what a text becomes when it is painted. -/
def Styles : Type := Paint → Bytes → Bytes

/-- How reports look. -/
structure Look where
  /-- The styles that parts of a report are painted with, if they are painted at all. -/
  styles : Option Styles
  /-- The number of dashes to the right of the gutter. -/
  width : Nat

/-- The width of a frame when nothing else is said. -/
def defaultWidth : Nat := 30

/-- Reports that are not painted, in frames of the default width. -/
def Look.plain : Look := ⟨none, defaultWidth⟩

/-- The look with another frame width, which has to be positive. -/
def Look.withWidth (look : Look) (n : Int) : Look :=
  if 0 < n then { look with width := n.toNat } else look

/-- A text as it is painted. Without styles it stays as it is, and so does the empty text. -/
def Look.paint (look : Look) (p : Paint) (text : Bytes) : Bytes :=
  match look.styles with
  | some style => if text.isEmpty then text else style p text
  | none => text

/-! ### The lines around a location -/

/-- A line and its neighbours, as far as they exist. -/
structure Window where
  before : Option Bytes
  current : Option Bytes
  after : Option Bytes
  deriving DecidableEq, Repr

/-- The line numbered `n`, from 1, without a carriage return at its end. -/
def lineNumbered (lines : List Bytes) : Nat → Option Bytes
  | 0 => none
  | n + 1 => lines[n]?.map Text.dropReturn

/-- Line `n` and its neighbours. Lines are read up to the one after `n`, so a fault counts only
if it stands before the end of that line. -/
def window (s : Source) (n : Nat) : Except ReadFault Window :=
  let found : Window :=
    ⟨lineNumbered s.lines (n - 1), lineNumbered s.lines n, lineNumbered s.lines (n + 1)⟩
  match s.fault with
  | some fault => if s.lines.length < n + 1 then .error fault else .ok found
  | none => .ok found

/-- The snippets of a line; the character that ends segmentation counts as one more. -/
def visibleSnippets (line : Bytes) : List Snippet :=
  match Snippet.segment line with
  | (snippets, none) => snippets
  | (snippets, some fault) => snippets ++ [⟨String.utf8EncodeChar fault.char, fault.offset⟩]

/-! ### The rows of a frame -/

/-- A horizontal line of `n` dashes. -/
def dashes (n : Nat) : Bytes := Text.times n (Text.utf8 "─")

/-- The number of columns before the gutter of a frame about line `n`. -/
def gutter (n : Nat) : Nat := (Text.decimal n).length + 1

/-- The first or last row, with its junction. -/
def ruleRow (look : Look) (pad : Nat) (junction : String) : Bytes :=
  dashes pad ++ Text.utf8 "─" ++ Text.utf8 junction ++ dashes look.width

/-- A row with a number, or none, and a text, or none. -/
def textRow (pad : Nat) (number text : Bytes) : Bytes :=
  Text.padLeft pad number ++ Text.utf8 " │" ++ if text.isEmpty then [] else Text.utf8 " " ++ text

/-- The row of a neighbour of the line in question; a line that does not exist has no number. -/
def neighbourRow (pad n : Nat) : Option Bytes → Bytes
  | some text => textRow pad (if 0 < n then Text.decimal n else []) text
  | none => textRow pad [] []

/-- The snippets at their offsets, with blanks before the first and between them; the one with
index `target` is painted. -/
def rebuild (look : Look) (target : Nat) (index last : Nat) : List Snippet → Bytes
  | [] => []
  | s :: rest =>
    Text.blanks (s.offset - last) ++
      (if index = target then look.paint .strong s.text else s.text) ++
      rebuild look target (index + 1) s.stop rest

/-- The row of the line in question. -/
def failingRow (look : Look) (pad n target : Nat) (snippets : List Snippet) : Bytes :=
  let number := Text.decimal n
  Text.blanks (pad - number.length) ++ look.paint .alarm number ++ Text.utf8 " │ " ++
    rebuild look target 0 0 snippets

/-- The row with a caret under each character of the snippet in question. -/
def caretRow (look : Look) (pad : Nat) (s : Snippet) : Bytes :=
  Text.blanks pad ++ Text.utf8 " │ " ++ Text.blanks s.offset ++
    look.paint .alarm (Text.times (Text.countChars s.text) (Text.utf8 "^"))

/-- The seven rows of a frame. -/
def frame (look : Look) (n : Nat) (w : Window) (snippets : List Snippet) (target : Nat)
    (s : Snippet) : List Bytes :=
  let pad := gutter n
  [ruleRow look pad "┬",
   neighbourRow pad (n - 1) w.before,
   textRow pad [] [],
   failingRow look pad n target snippets,
   caretRow look pad s,
   neighbourRow pad (n + 1) w.after,
   ruleRow look pad "┴"]

/-! ### Reports -/

/-- A remark in place of a frame. -/
def note (look : Look) (text : Bytes) : Bytes := look.paint .faint (Text.utf8 "note: " ++ text)

/-- What follows the name of the file: a frame, or why there is none. -/
def excerpt (look : Look) (loc : Location) (w : Window) : List Bytes :=
  let n := loc.line.toNat
  let column := loc.column.toNat
  if !loc.isValid then
    [note look (Text.utf8 "no source position is known for this error")]
  else
    match w.current with
    | none =>
      [note look (Text.utf8 "line " ++ Text.decimal n ++ Text.utf8 " is past the end of the file")]
    | some line =>
      let snippets := visibleSnippets line
      match snippets[column]? with
      | none =>
        [note look (Text.utf8 "line " ++ Text.decimal n ++ Text.utf8 " has no token at column " ++
          Text.decimal column)]
      | some s => frame look n w snippets column s

/-- The lines of a report that follow its message. -/
def body (look : Look) (disk : Disk) (loc : Location) (path : Bytes) : List Bytes :=
  let regret (reason : Bytes) : List Bytes :=
    [Text.utf8 "Couldn't show snippet, error opening file: " ++ reason]
  match disk.source path with
  | .error e => regret (e.message path)
  | .ok source =>
    match window source loc.line.toNat with
    | .error fault => regret fault.message
    | .ok w =>
      (Text.utf8 "Inside file '" ++ disk.canonical path ++ Text.utf8 "':") :: excerpt look loc w

/-- The first line of a message about a location. -/
def heading (loc : Location) : Bytes :=
  Text.utf8 "Error at [line:" ++ Text.decimal loc.line.toNat ++ Text.utf8 ",column:" ++
    Text.decimal loc.column.toNat ++ Text.utf8 "]:"

/-- A message with its location in front. -/
def located (loc : Location) (message : Bytes) : Bytes :=
  heading loc ++ [Text.newline] ++ message

/-- The report of a message about a location in the file at `path`. -/
def render (look : Look) (disk : Disk) (message : Bytes) (loc : Location) (path : Bytes) : Bytes :=
  Text.unlines <|
    (Text.splitAt Text.newline (located loc message)).map (look.paint .alarm) ++
      body look disk loc path

end LetFn.Report
