import LetFn.Parse
import LetFn.Report.Frame

/-!
# Failures

A failure is a cause with what was said about it on the way up: where it happened, in which file,
while doing what. Several failures can be joined into one. Classification looks through all of
that: `Failure.code` depends only on which causes occur in a failure, and `find?` searches it
depth first, the outermost part first and joined failures in order.
-/

namespace LetFn

/-- Something that went wrong. -/
inductive Failure where
  /-- A snippet that is no word. -/
  | token (message : Bytes)
  /-- Tokens that match no rule of the grammar; `atEnd` when the tokens ran out. -/
  | parse (message : Bytes) (atEnd : Bool)
  /-- A character, by its number, that is not ASCII. -/
  | segment (offset char : Int)
  /-- Any other cause. -/
  | plain (message : Bytes)
  /-- The cause and where it was met. -/
  | located (cause : Failure) (loc : Location)
  /-- The cause, where it was met and in which file. -/
  | sourced (cause : Failure) (loc : Location) (path : Bytes)
  /-- What was being done with a file. -/
  | file (verb path : Bytes) (cause : Failure)
  /-- What was being done. -/
  | wrapped (message : Bytes) (cause : Failure)
  /-- Several failures at once. -/
  | joined (failures : List Failure)
  deriving Repr

namespace Failure

/-! ### Making failures -/

/-- The failure of a source to be a module. -/
def ofParseFault (f : ParseFault) : Failure :=
  match f.cause with
  | .lexical cause => located (token cause.message) f.loc
  | .unexpected _ _ => located (parse f.cause.message f.cause.isIncomplete) f.loc

/-- The failure of a line to be cut into snippets. -/
def ofSegmentFault (f : SegmentFault) : Failure := segment f.offset f.char.toNat

/-- The failure to open or read the file at `path`. -/
def ofFileError (e : FileError) (path : Bytes) : Failure :=
  file e.verb.text path (plain e.cause.message)

/-- A failure with a remark in front; without a failure the remark says that there is none. -/
def remark (message : Bytes) : Option Failure → Failure
  | some cause => wrapped message cause
  | none => plain (message ++ Text.utf8 ": %!w(<nil>)")

/-- The failures that there are, joined; no failure when there is none. -/
def join? (failures : List (Option Failure)) : Option Failure :=
  match failures.filterMap id with
  | [] => none
  | present => some (joined present)

/-! ### Texts -/

mutual

/-- What a failure says. One with a file shows the place in the file. -/
def text (disk : Disk) : Failure → Bytes
  | token message => Text.utf8 "token error: " ++ message
  | parse message _ => Text.utf8 "parse error: " ++ message
  | segment offset char => SegmentFault.wording offset char
  | plain message => message
  | located cause loc => Report.located loc (cause.text disk)
  | sourced cause loc path => (Report.render .plain disk (cause.text disk) loc path).dropLast
  | file verb path cause => verb ++ Text.utf8 " " ++ path ++ Text.utf8 ": " ++ cause.text disk
  | wrapped message cause => message ++ Text.utf8 ": " ++ cause.text disk
  | joined failures => Text.join [Text.newline] (texts disk failures)

/-- What each failure says. -/
def texts (disk : Disk) : List Failure → List Bytes
  | [] => []
  | f :: rest => f.text disk :: texts disk rest

end

/-- What the fault says, with its kind and its location. -/
def describe (f : ParseFault) : Bytes :=
  let kind :=
    match f.cause with
    | .lexical _ => Text.utf8 "token error: "
    | .unexpected _ _ => Text.utf8 "parse error: "
  Report.located f.loc (kind ++ f.cause.message)

/-- What a failure to parse says does not depend on any file. -/
theorem text_ofParseFault (disk : Disk) (f : ParseFault) :
    (ofParseFault f).text disk = describe f := by
  rcases f with ⟨_ | _, loc⟩ <;> simp [ofParseFault, describe, text, ParseCause.message]

/-- The failure right inside; joined failures are not inside one another. -/
def inner? : Failure → Option Failure
  | located cause _ | sourced cause _ _ | file _ _ cause | wrapped _ cause => some cause
  | token _ | parse _ _ | segment _ _ | plain _ | joined _ => none

/-! ### Searches -/

mutual

/-- The first answer of `pick`, outermost first. -/
def find? {α : Type} (pick : Failure → Option α) : Failure → Option α
  | located cause loc => (pick (located cause loc)).or (cause.find? pick)
  | sourced cause loc path => (pick (sourced cause loc path)).or (cause.find? pick)
  | file verb path cause => (pick (file verb path cause)).or (cause.find? pick)
  | wrapped message cause => (pick (wrapped message cause)).or (cause.find? pick)
  | joined failures => (pick (joined failures)).or (findIn? pick failures)
  | token message => pick (token message)
  | parse message atEnd => pick (parse message atEnd)
  | segment offset char => pick (segment offset char)
  | plain message => pick (plain message)

/-- The first answer of `pick` in any of the failures. -/
def findIn? {α : Type} (pick : Failure → Option α) : List Failure → Option α
  | [] => none
  | f :: rest => (f.find? pick).or (findIn? pick rest)

end

/-- A failure of this kind occurs. -/
def hasToken (f : Failure) : Bool :=
  (f.find? fun | token _ => some () | _ => none).isSome

/-- A failure of this kind occurs. -/
def hasSegment (f : Failure) : Bool :=
  (f.find? fun | segment _ _ => some () | _ => none).isSome

/-- The first parse failure: whether it is at the end of the tokens. -/
def parse? (f : Failure) : Option Bool :=
  f.find? fun | parse _ atEnd => some atEnd | _ => none

/-- A failure of this kind occurs. -/
def hasFile (f : Failure) : Bool :=
  (f.find? fun | file _ _ _ => some () | _ => none).isSome

/-- The first located failure: its cause and its location. -/
def located? (f : Failure) : Option (Failure × Location) :=
  f.find? fun | located cause loc => some (cause, loc) | _ => none

/-- More input could mend the failure. -/
def isIncomplete (f : Failure) : Bool := f.parse? == some true

/-- The classes of failures. -/
inductive Code where
  | lexical
  | syntactic
  | io
  | unknown
  deriving DecidableEq, Repr

/-- The class as reports and logs show it. -/
def Code.text : Code → Bytes
  | lexical => Text.utf8 "LEXICAL"
  | syntactic => Text.utf8 "SYNTAX"
  | io => Text.utf8 "IO"
  | unknown => Text.utf8 "UNKNOWN"

/-- The class of a failure. -/
def code (f : Failure) : Code :=
  if f.hasToken || f.hasSegment then .lexical
  else if f.parse?.isSome then .syntactic
  else if f.hasFile then .io
  else .unknown

/-! ### Failures with their files -/

/-- A failure in a file: the cause inside its location, the location, and the path. -/
structure InFile where
  cause : Failure
  loc : Location
  path : Bytes

/-- The failure in the file at `path`; its location is that of the first located part. -/
def inFile (f : Failure) (path : Bytes) : InFile :=
  match f.located? with
  | some (cause, loc) => ⟨cause, loc, path⟩
  | none => ⟨f, .unknown, path⟩

namespace InFile

/-- As a failure that shows its place when it is written. -/
def toFailure (f : InFile) : Failure := sourced f.cause f.loc f.path

/-- The class of the cause. -/
def code (f : InFile) : Code := f.cause.code

/-- What the cause says, with its location. -/
def message (disk : Disk) (f : InFile) : Bytes := Report.located f.loc (f.cause.text disk)

/-- The report of the failure. -/
def report (look : Report.Look) (disk : Disk) (f : InFile) : Bytes :=
  Report.render look disk (f.cause.text disk) f.loc f.path

end InFile

end Failure

end LetFn
