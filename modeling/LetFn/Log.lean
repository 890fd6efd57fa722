import LetFn.Location
import LetFn.Text.JsonString
import LetFn.Text.Quoted

/-!
# The log

A log record is one line: a time, a level, a message and named values, the last ones those that
came with the record. Records below the level of the logger are left out. A record is written as
`name=value` pairs or as a JSON object.

What a record says about the time, and the name of the run, are given to the logger: the same
calls always write the same text.
-/

namespace LetFn.Log

/-! ### Levels and forms -/

/-- How grave a record is. -/
inductive Level where
  | debug
  | info
  | warn
  | error
  deriving DecidableEq, Repr

namespace Level

/-- The level as a number; graver levels have greater ones. -/
def rank : Level → Int
  | debug => -4
  | info => 0
  | warn => 4
  | error => 8

/-- The level as records show it. -/
def label : Level → Bytes
  | debug => Text.utf8 "DEBUG"
  | info => Text.utf8 "INFO"
  | warn => Text.utf8 "WARN"
  | error => Text.utf8 "ERROR"

/-- The level with a name, in any case. No name stands for warnings. -/
def ofName? (name : Bytes) : Option Level :=
  let name := Text.lower name
  if name = Text.utf8 "debug" then some debug
  else if name = Text.utf8 "info" then some info
  else if name = [] ∨ name = Text.utf8 "warn" ∨ name = Text.utf8 "warning" then some warn
  else if name = Text.utf8 "error" then some error
  else none

end Level

/-- How records are written. -/
inductive Form where
  | pairs
  | json
  deriving DecidableEq, Repr

/-- The form with a name, in any case. No name stands for pairs. -/
def Form.ofName? (name : Bytes) : Option Form :=
  let name := Text.lower name
  if name = [] ∨ name = Text.utf8 "text" then some pairs
  else if name = Text.utf8 "json" then some json
  else none

/-- Why there is no logger. -/
inductive Fault where
  | unknownLevel (name : Bytes)
  | unknownForm (name : Bytes)
  deriving DecidableEq, Repr

/-- What the fault says. -/
def Fault.message : Fault → Bytes
  | unknownLevel name => Text.utf8 "unknown log level " ++ Text.quote name
  | unknownForm name => Text.utf8 "unknown log format " ++ Text.quote name

/-! ### Values -/

/-- A value in a record. -/
inductive Value where
  | text (s : Bytes)
  | integer (n : Int)
  | boolean (b : Bool)
  | location (l : Location)
  deriving DecidableEq, Repr

/-- A named value. -/
abbrev Attribute := Bytes × Value

/-- The text has to be quoted in a pair: it is empty, or a reader could not tell where it ends. -/
def needsQuotes (s : Bytes) : Bool :=
  s.isEmpty ||
    (Text.units s).any fun
      | .stray _ => true
      | .char c =>
        if c.toNat < 0x80 then c == ' ' || c == '=' || c == '"' || c.toNat < 0x20
        else c == Text.replacement || Text.isSpace c || !Text.isPrintable c

/-- A text in a pair. -/
def pairText (s : Bytes) : Bytes := if needsQuotes s then Text.quote s else s

/-- A truth value. -/
def truth (b : Bool) : Bytes := if b then Text.utf8 "true" else Text.utf8 "false"

/-- A value in a pair. -/
def Value.inPair : Value → Bytes
  | text s => pairText s
  | integer n => Text.signed n
  | boolean b => truth b
  | location l => pairText l.text

/-- JSON strings in records: only what JSON asks for is written by number, and so is a stray
byte. -/
def jsonStyle : Text.JsonStyle where
  markupByNumber := false
  shortControls := false
  stray := Text.utf8 "\\ufffd"

/-- A value in a JSON object. What is inside a location does not show. -/
def Value.inJson : Value → Bytes
  | text s => Text.jsonString jsonStyle s
  | integer n => Text.signed n
  | boolean b => truth b
  | location _ => Text.utf8 "\x7b\x7d"

/-! ### Loggers -/

/-- What records have in common. -/
structure Logger where
  /-- The least level that is written. -/
  level : Level
  form : Form
  /-- What records show as their time. -/
  stamp : Bytes
  /-- The values of every record. -/
  attributes : List Attribute

namespace Logger

/-- A logger for a run, by the names of its level and form. -/
def make (level form stamp run : Bytes) : Except Fault Logger :=
  match Level.ofName? level, Form.ofName? form with
  | none, _ => .error (.unknownLevel level)
  | some _, none => .error (.unknownForm form)
  | some level, some form => .ok ⟨level, form, stamp, [(Text.utf8 "run", .text run)]⟩

/-- The logger of a part of the program. -/
def component (l : Logger) (name : Bytes) : Logger :=
  { l with attributes := l.attributes ++ [(Text.utf8 "component", .text name)] }

/-- A record as pairs. -/
def pairs (l : Logger) (level : Level) (message : Bytes) (attributes : List Attribute) : Bytes :=
  let head := [Text.utf8 "time=" ++ l.stamp, Text.utf8 "level=" ++ level.label,
    Text.utf8 "msg=" ++ pairText message]
  let tail := (l.attributes ++ attributes).map fun (name, v) =>
    pairText name ++ Text.utf8 "=" ++ v.inPair
  Text.join [Text.blank] (head ++ tail)

/-- A record as a JSON object. -/
def json (l : Logger) (level : Level) (message : Bytes) (attributes : List Attribute) : Bytes :=
  let head := [(Text.utf8 "time", Value.text l.stamp), (Text.utf8 "level", .text level.label),
    (Text.utf8 "msg", .text message)]
  let members := (head ++ l.attributes ++ attributes).map fun (name, v) =>
    Text.jsonString jsonStyle name ++ Text.utf8 ":" ++ v.inJson
  Text.utf8 "\x7b" ++ Text.join (Text.utf8 ",") members ++ Text.utf8 "\x7d"

/-- What the log writes for a record: a line, or nothing when the level is too low. -/
def record (l : Logger) (level : Level) (message : Bytes) (attributes : List Attribute) : Bytes :=
  if level.rank < l.level.rank then []
  else
    (match l.form with
      | .pairs => l.pairs level message attributes
      | .json => l.json level message attributes) ++ [Text.newline]

/-- A record of the lowest level. -/
def debug (l : Logger) (message : String) (attributes : List Attribute) : Bytes :=
  l.record .debug (Text.utf8 message) attributes

end Logger

end LetFn.Log
