import LetFn.Node
import LetFn.Text.JsonString

/-!
# Trees in JSON

The JSON form of a tree is an object for each node, with its keys in alphabetical order, its
location as a string and two blanks of indentation for each level. A missing node is `null`.

A JSON value is laid out as a list of lines; its first line goes behind the key it belongs to.
-/

namespace LetFn.Json

/-- How the JSON form of a tree writes strings. -/
def treeStyle : Text.JsonStyle := ⟨true, true, Text.utf8 "\uFFFD"⟩

/-- The lines, two blanks further to the right. -/
def indent (lines : List Bytes) : List Bytes := lines.map (Text.blanks 2 ++ ·)

/-- The lines with `s` behind the last one. -/
def behind (s : Bytes) : List Bytes → List Bytes
  | [] => [s]
  | [line] => [line ++ s]
  | line :: rest => line :: behind s rest

/-- The items with commas between them. -/
def separated : List (List Bytes) → List Bytes
  | [] => []
  | [item] => item
  | item :: rest => behind (Text.utf8 ",") item ++ separated rest

/-- A string. -/
def string (s : Bytes) : List Bytes := [Text.jsonString treeStyle s]

/-- No value. -/
def null : List Bytes := [Text.utf8 "null"]

/-- A key and the value behind it. -/
def field (key : String) (value : List Bytes) : List Bytes :=
  match value with
  | [] => []
  | first :: rest => (Text.jsonString treeStyle (Text.utf8 key) ++ Text.utf8 ": " ++ first) :: rest

/-- An object of some fields. -/
def object (fields : List (List Bytes)) : List Bytes :=
  [Text.utf8 "\x7b"] ++ indent (separated fields) ++ [Text.utf8 "\x7d"]

/-- A list of some items. -/
def array (items : List (List Bytes)) : List Bytes :=
  if items.isEmpty then [Text.utf8 "[]"]
  else [Text.utf8 "["] ++ indent (separated items) ++ [Text.utf8 "]"]

end LetFn.Json

namespace LetFn.Node

open Json (string field object array)

/-- A location in JSON. -/
def jsonLoc (loc : Location) : List Bytes := field "loc" (string loc.text)

/-- The kind of a node in JSON. -/
def jsonType (kind : String) : List Bytes := field "type" (string (Text.utf8 kind))

/-- A name with its type in JSON. -/
def jsonTyped (t : TypedName) : List Bytes :=
  object [jsonLoc t.loc, field "name" (string t.name), jsonType "TypedLiteral",
    field "typename" (string t.type)]

/-- A module or block in JSON. -/
def jsonGroup (kind : String) (loc : Location) (stmts : List (List Bytes)) : List Bytes :=
  object [jsonLoc loc, field "stmts" (array stmts), jsonType kind]

/-- A function literal in JSON. -/
def jsonLambda (loc : Location) (ret : Bytes) (params : List TypedName) (body : List Bytes) :
    List Bytes :=
  object [field "body" body, jsonLoc loc, field "params" (array (params.map jsonTyped)),
    field "returns" (string ret), jsonType "Lambda"]

mutual

/-- The lines of a node in JSON. -/
def jsonLines : Node → List Bytes
  | module loc stmts => jsonGroup "Module" loc (jsonAll stmts)
  | block loc stmts => jsonGroup "Block" loc (jsonAll stmts)
  | literal loc value => object [jsonLoc loc, jsonType "Literal", field "value" (string value)]
  | typed name => jsonTyped name
  | expression loc op x y =>
    object [jsonLoc loc, field "op" (string op.spelling), jsonType "Expression",
      field "x" x.jsonLines, field "y" y.jsonLines]
  | lambda loc ret params bodyLoc body =>
    jsonLambda loc ret params (jsonGroup "Block" bodyLoc (jsonAll body))
  | bodiless loc ret params => jsonLambda loc ret params Json.null
  | missing => Json.null
  | foreign _ => object [jsonType "Unknown"]

/-- The lines of each node in JSON. -/
def jsonAll : List Node → List (List Bytes)
  | [] => []
  | n :: rest => n.jsonLines :: jsonAll rest

end

/-- The JSON form of a tree. -/
def json (n : Node) : Bytes := Text.unlines n.jsonLines

/-- The JSON form of a tree in which every function literal has a body; others have none. -/
def json? (n : Node) : Option Bytes := if n.isComplete then some n.json else none

end LetFn.Node
