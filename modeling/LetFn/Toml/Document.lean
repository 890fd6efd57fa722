import LetFn.Toml.Syntax
import LetFn.Text.Utf8

/-!
# TOML documents

The items of a document build up one table. Every key may be defined once; a table that exists
only because names below it were mentioned may still be defined in its own right. `Draft` is a
table in the making together with what is known about the paths in it, and `Table.parse?` reads a
whole document.

Three facts about paths outlive the values there: `implicit` paths were only mentioned, `arrays`
hold an array written as a value, and paths in rows of an array of tables are shared by all rows.
-/

namespace LetFn.Toml

/-- A value of a document. -/
inductive Value where
  | text (s : String)
  | integer (n : Int)
  | float (text : List Char)
  | boolean (b : Bool)
  | moment (text : List Char)
  | array (items : List Value)
  | table (entries : List (String × Value))
  | rows (tables : List (List (String × Value)))

/-- The values of names, in the order in which the names came up. -/
abbrev Table := List (String × Value)

/-- The table with a value for a name, in place of the one it had. -/
def Table.put (t : Table) (name : String) (v : Value) : Table :=
  if (t.lookup name).isSome then t.map fun e => if e.1 == name then (name, v) else e
  else t ++ [(name, v)]

/-- The table at a path, changed; the last row stands for an array of tables. There is no such
table where another value is in the way. -/
def Table.change (f : Table → Option Table) : Path → Table → Option Table
  | [], t => f t
  | name :: path, t =>
    match t.lookup name with
    | some (.table inner) => (Table.change f path inner).map fun inner => t.put name (.table inner)
    | some (.rows tables) => do
      let last ← tables.getLast?
      let last ← Table.change f path last
      some (t.put name (.rows (tables.dropLast ++ [last])))
    | _ => none

/-- The table at a path. -/
def Table.at? : Path → Table → Option Table
  | [], t => some t
  | name :: path, t =>
    match t.lookup name with
    | some (.table inner) => Table.at? path inner
    | some (.rows tables) => do Table.at? path (← tables.getLast?)
    | _ => none

/-- A document in the making. -/
structure Draft where
  root : Table
  /-- The paths that were only mentioned. -/
  implicit : List Path
  /-- The paths at which an array was written as a value. -/
  arrays : List Path

namespace Draft

/-- Nothing yet. -/
def empty : Draft := ⟨[], [], []⟩

/-- The path is only mentioned. -/
def mention (d : Draft) (path : Path) : Draft :=
  if d.implicit.contains path then d else { d with implicit := path :: d.implicit }

/-- The path is defined. -/
def settle (d : Draft) (path : Path) : Draft := { d with implicit := d.implicit.filter (· != path) }

/-- The path that stands for a name in a table; an empty name stands for the table itself. -/
def keyPath (context : Path) (name : String) : Path :=
  if name.isEmpty then (if context.isEmpty then [""] else context) else context ++ [name]

/-- Notes whether an array is written at the path. -/
def noteArray (d : Draft) (path : Path) (isArray : Bool) : Draft :=
  let others := d.arrays.filter (· != path)
  { d with arrays := if isArray then path :: others else others }

/-- Defines a name in the table at a path. -/
def define (d : Draft) (context : Path) (name : String) (v : Value) : Option Draft := do
  let path := context ++ [name]
  let table ← Table.at? context d.root
  let put : Option Draft := do
    let root ← Table.change (fun t => some (t.put name v)) context d.root
    some { d with root := root }
  match table.lookup name with
  | none => put
  | some _ =>
    -- An array written as a value gives way; a table that was only mentioned stays as it is.
    if d.arrays.contains path then put.map (·.settle path)
    else if d.implicit.contains path then some (d.settle path)
    else none

/-- Makes sure that there are tables at the names of a path, the last one apart. -/
def reach (d : Draft) (before : Path) : Path → Option Draft
  | [] | [_] => some d
  | name :: path => do
    let table ← Table.at? before d.root
    let d ←
      match table.lookup name with
      | none => do
        let root ← Table.change (fun t => some (t.put name (.table []))) before d.root
        some { d.mention (before ++ [name]) with root := root }
      | some (.table _) | some (.rows _) => some d
      | some _ => none
    d.reach (before ++ [name]) path

/-- Opens a table at a path. -/
def openTable (d : Draft) (path : Path) : Option Draft := do
  let d ← d.reach [] path
  d.define path.dropLast (path.getLast?.getD "") (.table [])

/-- Opens a new row at a path, the first one or one more. -/
def openRow (d : Draft) (path : Path) : Option Draft := do
  let d ← d.reach [] path
  let name := path.getLast?.getD ""
  let add (t : Table) : Option Table :=
    match t.lookup name with
    | none => some (t.put name (.rows [[]]))
    | some (.rows tables) => some (t.put name (.rows (tables ++ [[]])))
    | some _ => none
  let root ← Table.change add path.dropLast d.root
  some { d with root := root }

/-- Opens a table for each name of a path below another. -/
def openBelow (d : Draft) (context : Path) : Path → Option Draft
  | [] => some d
  | name :: path => do
    -- What is mentioned can be opened again, so keys may share the beginning of their paths.
    let d ← (d.mention (context ++ [name])).openTable (context ++ [name])
    d.openBelow (context ++ [name]) path

mutual

/-- The value that is written for a name in the table at a path. A table on one line is built up
in the document, as a row when it is inside an array. -/
def evaluate (d : Draft) (context : Path) (name : String) (inArray : Bool) :
    Written → Option (Draft × Value)
  | .text s => some (d, .text s)
  | .integer n => some (d, .integer n)
  | .float s => some (d, .float s)
  | .boolean b => some (d, .boolean b)
  | .moment s => some (d, .moment s)
  | .array items => do
    let (d, vs) ← (d.noteArray (keyPath context name) true).evaluateAll context name items
    some (d, .array vs)
  | .inline pairs => do
    let path := context ++ [name]
    -- The table counts as only mentioned until its key is defined.
    let d := d.mention path
    let d ← if inArray then d.openRow path else d.openTable path
    let d ← d.assignAll path pairs
    some (d, .table (← Table.at? path d.root))

/-- The values of the items of an array. -/
def evaluateAll (d : Draft) (context : Path) (name : String) :
    List Written → Option (Draft × List Value)
  | [] => some (d, [])
  | w :: rest => do
    let (d, v) ← d.evaluate context name true w
    let (d, vs) ← d.evaluateAll context name rest
    some (d, v :: vs)

/-- Defines keys, each by what is written for it, in the table at a path. -/
def assignAll (d : Draft) (context : Path) : List (Path × Written) → Option Draft
  | [] => some d
  | (key, w) :: rest => do
    let d ← d.openBelow context key.dropLast
    let context' := context ++ key.dropLast
    let name := key.getLast?.getD ""
    let (d, v) ← d.evaluate context' name false w
    let d ← d.define context' name v
    let d := d.noteArray (keyPath context' name) (v matches .array _)
    d.assignAll context rest

end

/-- Takes in the items of a document; keys go to the table opened last, at `context`. -/
def addAll (d : Draft) (context : Path) : List Item → Option Draft
  | [] => some d
  | .table path :: rest => do
    let d ← d.openTable path
    (d.noteArray path false).addAll path rest
  | .row path :: rest => do
    let d ← d.openRow path
    (d.noteArray path false).addAll path rest
  | .pair key w :: rest => do
    let d ← d.assignAll context [(key, w)]
    d.addAll context rest

end Draft

/-- A text without the mark of its encoding in front. -/
def withoutMark (s : Bytes) : Bytes :=
  let marks : List Bytes := [[0xFF, 0xFE], [0xFE, 0xFF], [0xEF, 0xBB, 0xBF]]
  (marks.findSome? (Text.dropStart? · s)).getD s

/-- The table that a document builds up. -/
def Table.parse? (s : Bytes) : Option Table := do
  let cs ← Text.chars? (withoutMark s)
  let items ← Item.parse? cs
  let d ← Draft.empty.addAll [] items
  some d.root

end LetFn.Toml
