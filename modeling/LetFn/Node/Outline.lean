import LetFn.Node
import LetFn.Text.Quoted

/-!
# Outlines

The outline of a tree has a line for each node, with its kind, its location and its own texts,
and two blanks of indentation for each level. A function literal has label lines for its return
type, its parameters, when there are any, and its body. A missing node has no line.
-/

namespace LetFn.Node

/-- A line of an outline. -/
def outlineLine (depth : Nat) (text : Bytes) : Bytes := Text.blanks (2 * depth) ++ text

/-- The line of a name with its type. -/
def outlineTyped (depth : Nat) (t : TypedName) : Bytes :=
  outlineLine depth (Text.utf8 "TypedLiteral " ++ t.loc.text ++ Text.utf8 " " ++
    Text.quote t.name ++ Text.utf8 ": " ++ Text.quote t.type)

/-- The lines of a function literal before its body. -/
def outlineHeader (depth : Nat) (loc : Location) (ret : Bytes) (params : List TypedName) :
    List Bytes :=
  [outlineLine depth (Text.utf8 "Lambda " ++ loc.text),
   outlineLine (depth + 1) (Text.utf8 "Returns: " ++ ret)] ++
  (if params.isEmpty then []
   else outlineLine (depth + 1) (Text.utf8 "Params:") :: params.map (outlineTyped (depth + 2))) ++
  [outlineLine (depth + 1) (Text.utf8 "Body:")]

mutual

/-- The lines of a node at a given depth. -/
def outlineLines (depth : Nat) : Node → List Bytes
  | module loc stmts =>
    outlineLine depth (Text.utf8 "Module " ++ loc.text) :: outlineAll (depth + 1) stmts
  | block loc stmts =>
    outlineLine depth (Text.utf8 "Block " ++ loc.text) :: outlineAll (depth + 1) stmts
  | literal loc value =>
    [outlineLine depth (Text.utf8 "Literal " ++ loc.text ++ Text.utf8 " " ++ Text.quote value)]
  | typed name => [outlineTyped depth name]
  | expression loc op x y =>
    outlineLine depth (Text.utf8 "Expression " ++ op.spelling ++ Text.utf8 " " ++ loc.text) ::
      (outlineLines (depth + 1) x ++ outlineLines (depth + 1) y)
  | lambda loc ret params bodyLoc body =>
    outlineHeader depth loc ret params ++
      outlineLine (depth + 2) (Text.utf8 "Block " ++ bodyLoc.text) :: outlineAll (depth + 3) body
  | bodiless loc ret params => outlineHeader depth loc ret params
  | missing => []
  | foreign typeName => [outlineLine depth typeName]

/-- The lines of nodes at a given depth. -/
def outlineAll (depth : Nat) : List Node → List Bytes
  | [] => []
  | n :: rest => outlineLines depth n ++ outlineAll depth rest

end

/-- The outline of a tree. -/
def outline (n : Node) : Bytes := Text.unlines (outlineLines 0 n)

/-- The outline of a tree in which every function literal has a body; others have none. -/
def outline? (n : Node) : Option Bytes := if n.isComplete then some n.outline else none

end LetFn.Node
