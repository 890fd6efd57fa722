import LetFn.Node

/-!
# Walks and comparison

`walk` visits the nodes of a tree, parents before children and children from left to right; a
visitor decides for each node whether its children are visited. `same` compares two trees and
ignores their locations; a node of an unknown kind is the same as no node, not even itself.
-/

namespace LetFn.Node

mutual

/-- The nodes that a walk visits, in order. -/
def walk (enter : Node → Bool) : Node → List Node
  | module loc stmts =>
    module loc stmts :: if enter (module loc stmts) then walkAll enter stmts else []
  | block loc stmts =>
    block loc stmts :: if enter (block loc stmts) then walkAll enter stmts else []
  | expression loc op x y =>
    expression loc op x y ::
      if enter (expression loc op x y) then x.walk enter ++ y.walk enter else []
  | lambda loc ret params bodyLoc body =>
    lambda loc ret params bodyLoc body ::
      if enter (lambda loc ret params bodyLoc body) then
        params.map typed ++
          block bodyLoc body :: if enter (block bodyLoc body) then walkAll enter body else []
      else []
  | bodiless loc ret params =>
    bodiless loc ret params ::
      if enter (bodiless loc ret params) then params.map typed else []
  | literal loc value => [literal loc value]
  | typed name => [typed name]
  | foreign typeName => [foreign typeName]
  | missing => []

/-- The nodes that walks of several trees visit, in order. -/
def walkAll (enter : Node → Bool) : List Node → List Node
  | [] => []
  | n :: rest => n.walk enter ++ walkAll enter rest

end

/-- Two names with types agree but for their locations. -/
def sameTyped (a b : TypedName) : Bool := a.name == b.name && a.type == b.type

/-- Two lists agree in length and, one by one, under `f`. -/
def sameBy {α : Type} (f : α → α → Bool) : List α → List α → Bool
  | [], [] => true
  | a :: as, b :: bs => f a b && sameBy f as bs
  | _, _ => false

mutual

/-- Two trees agree but for their locations. -/
def same : Node → Node → Bool
  | module _ xs, module _ ys | block _ xs, block _ ys => sameAll xs ys
  | literal _ v, literal _ w => v == w
  | typed a, typed b => sameTyped a b
  | expression _ p a b, expression _ q c d => p == q && a.same c && b.same d
  | lambda _ r ps _ xs, lambda _ s qs _ ys => r == s && sameBy sameTyped ps qs && sameAll xs ys
  | bodiless _ r ps, bodiless _ s qs => r == s && sameBy sameTyped ps qs
  | missing, missing => true
  | _, _ => false

/-- Two lists of trees agree but for their locations. -/
def sameAll : List Node → List Node → Bool
  | [], [] => true
  | x :: xs, y :: ys => x.same y && sameAll xs ys
  | _, _ => false

end

end LetFn.Node
