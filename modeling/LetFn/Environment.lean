import LetFn.Text.Bytes

/-!
# Environment variables

An environment gives names their values; a name it does not have stands for nothing. `expand`
puts values in place of the names a text refers to: `$NAME` for a run of letters, digits and
underscores, `$` and one of a few signs or digits for a name of that one sign, and a name in
braces for any name at all.
-/

namespace LetFn

/-- The values of names. -/
structure Environment where
  values : List (Bytes × Bytes)

namespace Environment

/-- The value of a name, empty when there is none. -/
def get (env : Environment) (name : Bytes) : Bytes := (env.values.lookup name).getD []

/-! ### References -/

/-- The sign that opens a reference. -/
def dollar : UInt8 := 0x24

/-- The sign is a name by itself. -/
def isSign (b : UInt8) : Bool := Text.isDigit b || (Text.utf8 "*#$@!?-").contains b

/-- The byte can occur in a name. -/
def isNameByte (b : UInt8) : Bool := Text.isLetter b || Text.isDigit b || b == 0x5F

/-- What a dollar sign stands for, by what follows it. -/
inductive Reference where
  /-- The value of a name. -/
  | name (name : Bytes)
  /-- Nothing: braces around nothing, or an open brace without a closing one. -/
  | nothing
  /-- Itself. -/
  | dollar
  deriving DecidableEq, Repr

/-- The reference that the text after a dollar sign makes, and how many bytes of it are used up. -/
def Reference.read : Bytes → Reference × Nat
  | [] => (.dollar, 0)
  | b :: rest =>
    if b = 0x7B then
      if rest.contains 0x7D then
        let name := rest.takeWhile (· != 0x7D)
        (if name.isEmpty then .nothing else .name name, name.length + 2)
      else (.nothing, 1)
    else if isSign b then (.name [b], 1)
    else
      let name := (b :: rest).takeWhile isNameByte
      (if name.isEmpty then .dollar else .name name, name.length)

/-- The text that a reference stands for. -/
def value (env : Environment) : Reference → Bytes
  | .name name => env.get name
  | .nothing => []
  | .dollar => [dollar]

/-! ### Texts with references -/

/-- The text with the values of the names it refers to. -/
def expand (env : Environment) : Bytes → Bytes
  | [] => []
  | b :: rest =>
    if b = dollar then
      let (reference, used) := Reference.read rest
      env.value reference ++ env.expand (rest.drop used)
    else b :: env.expand rest
termination_by s => s.length
decreasing_by all_goals simp; try omega

/-- The names that a text refers to. -/
def names : Bytes → List Bytes
  | [] => []
  | b :: rest =>
    if b = dollar then
      match Reference.read rest with
      | (.name name, used) => name :: names (rest.drop used)
      | (_, used) => names (rest.drop used)
    else names rest
termination_by s => s.length
decreasing_by all_goals simp; try omega

/-- A text without a dollar sign stays as it is. -/
theorem expand_eq_self (env : Environment) {s : Bytes} (h : dollar ∉ s) : env.expand s = s := by
  induction s with
  | nil => rw [expand]
  | cons b rest ih =>
    have hb : b ≠ dollar := fun hb => h (by simp [hb])
    rw [expand, if_neg hb, ih fun hr => h (by simp [hr])]

end Environment

end LetFn
