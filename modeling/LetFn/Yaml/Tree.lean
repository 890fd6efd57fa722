import LetFn.Text.Utf8
import LetFn.Yaml.Token

/-!
# YAML trees

The tokens of a document form a tree of scalars, lists and mappings. `Document.parse?` reads the
first document of a text and leaves the others alone, except that reading is always a few tokens
ahead, so a text that cannot be read right behind the first document is refused.
-/

namespace LetFn.Yaml

/-- A node of a document. -/
inductive Tree where
  | scalar (text : String) (plain : Bool)
  | sequence (items : List Tree)
  | mapping (pairs : List (Tree × Tree))

namespace Tree

/-- What stands where nothing is written. -/
def nothing : Tree := scalar "" true

/-- The token ends what is being read. -/
def isEnd (ends : List Token) (ts : List Token) : Bool := ts.head?.any ends.contains

mutual

/-- A node; in a block, `entries` when it may be a list that is not indented. -/
def node (block entries : Bool) : Nat → List Token → Option (Tree × List Token)
  | 0, _ => none
  | fuel + 1, ts =>
    match ts with
    | .scalar text plain :: rest => some (scalar text plain, rest)
    | .flowStart .sequence :: rest => do
      let (items, rest) ← flowItems true fuel rest
      some (sequence items, rest)
    | .flowStart .mapping :: rest => do
      let (pairs, rest) ← flowPairs true fuel rest
      some (mapping pairs, rest)
    | .blockStart .sequence :: rest =>
      if block then do
        let (items, rest) ← blockItems fuel rest
        some (sequence items, rest)
      else none
    | .blockStart .mapping :: rest =>
      if block then do
        let (pairs, rest) ← blockPairs fuel rest
        some (mapping pairs, rest)
      else none
    | .blockEntry :: _ =>
      if entries then do
        let (items, rest) ← looseItems fuel ts
        some (sequence items, rest)
      else none
    | _ => none

/-- A node, or nothing when one of the tokens `ends` is next. -/
def nodeOr (ends : List Token) (block entries : Bool) :
    Nat → List Token → Option (Tree × List Token)
  | 0, _ => none
  | fuel + 1, ts =>
    if isEnd ends ts then some (nothing, ts) else node block entries fuel ts

/-- The items of an indented list. -/
def blockItems : Nat → List Token → Option (List Tree × List Token)
  | 0, _ => none
  | fuel + 1, ts =>
    match ts with
    | .blockEntry :: rest => do
      let (item, rest) ← nodeOr [.blockEntry, .blockEnd] true false fuel rest
      let (items, rest) ← blockItems fuel rest
      some (item :: items, rest)
    | .blockEnd :: rest => some ([], rest)
    | _ => none

/-- The items of a list that stands at the indentation of its key. -/
def looseItems : Nat → List Token → Option (List Tree × List Token)
  | 0, _ => none
  | fuel + 1, ts =>
    match ts with
    | .blockEntry :: rest => do
      let (item, rest) ← nodeOr [.blockEntry, .key, .value, .blockEnd] true false fuel rest
      let (items, rest) ← looseItems fuel rest
      some (item :: items, rest)
    | rest => some ([], rest)

/-- The pairs of an indented mapping. -/
def blockPairs : Nat → List Token → Option (List (Tree × Tree) × List Token)
  | 0, _ => none
  | fuel + 1, ts =>
    match ts with
    | .key :: rest => do
      let (k, rest) ← nodeOr [.key, .value, .blockEnd] true true fuel rest
      let (v, rest) ← blockValue fuel rest
      let (pairs, rest) ← blockPairs fuel rest
      some ((k, v) :: pairs, rest)
    | .blockEnd :: rest => some ([], rest)
    | _ => none

/-- The value of a key in an indented mapping. -/
def blockValue : Nat → List Token → Option (Tree × List Token)
  | 0, _ => none
  | fuel + 1, ts =>
    match ts with
    | .value :: rest => nodeOr [.key, .value, .blockEnd] true true fuel rest
    | rest => some (nothing, rest)

/-- The items of a list in brackets. A key in it makes a mapping of one pair. -/
def flowItems (first : Bool) : Nat → List Token → Option (List Tree × List Token)
  | 0, _ => none
  | fuel + 1, ts =>
    match ts, first with
    | .flowEnd .sequence :: rest, _ => some ([], rest)
    | .flowEntry :: rest, false | rest, true =>
      match rest with
      | .flowEnd .sequence :: rest => some ([], rest)
      | .key :: rest => do
        let (k, rest) ← nodeOr [.value, .flowEntry, .flowEnd .sequence] false false fuel rest
        let (v, rest) ← flowValue (.flowEnd .sequence) fuel rest
        let (items, rest) ← flowItems false fuel rest
        some (mapping [(k, v)] :: items, rest)
      | rest => do
        let (item, rest) ← node false false fuel rest
        let (items, rest) ← flowItems false fuel rest
        some (item :: items, rest)
    | _, false => none

/-- The pairs of a mapping in braces. -/
def flowPairs (first : Bool) : Nat → List Token → Option (List (Tree × Tree) × List Token)
  | 0, _ => none
  | fuel + 1, ts =>
    match ts, first with
    | .flowEnd .mapping :: rest, _ => some ([], rest)
    | .flowEntry :: rest, false | rest, true =>
      match rest with
      | .flowEnd .mapping :: rest => some ([], rest)
      | .key :: rest => do
        let (k, rest) ← nodeOr [.value, .flowEntry, .flowEnd .mapping] false false fuel rest
        let (v, rest) ← flowValue (.flowEnd .mapping) fuel rest
        let (pairs, rest) ← flowPairs false fuel rest
        some ((k, v) :: pairs, rest)
      | rest => do
        let (k, rest) ← node false false fuel rest
        let (pairs, rest) ← flowPairs false fuel rest
        some ((k, nothing) :: pairs, rest)
    | _, false => none

/-- The value of a key inside brackets that end with `close`. -/
def flowValue (close : Token) : Nat → List Token → Option (Tree × List Token)
  | 0, _ => none
  | fuel + 1, ts =>
    match ts with
    | .value :: rest => nodeOr [.flowEntry, close] false false fuel rest
    | rest => some (nothing, rest)

end

/-- How many tokens from the one behind a document on are read along with it. -/
def lookahead : Nat := 3

/-- The first document of some tokens: none when there is no document, and nothing at all when it
cannot be read. -/
def ofTokens? (ts : List Token) : Option (Option Tree) :=
  let fuel := 4 * ts.length + 4
  let found : Option (Option Tree × List Token) :=
    match ts with
    | .streamEnd :: rest => some (none, rest)
    | .documentStart :: rest =>
      (nodeOr [.documentStart, .documentEnd, .streamEnd] true false fuel rest).map
        fun (t, rest) => (some t, rest)
    | ts => (node true false fuel ts).map fun (t, rest) => (some t, rest)
  match found with
  | some (t, rest) => if (rest.take lookahead).contains .failed then none else some t
  | none => none

/-- The first document of a text. -/
def parse? (s : Bytes) : Option (Option Tree) := do
  let cs ← Text.chars? ((Text.dropStart? [0xEF, 0xBB, 0xBF] s).getD s)
  if cs.all isAllowed then ofTokens? (Token.ofChars cs) else none

/-! ### What scalars mean -/

/-- A plain scalar that stands for no value. -/
def isNull : Tree → Bool
  | scalar text plain => plain && ["", "~", "null", "Null", "NULL"].contains text
  | _ => false

/-- A whole number as it is written, with a base in front or none; a zero in front stands for base
eight. -/
def natOfText? : List Char → Option Nat
  | '0' :: mark :: digits =>
    if mark = 'x' ∨ mark = 'X' then Decimal.natOfDigits? 16 digits
    else if mark = 'b' ∨ mark = 'B' then Decimal.natOfDigits? 2 digits
    else if mark = 'o' ∨ mark = 'O' then Decimal.natOfDigits? 8 digits
    else Decimal.natOfDigits? 8 (mark :: digits)
  | digits => Decimal.natOfDigits? 10 digits

/-- The number as a word of 64 bits; what is below the least one, or just above the greatest, is
taken for the least one. -/
def wordOfWhole? (n : Int) : Option Int :=
  if 0x8000000000000000 < n then none
  else if n = 0x8000000000000000 ∨ n < -0x8000000000000000 then some (-0x8000000000000000)
  else some n

/-- The scalar begins like a number. -/
def beginsNumber (text : String) : Bool :=
  text.toList.head?.any fun c => c.isDigit || c == '+' || c == '-' || c == '.'

/-- The number in a plain scalar, cut off behind the point. -/
def integerOfText? (text : String) : Option Int :=
  if ["-.inf", "-.Inf", "-.INF"].contains text then some (-0x8000000000000000)
  else if !beginsNumber text then none
  else
    let s := if text.startsWith "." then text.toList else text.toList.filter (· != '_')
    let (negative, digits) := Decimal.splitSign s
    let signed := s.length != digits.length
    let fraction : Option Int :=
      match Decimal.ofChars? s with
      | some x => x.whole?.bind wordOfWhole?
      | none => none
    match natOfText? digits with
    | some n =>
      let n' := Decimal.withSign negative n
      if -0x8000000000000000 ≤ n' ∧ n' < 0x8000000000000000 then some n'
      -- One bit more, without a sign, is still an integer, if none that fits; beyond that the
      -- digits are read as a fraction is.
      else if !signed && n < 0x10000000000000000 then none
      else fraction
    | none => fraction

end Tree

end LetFn.Yaml
