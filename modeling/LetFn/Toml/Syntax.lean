import LetFn.Text.Decimal

/-!
# TOML, line by line

A TOML document is a sequence of items: headers of tables, headers of rows in arrays of tables,
and keys with their values. `Item.parse?` reads the items of a document without asking whether
they fit together.
-/

namespace LetFn.Toml

/-- The names from a table down to a value. -/
abbrev Path := List String

/-- A value as it is written. -/
inductive Written where
  | text (s : String)
  | integer (n : Int)
  | float (text : List Char)
  | boolean (b : Bool)
  | moment (text : List Char)
  | array (items : List Written)
  | inline (pairs : List (Path × Written))

/-- A header, or a key and its value. -/
inductive Item where
  | table (path : Path)
  | row (path : Path)
  | pair (path : Path) (value : Written)

/-! ### White space -/

/-- A blank or a tab. -/
def isBlank (c : Char) : Bool := c == ' ' || c == '\t'

/-- Part of a line ending. A carriage return stands only before a line feed. -/
def isBreak (c : Char) : Bool := c == '\n' || c == '\r'

/-- The text without the blanks in front. -/
def skipBlanks (s : List Char) : List Char := s.dropWhile isBlank

/-- A comment up to the end of its line is left out, if the text begins with one. -/
def skipComment : List Char → List Char
  | '#' :: rest => rest.dropWhile (!isBreak ·)
  | s => s

/-- What follows blanks, line endings and comments. -/
def skipFiller : Nat → List Char → List Char
  | 0, s => s
  | fuel + 1, s =>
    match s.dropWhile fun c => isBlank c || isBreak c with
    | '#' :: rest => skipFiller fuel (rest.dropWhile (!isBreak ·))
    | s => s

/-! ### Strings -/

/-- The character with the number in hexadecimal digits. -/
def numbered? (digits : List Char) : Option Char := do
  let n ← Decimal.natOfDigits? 16 digits
  if n.isValidChar then some (Char.ofNat n) else none

/-- The character that an escape sequence stands for, read from behind the backslash. -/
def escape : List Char → Option (Char × List Char)
  | 'b' :: rest => some ('\x08', rest)
  | 't' :: rest => some ('\t', rest)
  | 'n' :: rest => some ('\n', rest)
  | 'f' :: rest => some ('\x0c', rest)
  | 'r' :: rest => some ('\r', rest)
  | '"' :: rest => some ('"', rest)
  | '\\' :: rest => some ('\\', rest)
  | 'u' :: rest => if rest.length < 4 then none else (numbered? (rest.take 4)).map (·, rest.drop 4)
  | 'U' :: rest => if rest.length < 8 then none else (numbered? (rest.take 8)).map (·, rest.drop 8)
  | _ => none

/-- The rest of a string between single or double quotes, on one line. -/
def lineString (mark : Char) (text : List Char) : Nat → List Char → Option (String × List Char)
  | 0, _ => none
  | fuel + 1, s =>
    match s with
    | [] => none
    | c :: rest =>
      if c = mark then some (String.ofList text.reverse, rest)
      else if isBreak c then none
      else if c = '\\' ∧ mark = '"' then do
        let (c, rest) ← escape rest
        lineString mark (c :: text) fuel rest
      else lineString mark (c :: text) fuel rest

/-- The rest of a string between three quotes on either side. Up to two more quotes may stand
right before the closing ones. A backslash at the end of a line takes away all white space up to
the next character. -/
def longString (mark : Char) (text : List Char) : Nat → List Char → Option (String × List Char)
  | 0, _ => none
  | fuel + 1, s =>
    match s with
    | [] => none
    | c :: rest =>
      if c = mark then
        let run := s.takeWhile (· == mark)
        let rest := s.dropWhile (· == mark)
        if run.length < 3 then longString mark (run ++ text) fuel rest
        else if run.length < 6 then some (String.ofList (text.reverse ++ run.drop 3), rest)
        else none
      else if c = '\\' ∧ mark = '"' then
        let gap := rest.takeWhile fun c => isBlank c || isBreak c
        if gap.contains '\n' then longString mark text fuel (rest.drop gap.length)
        else do
          let (c, rest) ← escape rest
          longString mark (c :: text) fuel rest
      else longString mark (c :: text) fuel rest

/-- The text without the line ending in front. -/
def skipFirstBreak : List Char → List Char
  | '\n' :: rest => rest
  | '\r' :: '\n' :: rest => rest
  | s => s

/-- A string, read from behind its first quote. -/
def string (mark : Char) (s : List Char) : Option (String × List Char) :=
  if s.take 2 = [mark, mark] then
    let body := skipFirstBreak (s.drop 2)
    longString mark [] (body.length + 1) body
  else lineString mark [] (s.length + 1) s

/-! ### Keys -/

/-- A character of a name without quotes. -/
def isBare (c : Char) : Bool := c.isAlphanum || c == '_' || c == '-'

/-- A name, with or without quotes. -/
def name : List Char → Option (String × List Char)
  | '"' :: rest => lineString '"' [] (rest.length + 1) rest
  | '\'' :: rest => lineString '\'' [] (rest.length + 1) rest
  | s =>
    let bare := s.takeWhile isBare
    if bare.isEmpty then none else some (String.ofList bare, s.dropWhile isBare)

/-- Names with dots between them, and the blanks around each. -/
def path : Nat → List Char → Option (Path × List Char)
  | 0, _ => none
  | fuel + 1, s => do
    let (first, rest) ← name (skipBlanks s)
    match skipBlanks rest with
    | '.' :: rest => do
      let (others, rest) ← path fuel rest
      some (first :: others, rest)
    | rest => some ([first], rest)

/-! ### Numbers and moments -/

/-- Every underscore stands between two digits of the base. -/
def underscoresFit (base : Nat) (s : List Char) : Bool :=
  go false s
where
  /-- `open_` when an underscore may follow, or the end. -/
  go (open_ : Bool) : List Char → Bool
    | [] => open_
    | c :: rest =>
      if c = '_' then open_ && go false rest else Decimal.isDigitOf base c && go true rest

/-- The number that digits with underscores stand for. -/
def digits? (base : Nat) (s : List Char) : Option Nat :=
  if underscoresFit base s then Decimal.natOfDigits? base (s.filter (· != '_')) else none

/-- The number, if it is one of 64 bits with a sign. -/
def word? (n : Int) : Option Int :=
  if -0x8000000000000000 ≤ n ∧ n < 0x8000000000000000 then some n else none

/-- A zero stands in front of other digits. -/
def hasIdleZero (digits : List Char) : Bool := digits.head? == some '0' && digits.length != 1

/-- A decimal integer. -/
def integer? (s : List Char) : Option Int := do
  let (negative, digits) := Decimal.splitSign s
  if hasIdleZero digits then none
  else word? (Decimal.withSign negative (← digits? 10 digits))

/-- The number is written as a float and is not too large for one. -/
def isFloat (s : List Char) : Bool :=
  let (_, body) := Decimal.splitSign s
  let isExponentMark (c : Char) : Bool := c == 'e' || c == 'E'
  let mantissa := body.takeWhile (!isExponentMark ·)
  let whole := mantissa.takeWhile (· != '.')
  let fraction := mantissa.dropWhile (· != '.')
  let power := (Decimal.splitSign (body.drop (mantissa.length + 1))).2
  underscoresFit 10 whole && !hasIdleZero whole &&
    (fraction.isEmpty || underscoresFit 10 (fraction.drop 1)) &&
    (mantissa.length == body.length || underscoresFit 10 power) &&
    ((Decimal.ofChars? (s.filter (· != '_'))).bind Decimal.wholeSize?).isSome

/-- The digits of a two-digit number below `limit`. -/
def isBelow (limit : Nat) (s : List Char) : Bool :=
  s.length == 2 && (Decimal.natOfDigits? 10 s).any (· < limit)

/-- A date: year, month and day. -/
def isDate (s : List Char) : Bool :=
  match Decimal.natOfDigits? 10 (s.take 4), Decimal.natOfDigits? 10 ((s.drop 5).take 2),
    Decimal.natOfDigits? 10 (s.drop 8) with
  | some year, some month, some day =>
    let leap := year % 4 == 0 && (year % 100 != 0 || year % 400 == 0)
    let days := if month = 2 then (if leap then 29 else 28)
      else if [4, 6, 9, 11].contains month then 30 else 31
    s.length == 10 && s[4]? == some '-' && s[7]? == some '-' && 1 ≤ month && month ≤ 12 &&
      1 ≤ day && day ≤ days
  | _, _, _ => false

/-- A time of day: hour, minute and second, perhaps with a fraction. -/
def isTime (s : List Char) : Bool :=
  let fraction := s.drop 8
  isBelow 24 (s.take 2) && s[2]? == some ':' && isBelow 60 ((s.drop 3).take 2) &&
    s[5]? == some ':' && isBelow 60 ((s.drop 6).take 2) &&
    (fraction.isEmpty ||
      (fraction.head? == some '.' && (Decimal.natOfDigits? 10 (fraction.drop 1)).isSome))

/-- The distance of a zone from the mean one. -/
def isZone (s : List Char) : Bool :=
  s == ['Z'] ||
    ((s.head? == some '+' || s.head? == some '-') && isBelow 25 ((s.drop 1).take 2) &&
      s[3]? == some ':' && isBelow 61 (s.drop 4))

/-- A date, a time of day, or both, then perhaps with a zone. -/
def isMoment (s : List Char) : Bool :=
  isDate s || isTime s ||
    (isDate (s.take 10) && s[10]? == some 'T' &&
      (isTime (s.drop 11) ||
        let clock := (s.drop 11).takeWhile fun c => c.isDigit || c == ':' || c == '.'
        isTime clock && isZone (s.drop (11 + clock.length))))

/-- Letters in upper case and a blank as the mark between date and time. -/
def momentChar (c : Char) : Char := if c = 't' ∨ c = ' ' then 'T' else if c = 'z' then 'Z' else c

/-- The text without blanks at its end. -/
def trimEnd (s : List Char) : List Char := (s.reverse.dropWhile isBlank).reverse

/-- A number in a base other than ten. -/
def based (base : Nat) (s : List Char) : Option (Written × List Char) := do
  let isPart (c : Char) : Bool := Decimal.isDigitOf base c || c == '_'
  let n ← digits? base (s.takeWhile isPart)
  some (.integer (← word? n), s.dropWhile isPart)

/-- A decimal integer or a float. -/
def decimal (s : List Char) : Option (Written × List Char) :=
  let (_, body) := Decimal.splitSign s
  let whole := body.takeWhile fun c => c.isDigit || c == '_'
  let sign := s.length - body.length
  match body.drop whole.length with
  | c :: _ =>
    if c = '.' ∨ c = 'e' ∨ c = 'E' then
      let isPart (c : Char) : Bool := c.isDigit || ['_', '.', '-', '+', 'e', 'E'].contains c
      let text := s.take sign ++ body.takeWhile isPart
      if isFloat text then some (.float text, body.dropWhile isPart) else none
    else (integer? (s.take (sign + whole.length))).map (.integer ·, body.drop whole.length)
  | [] => (integer? s).map (.integer ·, [])

/-- A number, or a moment. -/
def number (s : List Char) : Option (Written × List Char) :=
  match s with
  | '0' :: 'x' :: rest => based 16 rest
  | '0' :: 'o' :: rest => based 8 rest
  | '0' :: 'b' :: rest => based 2 rest
  | s =>
    match s.dropWhile Char.isDigit with
    | c :: rest =>
      if (c = '-' ∨ c = ':') ∧ rest.length + 1 < s.length then
        let isPart (c : Char) : Bool :=
          c.isDigit || ['-', ':', 'T', 't', ' ', '.', 'Z', 'z', '+'].contains c
        let text := (trimEnd (s.takeWhile isPart)).map momentChar
        if isMoment text then some (.moment text, s.drop text.length) else none
      else decimal s
    | [] => decimal s

/-! ### Values -/

/-- The rest of the text behind a word it begins with. -/
def dropWord? (word : String) (s : List Char) : Option (List Char) :=
  if word.toList.isPrefixOf s then some (s.drop word.length) else none

/-- A value that begins with a letter or a sign, or a number. -/
def plain (s : List Char) : Option (Written × List Char) :=
  let (_, body) := Decimal.splitSign s
  match dropWord? "inf" body, dropWord? "nan" body, dropWord? "true" s, dropWord? "false" s with
  | some rest, _, _, _ | _, some rest, _, _ => some (.float (s.take (s.length - rest.length)), rest)
  | _, _, some rest, _ => some (.boolean true, rest)
  | _, _, _, some rest => some (.boolean false, rest)
  | _, _, _, _ => number s

mutual

/-- A value. -/
def value : Nat → List Char → Option (Written × List Char)
  | 0, _ => none
  | fuel + 1, s =>
    match s with
    | '"' :: rest => (string '"' rest).map fun (t, rest) => (.text t, rest)
    | '\'' :: rest => (string '\'' rest).map fun (t, rest) => (.text t, rest)
    | '[' :: rest => (items fuel rest).map fun (vs, rest) => (.array vs, rest)
    | '\x7b' :: rest =>
      match skipBlanks rest with
      | '\x7d' :: rest => some (.inline [], rest)
      | rest => (pairs fuel rest).map fun (ps, rest) => (.inline ps, rest)
    | s => plain s

/-- The items of an array, read from behind its bracket or a comma. -/
def items : Nat → List Char → Option (List Written × List Char)
  | 0, _ => none
  | fuel + 1, s =>
    match skipFiller s.length s with
    | ']' :: rest => some ([], rest)
    | s => do
      let (v, rest) ← value fuel s
      match skipFiller rest.length rest with
      | ',' :: rest => do
        let (vs, rest) ← items fuel rest
        some (v :: vs, rest)
      | ']' :: rest => some ([v], rest)
      | _ => none

/-- The keys and values of a table on one line. -/
def pairs : Nat → List Char → Option (List (Path × Written) × List Char)
  | 0, _ => none
  | fuel + 1, s => do
    let (key, v, rest) ← pair fuel s
    match skipBlanks rest with
    | ',' :: rest => do
      let (ps, rest) ← pairs fuel rest
      some ((key, v) :: ps, rest)
    | '\x7d' :: rest => some ([(key, v)], rest)
    | _ => none

/-- A key and its value. -/
def pair : Nat → List Char → Option (Path × Written × List Char)
  | 0, _ => none
  | fuel + 1, s => do
    let (key, rest) ← path (s.length + 1) s
    match rest with
    | '=' :: rest => do
      let (v, rest) ← value fuel (skipBlanks rest)
      some (key, v, rest)
    | _ => none

end

/-! ### Documents -/

/-- An item. -/
def item (s : List Char) : Option (Item × List Char) :=
  match s with
  | '[' :: '[' :: rest => do
    let (names, rest) ← path (s.length + 1) rest
    match rest with
    | ']' :: ']' :: rest => some (.row names, rest)
    | _ => none
  | '[' :: rest => do
    let (names, rest) ← path (s.length + 1) rest
    match rest with
    | ']' :: rest => some (.table names, rest)
    | _ => none
  | s => do
    let (names, v, rest) ← pair (2 * s.length + 2) s
    some (.pair names v, rest)

/-- The items of a document, each at the end of its line but for blanks and a comment. -/
def itemList : Nat → List Char → Option (List Item)
  | 0, _ => none
  | fuel + 1, s =>
    match skipFiller s.length s with
    | [] => some []
    | s => do
      let (first, rest) ← item s
      let rest := skipComment (skipBlanks rest)
      if rest.isEmpty || rest.head?.any isBreak then
        let others ← itemList fuel rest
        some (first :: others)
      else none

/-- No control character but tabs and line endings occurs. -/
def isClean : List Char → Bool
  | [] => true
  | '\r' :: '\n' :: rest => isClean rest
  | c :: rest => (c == '\t' || c == '\n' || (0x20 ≤ c.toNat && c.toNat != 0x7F)) && isClean rest

/-- The items of a document. -/
def Item.parse? (s : List Char) : Option (List Item) :=
  if isClean s then itemList (s.length + 1) s else none

end LetFn.Toml
