/-!
# Decimal numbers

Configuration files hold decimal numbers, which are read as the nearest binary number of 53
significant bits, a tie going to the even one. Here only two things are asked of that number:
whether there is one, since the largest is just below `2 ^ 1024`, and what its whole part is.
-/

namespace LetFn

/-- The number `coefficient · 10 ^ exponent`, or its negative. -/
structure Decimal where
  negative : Bool
  coefficient : Nat
  exponent : Int
  deriving DecidableEq, Repr

namespace Decimal

/-! ### Reading digits -/

/-- The value of a digit in the bases up to sixteen. -/
def digitValue? (c : Char) : Option Nat :=
  if c.isDigit then some (c.toNat - '0'.toNat)
  else if 'a' ≤ c ∧ c ≤ 'f' then some (c.toNat - 'a'.toNat + 10)
  else if 'A' ≤ c ∧ c ≤ 'F' then some (c.toNat - 'A'.toNat + 10)
  else none

/-- A digit of the base. -/
def isDigitOf (base : Nat) (c : Char) : Bool := (digitValue? c).any (· < base)

/-- The number that digits of the base stand for, if they are that and there are any. -/
def natOfDigits? (base : Nat) (s : List Char) : Option Nat :=
  if !s.isEmpty && s.all (isDigitOf base) then
    some (s.foldl (fun n c => n * base + (digitValue? c).getD 0) 0)
  else none

/-- The sign a text begins with, and the text after it. -/
def splitSign : List Char → Bool × List Char
  | '-' :: rest => (true, rest)
  | '+' :: rest => (false, rest)
  | s => (false, s)

/-- The number with the sign. -/
def withSign (negative : Bool) (n : Nat) : Int := if negative then -(n : Int) else n

/-- The exponent a text consists of: nothing, or `e` and digits, perhaps with a sign. -/
def exponent? : List Char → Option Int
  | [] => some 0
  | c :: rest =>
    if c = 'e' ∨ c = 'E' then
      let (negative, digits) := splitSign rest
      (natOfDigits? 10 digits).map (withSign negative)
    else none

/-- Reads a sign, digits with or without a point among them, and an exponent. -/
def ofChars? (s : List Char) : Option Decimal :=
  let (negative, s) := splitSign s
  let whole := s.takeWhile Char.isDigit
  let rest := s.dropWhile Char.isDigit
  let (fraction, rest) :=
    match rest with
    | '.' :: rest => (rest.takeWhile Char.isDigit, rest.dropWhile Char.isDigit)
    | _ => ([], rest)
  match natOfDigits? 10 (whole ++ fraction), exponent? rest with
  | some n, some e => some ⟨negative, n, e - fraction.length⟩
  | _, _ => none

/-! ### The nearest binary number -/

/-- `n / d` rounded to the nearest natural number, a tie to the even one. -/
def roundHalfEven (n d : Nat) : Nat :=
  let q := n / d
  let r := 2 * (n % d)
  if r < d ∨ (r = d ∧ q % 2 = 0) then q else q + 1

/-- `n · 2 ^ e` as a fraction, numerator and denominator scaled. -/
def scale (n d : Nat) (e : Int) : Nat × Nat :=
  match e with
  | .ofNat k => (n * Nat.pow 2 k, d)
  | .negSucc k => (n, d * Nat.pow 2 (k + 1))

/-- The `m` and `q` for which `m · 2 ^ q` is the number of 53 bits nearest to `n / d`. -/
def nearestBinary (n d : Nat) : Nat × Int :=
  let q : Int := (n.log2 : Int) - d.log2 - 53
  let (a, b) := scale n d (-q)
  let q := max (if a / b < Nat.pow 2 53 then q else q + 1) (-1074)
  let (a, b) := scale n d (-q)
  (roundHalfEven a b, q)

/-- How far from the point the first digit may stand in numbers that are looked at closely. All
those beyond are too large, or too small to differ from zero. -/
def horizon : Int := 400

/-- The size of the number's whole part once it is rounded to 53 bits; none when no such number is
as large. -/
def wholeSize? (x : Decimal) : Option Nat :=
  let first : Int := (Nat.toDigits 10 x.coefficient).length + x.exponent
  if x.coefficient = 0 ∨ first < -horizon then some 0
  else if horizon < first then none
  else
    let (m, q) :=
      match x.exponent with
      | .ofNat k => nearestBinary (x.coefficient * Nat.pow 10 k) 1
      | .negSucc k => nearestBinary x.coefficient (Nat.pow 10 (k + 1))
    let (a, b) := scale m 1 q
    if a / b < Nat.pow 2 1024 then some (a / b) else none

/-- The whole part of the number rounded to 53 bits, none when it is too large for that. -/
def whole? (x : Decimal) : Option Int := x.wholeSize?.map (withSign x.negative)

end Decimal

end LetFn
