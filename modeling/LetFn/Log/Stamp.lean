import LetFn.Text.Bytes

/-!
# Stamps

What a log record shows as its time, and what it shows as the name of its run: a date and a time of
day in the mean time zone, and a random number of 128 bits in the form of a version 4 identifier.
-/

namespace LetFn.Log

/-! ### Times -/

/-- A day of the calendar. -/
structure Day where
  year : Nat
  month : Nat
  day : Nat
  deriving DecidableEq, Repr

/-- The day that is `n` days after the first of January 1970. Years are counted from March, so that
the extra day of a leap year is the last one. -/
def Day.ofCount (n : Nat) : Day :=
  let n := n + 719468
  let era := n / 146097
  let ofEra := n % 146097
  let yearOfEra := (ofEra - ofEra / 1460 + ofEra / 36524 - ofEra / 146096) / 365
  let ofYear := ofEra - (365 * yearOfEra + yearOfEra / 4 - yearOfEra / 100)
  let fromMarch := (5 * ofYear + 2) / 153
  let month := if fromMarch < 10 then fromMarch + 3 else fromMarch - 9
  ⟨yearOfEra + era * 400 + (if month ≤ 2 then 1 else 0), month,
    ofYear - (153 * fromMarch + 2) / 5 + 1⟩

/-- The number with zeros in front, up to `width` digits. -/
def padded (width n : Nat) : Bytes :=
  List.replicate (width - (Text.decimal n).length) 0x30 ++ Text.decimal n

/-- The time that is `ms` milliseconds after the beginning of 1970. -/
def stampOfMillis (ms : Nat) : Bytes :=
  let seconds := ms / 1000
  let d := Day.ofCount (seconds / 86400)
  padded 4 d.year ++ Text.utf8 "-" ++ padded 2 d.month ++ Text.utf8 "-" ++ padded 2 d.day ++
    Text.utf8 "T" ++ padded 2 (seconds / 3600 % 24) ++ Text.utf8 ":" ++
    padded 2 (seconds / 60 % 60) ++ Text.utf8 ":" ++ padded 2 (seconds % 60) ++
    Text.utf8 "." ++ padded 3 (ms % 1000) ++ Text.utf8 "Z"

/-- A leap day, and the first day after it. -/
example : (Day.ofCount 11016, Day.ofCount 11017) = (⟨2000, 2, 29⟩, ⟨2000, 3, 1⟩) := by decide

/-! ### Names of runs -/

/-- The bytes with the marks of a version 4 identifier. -/
def markVersion (bytes : Bytes) : Bytes :=
  bytes.zipIdx.map fun (b, i) =>
    if i = 6 then (b &&& 0x0F) ||| 0x40 else if i = 8 then (b &&& 0x3F) ||| 0x80 else b

/-- The name that 16 random bytes give to a run. -/
def runName (bytes : Bytes) : Bytes :=
  let digits := (markVersion bytes).flatMap fun b => Text.hex 2 b.toNat
  Text.join (Text.utf8 "-")
    [digits.take 8, (digits.drop 8).take 4, (digits.drop 12).take 4, (digits.drop 16).take 4,
      digits.drop 20]

end LetFn.Log
