import LetFn.Category
import LetFn.Proofs.Text.Utf8

/-!
# Texts as characters

`units` takes a text apart into characters and stray bytes. It takes them one after the other
(`units_of_decode?`, `units_of_stray`), so what encoded characters stand in front of does not
matter: they come out as they were (`units_encode_append`). Whatever is written on purpose is
`encode` of its characters, and characters can be counted off there; a byte that is ASCII counts as
one.
-/

namespace LetFn.Text

open Category (isAscii isBlank)
open String (utf8EncodeChar)

/-! ## Piece by piece

`units` collects its pieces in front; what was collected so far does not matter for what follows. -/

theorem unitsAfter_eq (before : List Piece) (s : Bytes) :
    unitsAfter before s = before.reverse ++ units s := by
  rcases s with _ | ⟨b, tail⟩
  · simp [units, unitsAfter]
  · rw [units, unitsAfter, unitsAfter]
    split
    · next c rest h =>
      have hshorter := length_lt_of_decode? h
      rw [unitsAfter_eq (.char c :: before) rest, unitsAfter_eq [.char c] rest]
      simp
    · next h =>
      rw [unitsAfter_eq (.stray b :: before) tail, unitsAfter_eq [.stray b] tail]
      simp
termination_by s.length
decreasing_by
  · exact hshorter
  · exact hshorter
  · exact Nat.lt_succ_self _
  · exact Nat.lt_succ_self _

@[simp] theorem units_nil : units [] = [] := by
  rw [units, unitsAfter]
  rfl

theorem units_of_decode? {s rest : Bytes} {c : Char} (h : decode? s = some (c, rest)) :
    units s = .char c :: units rest := by
  rcases s with _ | ⟨b, tail⟩
  · cases h
  rw [units, unitsAfter]
  split
  · next d left hd =>
    rw [h] at hd
    cases hd
    rw [unitsAfter_eq]
    rfl
  · next hd =>
    rw [h] at hd
    cases hd

theorem units_of_stray {b : UInt8} {tail : Bytes} (h : decode? (b :: tail) = none) :
    units (b :: tail) = .stray b :: units tail := by
  rw [units, unitsAfter]
  split
  · next d left hd =>
    rw [h] at hd
    cases hd
  · rw [unitsAfter_eq]
    rfl

/-! ## ASCII

Each ASCII byte is a piece by itself. -/

theorem units_ascii {b : UInt8} (hb : isAscii b = true) (rest : Bytes) :
    units (b :: rest) = .char (Char.ofNat b.toNat) :: units rest :=
  units_of_decode? (decode?_one (by simpa [isAscii, UInt8.lt_iff_toNat_lt] using hb) rest)

theorem encode_ascii {b : UInt8} (hb : isAscii b = true) :
    utf8EncodeChar (Char.ofNat b.toNat) = [b] ∧ isSpace (Char.ofNat b.toNat) = isBlank b := by
  have hall : ∀ n < 128, utf8EncodeChar (Char.ofNat n) = [UInt8.ofNat n] ∧
      isSpace (Char.ofNat n) = isBlank (UInt8.ofNat n) := by decide +kernel
  have hlt : b.toNat < 128 := by simpa [isAscii, UInt8.lt_iff_toNat_lt] using hb
  have h := hall b.toNat hlt
  rwa [UInt8.ofNat_toNat] at h

/-! ## Encoded characters

What was encoded comes out as it was, whatever follows. -/

/-- The bytes of characters. -/
def encode (cs : List Char) : Bytes := cs.flatMap utf8EncodeChar

@[simp] theorem encode_nil : encode [] = [] := rfl

@[simp] theorem encode_cons (c : Char) (cs : List Char) :
    encode (c :: cs) = utf8EncodeChar c ++ encode cs := List.flatMap_cons

@[simp] theorem encode_append (cs ds : List Char) : encode (cs ++ ds) = encode cs ++ encode ds :=
  List.flatMap_append

/-- Encoded characters come out one by one, whatever follows them. -/
theorem units_encode_append (cs : List Char) (rest : Bytes) :
    units (encode cs ++ rest) = cs.map .char ++ units rest := by
  induction cs with
  | nil => rfl
  | cons c cs ih =>
    rw [encode_cons, List.append_assoc, units_of_decode? (decode?_encode c _), ih]
    rfl

theorem units_encode (cs : List Char) : units (encode cs) = cs.map .char := by
  have h := units_encode_append cs []
  rwa [List.append_nil, units_nil, List.append_nil] at h

/-- The characters of bytes that are ASCII. -/
def asciiChars (s : Bytes) : List Char := s.map fun b => Char.ofNat b.toNat

theorem encode_asciiChars {s : Bytes} (h : ∀ b ∈ s, isAscii b = true) : encode (asciiChars s) = s := by
  induction s with
  | nil => rfl
  | cons b rest ih =>
    obtain ⟨hb, hrest⟩ := List.forall_mem_cons.mp h
    have hbytes := (encode_ascii hb).1
    rw [asciiChars, List.map_cons, encode_cons, hbytes]
    exact congrArg (b :: ·) (ih hrest)

/-- Bytes that are ASCII are a character each, whatever follows them. -/
theorem units_append_asciiChars {s : Bytes} (h : ∀ b ∈ s, isAscii b = true) (rest : Bytes) :
    units (s ++ rest) = (asciiChars s).map .char ++ units rest := by
  have hunits := units_encode_append (asciiChars s) rest
  rwa [encode_asciiChars h] at hunits

theorem units_asciiChars {s : Bytes} (h : ∀ b ∈ s, isAscii b = true) :
    units s = (asciiChars s).map .char := by
  rw [← units_encode, encode_asciiChars h]

theorem blanks_eq_encode (n : Nat) : blanks n = encode (List.replicate n ' ') := by
  induction n with
  | zero => rfl
  | succ n ih =>
    rw [List.replicate_succ, encode_cons, ← ih]
    rfl

theorem times_eq_encode (n : Nat) (c : Char) :
    times n (utf8EncodeChar c) = encode (List.replicate n c) := by
  induction n with
  | zero => rfl
  | succ n ih =>
    rw [List.replicate_succ, encode_cons, ← ih]
    rfl

theorem decimal_eq_encode (n : Nat) : decimal n = encode (Nat.toDigits 10 n) := by
  have hdigit : ∀ d : Char, d.isDigit = true → utf8EncodeChar d = [d.toUInt8] := by
    intro d hd
    rw [Char.isDigit, Bool.and_eq_true, decide_eq_true_iff, decide_eq_true_iff] at hd
    have hhigh : d.toNat ≤ 57 := UInt32.le_iff_toNat_le.mp hd.2
    rcases encode_cases d with ⟨-, h⟩ | ⟨hlong, -⟩ | ⟨hlong, -⟩ | ⟨hlong, -⟩
    case inl => rw [h]; rfl
    all_goals omega
  have hdigits : ∀ d ∈ Nat.toDigits 10 n, d.isDigit = true :=
    fun d hd => Nat.isDigit_of_mem_toDigits (by decide) (by decide) hd
  rw [decimal, encode]
  generalize Nat.toDigits 10 n = ds at hdigits
  induction ds with
  | nil => rfl
  | cons d ds ih =>
    obtain ⟨hd, hds⟩ := List.forall_mem_cons.mp hdigits
    rw [List.map_cons, List.flatMap_cons, ih hds, hdigit d hd]
    rfl

/-- Only a line feed is encoded with a line feed. -/
theorem newline_mem_encode {cs : List Char} (h : newline ∈ encode cs) : '\n' ∈ cs := by
  obtain ⟨c, hc, hmem⟩ := List.mem_flatMap.mp h
  have hten : newline.toNat = 10 := rfl
  have hlead {n : Nat} (hn : 128 ≤ n ∧ n < 256) : newline ≠ UInt8.ofNat n := by
    intro heq
    rw [heq, toNat_ofNat_of_lt hn.2] at hten
    omega
  have htail (n : Nat) : newline ≠ UInt8.ofNat (n % 0x40 + 0x80) := hlead (by omega)
  rcases encode_cases c with ⟨hlow, henc⟩ | ⟨-, henc⟩ | ⟨-, henc⟩ | ⟨-, henc⟩
  · rw [henc, List.mem_singleton] at hmem
    rw [hmem, toNat_ofNat_of_lt (by omega)] at hten
    have hchar : c = '\n' := Char.ext (UInt32.toNat_inj.mp hten)
    exact hchar ▸ hc
  all_goals
    rw [henc] at hmem
    simp only [List.mem_cons, List.not_mem_nil, or_false, htail] at hmem
    exact absurd hmem (hlead (by omega))

end LetFn.Text
