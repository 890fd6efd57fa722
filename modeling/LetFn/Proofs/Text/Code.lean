import LetFn.Location
import LetFn.Operator
import LetFn.Proofs.Text.Units
import Mathlib.Algebra.Group.Nat.Defs

/-!
# Codes that can be read off

A code writes things as lists. It is self-delimiting if the first thing can be told from a list
without knowing where it ends, so nothing is lost when things are written one after the other
(`SelfDelimiting.eq_of_flatMap`, `SelfDelimiting.closed`). Characters, hexadecimal digits of a fixed
number and lines are written by such codes, and so is whatever has a mark behind it that it does not
hold (`eq_of_append_mark`). From these parts locations and operators are known by how they are
shown.
-/

namespace LetFn

variable {α β : Type}

/-- What `code` writes for things of the kind `p` can be told, whatever follows it. -/
def SelfDelimiting (p : α → Prop) (code : α → List β) : Prop :=
  ∀ ⦃a b : α⦄ ⦃r s : List β⦄, p a → p b → code a ++ r = code b ++ s → a = b ∧ r = s

namespace SelfDelimiting

variable {p : α → Prop} {code : α → List β}

/-- Things in a row are told apart up to a mark that begins none of them. -/
theorem closed {mark : β} (hcode : SelfDelimiting p code)
    (hmark : ∀ a, p a → ∃ x tail, code a = x :: tail ∧ x ≠ mark) {as bs : List α} {r s : List β}
    (has : ∀ a ∈ as, p a) (hbs : ∀ b ∈ bs, p b)
    (h : as.flatMap code ++ mark :: r = bs.flatMap code ++ mark :: s) : as = bs ∧ r = s := by
  -- A list that goes on does not begin with the mark.
  have hends : ∀ {c : α} {cs : List α} {t u : List β}, p c →
      mark :: t ≠ (c :: cs).flatMap code ++ u := by
    intro c cs t u hc heq
    obtain ⟨x, tail, hx, hne⟩ := hmark c hc
    rw [List.flatMap_cons, hx] at heq
    exact hne (List.cons.inj heq).1.symm
  -- Take the first thing off both lists, or see the mark in front of both.
  induction as generalizing bs with
  | nil =>
    cases bs with
    | nil => exact ⟨rfl, (List.cons.inj h).2⟩
    | cons b bs => exact absurd h (hends (hbs b List.mem_cons_self))
  | cons a as ih =>
    cases bs with
    | nil => exact absurd h.symm (hends (has a List.mem_cons_self))
    | cons b bs =>
      rw [List.forall_mem_cons] at has hbs
      rw [List.flatMap_cons, List.flatMap_cons, List.append_assoc, List.append_assoc] at h
      obtain ⟨rfl, hrest⟩ := hcode has.1 hbs.1 h
      obtain ⟨rfl, hend⟩ := ih has.2 hbs.2 hrest
      exact ⟨rfl, hend⟩

/-- Things in a row are told apart if each of them is written as something. -/
theorem eq_of_flatMap (hcode : SelfDelimiting p code) (hne : ∀ a, p a → code a ≠ [])
    {as bs : List α} (has : ∀ a ∈ as, p a) (hbs : ∀ b ∈ bs, p b)
    (h : as.flatMap code = bs.flatMap code) : as = bs := by
  -- Take the first thing off both; nothing is written as nothing.
  induction as generalizing bs with
  | nil =>
    cases bs with
    | nil => rfl
    | cons b bs =>
      rw [List.flatMap_cons, List.flatMap_nil, List.nil_eq_append_iff] at h
      exact absurd h.1 (hne b (hbs b List.mem_cons_self))
  | cons a as ih =>
    cases bs with
    | nil =>
      rw [List.flatMap_cons, List.flatMap_nil, List.append_eq_nil_iff] at h
      exact absurd h.1 (hne a (has a List.mem_cons_self))
    | cons b bs =>
      rw [List.forall_mem_cons] at has hbs
      rw [List.flatMap_cons, List.flatMap_cons] at h
      obtain ⟨rfl, hrest⟩ := hcode has.1 hbs.1 h
      rw [ih has.2 hbs.2 hrest]

end SelfDelimiting

/-- What stands in front of the first mark is told from what stands behind it. -/
theorem eq_of_append_mark {mark : β} {front back r s : List β} (hfront : mark ∉ front)
    (hback : mark ∉ back) (h : front ++ mark :: r = back ++ mark :: s) : front = back ∧ r = s := by
  have hcode : SelfDelimiting (· ≠ mark) fun b : β => [b] := by
    intro a b r s _ _ h
    exact List.cons.inj h
  apply hcode.closed (fun a ha => ⟨a, [], rfl, ha⟩)
  · exact fun a ha heq => hfront (heq ▸ ha)
  · exact fun b hb heq => hback (heq ▸ hb)
  · simpa using h

namespace Text

open String (utf8EncodeChar)

/-! ## Characters

An encoded character can be decoded whatever follows it. -/

/-- Encoded characters are told apart from the front. -/
theorem selfDelimiting_encodeChar : SelfDelimiting (fun _ => True) utf8EncodeChar := by
  intro c d r s _ _ h
  have hdecode := decode?_encode c r
  rw [h, decode?_encode] at hdecode
  cases hdecode
  exact ⟨rfl, rfl⟩

/-- Every character is encoded by some byte. -/
theorem encodeChar_ne_nil (c : Char) : utf8EncodeChar c ≠ [] := by
  intro h
  have hdecode := decode?_encode c []
  rw [h] at hdecode
  cases hdecode

/-- No character but an ASCII character itself is encoded with it in front. -/
theorem encodeChar_eq_cons_ascii {b : UInt8} (hb : Category.isAscii b = true) {c : Char}
    {tail : Bytes} (h : utf8EncodeChar c = b :: tail) : c = Char.ofNat b.toNat := by
  have hbyte : utf8EncodeChar (Char.ofNat b.toNat) ++ tail = utf8EncodeChar c ++ [] := by
    rw [(encode_ascii hb).1, h]
    simp
  exact (selfDelimiting_encodeChar trivial trivial hbyte).1.symm

/-- The encoding tells the characters. -/
theorem encode_injective {cs ds : List Char} (h : encode cs = encode ds) : cs = ds :=
  selfDelimiting_encodeChar.eq_of_flatMap (fun c _ => encodeChar_ne_nil c) (fun _ _ => trivial)
    (fun _ _ => trivial) h

/-- The encoding tells the string. -/
theorem utf8_injective {s t : String} (h : utf8 s = utf8 t) : s = t :=
  String.toList_injective (encode_injective h)

/-! ## Numbers

Numbers without a fixed number of digits are not told from what follows them; those with one are. -/

/-- Decimal digits tell the number. -/
theorem decimal_injective {m n : Nat} (h : decimal m = decimal n) : m = n := by
  rw [decimal_eq_encode, decimal_eq_encode] at h
  have hdigits := congrArg (Nat.ofDigitChars 10 · 0) (encode_injective h)
  simpa only [Nat.ofDigitChars_ten_toDigits] using hdigits

/-- A number is written in digits only. -/
theorem isDigit_of_mem_decimal {b : UInt8} {n : Nat} (h : b ∈ decimal n) : isDigit b = true := by
  obtain ⟨c, hc, rfl⟩ := List.mem_map.mp h
  have hdigit := Nat.isDigit_of_mem_toDigits (by decide) (by decide) hc
  -- A digit as a character and as a byte have the same code.
  simp only [Char.isDigit, Bool.and_eq_true, decide_eq_true_iff, ge_iff_le,
    UInt32.le_iff_toNat_le] at hdigit
  have hnat : c.toUInt8.toNat = c.val.toNat % 256 := UInt32.toNat_toUInt8 c.val
  simp only [isDigit, Bool.and_eq_true, decide_eq_true_iff, UInt8.le_iff_toNat_le, hnat]
  change 48 ≤ c.val.toNat ∧ c.val.toNat ≤ 57 at hdigit
  change 48 ≤ c.val.toNat % 256 ∧ c.val.toNat % 256 ≤ 57
  omega

/-- What is no digit does not occur in a number. -/
theorem not_mem_decimal {b : UInt8} (hb : isDigit b = false) (n : Nat) : b ∉ decimal n := by
  intro hmem
  rw [isDigit_of_mem_decimal hmem] at hb
  cases hb

/-- A hexadecimal digit tells the remainder by sixteen. -/
theorem hexDigit_injective {m n : Nat} (h : hexDigit m = hexDigit n) : m % 16 = n % 16 := by
  have hall : ∀ i < 16, ∀ j < 16, hexDigit i = hexDigit j → i = j := by decide
  apply hall _ (Nat.mod_lt _ (by decide)) _ (Nat.mod_lt _ (by decide))
  simpa only [hexDigit, Nat.mod_mod] using h

@[simp] theorem length_hex (width n : Nat) : (hex width n).length = width := by simp [hex]

/-- The last digit stands for what is below sixteen. -/
theorem hex_succ (width n : Nat) : hex (width + 1) n = hex width (n / 16) ++ [hexDigit n] := by
  have hlast : n / Nat.pow 16 (width + 1 - 1 - width) = n := by simp
  simp only [hex, List.range_succ, List.map_append, List.map_cons, List.map_nil, hlast]
  congr 1
  apply List.map_congr_left
  intro i hi
  have hi : i < width := List.mem_range.mp hi
  have hexp : width + 1 - 1 - i = width - 1 - i + 1 := by omega
  rw [hexp, Nat.div_div_eq_div_mul, Nat.pow_eq, Nat.pow_eq, Nat.pow_succ, Nat.mul_comm]

/-- Digits of a fixed number tell what fits into them. -/
theorem hex_injective {width m n : Nat} (hm : m < 16 ^ width) (hn : n < 16 ^ width)
    (h : hex width m = hex width n) : m = n := by
  induction width generalizing m n with
  | zero =>
    rw [Nat.pow_zero] at hm hn
    omega
  | succ width ih =>
    rw [hex_succ, hex_succ] at h
    -- The last digit is the remainder, the digits in front of it stand for the quotient.
    obtain ⟨hfront, hlast⟩ := List.append_inj' h rfl
    have hdigit := hexDigit_injective (List.cons.inj hlast).1
    rw [Nat.pow_succ] at hm hn
    have hquot := ih (by omega) (by omega) hfront
    omega

/-- Digits of a fixed number are told apart from the front. -/
theorem selfDelimiting_hex (width : Nat) : SelfDelimiting (· < 16 ^ width) (hex width) := by
  intro m n r s hm hn h
  obtain ⟨hdigits, hrest⟩ := List.append_inj h (by simp)
  exact ⟨hex_injective hm hn hdigits, hrest⟩

/-! ## Lines

A line ends at its line feed, and how far it is indented is counted in blanks. -/

/-- Lines are told apart by the line feeds behind them. -/
theorem unlines_injective {xs ys : List Bytes} (hxs : ∀ line ∈ xs, newline ∉ line)
    (hys : ∀ line ∈ ys, newline ∉ line) (h : unlines xs = unlines ys) : xs = ys := by
  -- Each line ends with a line feed that it does not hold itself.
  have hcode : SelfDelimiting (fun line : Bytes => newline ∉ line) (· ++ [newline]) := by
    intro a b r s ha hb h
    rw [List.append_assoc, List.append_assoc] at h
    exact eq_of_append_mark ha hb h
  exact hcode.eq_of_flatMap (fun line _ => by simp) hxs hys h

/-- The text is not empty and does not begin with a blank. -/
def isFlush (s : Bytes) : Bool := s.head?.any (· != blank)

/-- The text without the blanks it begins with. -/
def undent (s : Bytes) : Bytes := s.dropWhile (· == blank)

/-- What begins a text decides whether it is flush. -/
theorem isFlush_append {s : Bytes} (h : isFlush s = true) (t : Bytes) : isFlush (s ++ t) = true := by
  cases s with
  | nil => cases h
  | cons b rest => exact h

/-- Nothing is taken from a text that begins with no blank. -/
theorem undent_of_isFlush {s : Bytes} (h : isFlush s = true) : undent s = s := by
  cases s with
  | nil => rfl
  | cons b rest =>
    have hb : (b == blank) = false := by simpa [isFlush] using h
    rw [undent, List.dropWhile_cons, hb]
    rfl

/-- Blanks in front are taken away, however many. -/
theorem undent_blanks (n : Nat) (s : Bytes) : undent (blanks n ++ s) = undent s := by
  induction n with
  | zero => rfl
  | succ n ih => exact ih

/-- An indented text is known by its line, and so is how far it is indented. -/
theorem indent_injective {m n : Nat} {s t : Bytes} (hs : isFlush s = true) (ht : isFlush t = true)
    (h : blanks m ++ s = blanks n ++ t) : m = n ∧ s = t := by
  have htext : s = t := by
    have hundent := congrArg undent h
    rwa [undent_blanks, undent_blanks, undent_of_isFlush hs, undent_of_isFlush ht] at hundent
  -- Once the texts are the same, the lines are as long as they are indented.
  subst htext
  have hlength := congrArg List.length (List.append_cancel_right h)
  rw [blanks, blanks, List.length_replicate, List.length_replicate] at hlength
  exact ⟨hlength, rfl⟩

end Text

/-! ## Locations and operators

Both are shown as visible bytes, so they are told from blanks and quotes around them. -/

/-- A location is known by how it is shown: the colon ends the line. -/
theorem Location.text_injective {k l : Location} (h : k.text = l.text) : k = l := by
  have hcolon (n : Nat) : ':'.toUInt8 ∉ Text.decimal n := Text.not_mem_decimal (by decide) n
  have hmark (m : Location) :
      m.text = Text.decimal m.line.toNat ++ ':'.toUInt8 :: Text.decimal m.column.toNat := by
    rw [text, List.append_assoc]
    rfl
  rw [hmark, hmark] at h
  -- Digits hold no colon, so the first one is the mark.
  obtain ⟨hline, hcolumn⟩ := eq_of_append_mark (hcolon _) (hcolon _) h
  have hl := UInt32.toNat_inj.mp (Text.decimal_injective hline)
  have hc := UInt32.toNat_inj.mp (Text.decimal_injective hcolumn)
  cases k
  cases l
  cases hl
  cases hc
  rfl

namespace Operator

/-- The operators that have a name, the mark of a literal among them. -/
theorem named_or_unnamed (op : Operator) : op ∈ literal :: spelled ∨ ∃ n, op = unnamed n := by
  cases op with
  | unnamed n => exact .inr ⟨n, rfl⟩
  | _ => exact .inl (by decide)

/-- An operator is known by its spelling, named or not. -/
theorem spelling_injective {p q : Operator} (h : p.spelling = q.spelling) : p = q := by
  have hnamed : ∀ p ∈ literal :: spelled, ∀ q ∈ literal :: spelled,
      p.spelling = q.spelling → p = q := by decide +kernel
  -- A number that no operator has is shown with a word in front that no operator begins with.
  have hfront : ∀ p ∈ literal :: spelled, p.spelling.head? ≠ some 'o'.toUInt8 := by decide +kernel
  rcases named_or_unnamed p with hp | ⟨m, rfl⟩ <;> rcases named_or_unnamed q with hq | ⟨n, rfl⟩
  · exact hnamed p hp q hq h
  · exact absurd (congrArg List.head? h) (hfront p hp)
  · exact absurd (congrArg List.head? h.symm) (hfront q hq)
  -- Between the same words only the numbers can differ.
  · have hdecimal := List.append_cancel_left (List.append_cancel_right h)
    have hcode := Text.decimal_injective hdecimal
    rw [Fin.ext (show m.val = n.val by omega)]

end Operator

/-! ## Visible bytes -/

namespace Text

/-- An ASCII byte that is neither white space nor another control. -/
def isVisible (b : UInt8) : Bool := blank < b && b < 0x80

/-- Every byte of the text is visible. -/
def AllVisible (s : Bytes) : Prop := ∀ b ∈ s, isVisible b = true

/-- Visible texts in a row are visible. -/
theorem AllVisible.append {s t : Bytes} (hs : AllVisible s) (ht : AllVisible t) :
    AllVisible (s ++ t) := by
  intro b hb
  rcases List.mem_append.mp hb with hb | hb
  · exact hs b hb
  · exact ht b hb

/-- A visible text holds no other byte. -/
theorem AllVisible.not_mem {s : Bytes} (hs : AllVisible s) {b : UInt8}
    (hb : isVisible b = false) : b ∉ s := by
  intro hmem
  rw [hs b hmem] at hb
  cases hb

/-- Visible bytes are ASCII. -/
theorem AllVisible.isAscii {s : Bytes} (hs : AllVisible s) :
    ∀ b ∈ s, Category.isAscii b = true := by
  intro b hb
  have hvisible := hs b hb
  rw [isVisible, Bool.and_eq_true] at hvisible
  exact hvisible.2

/-- Digits are visible. -/
theorem allVisible_decimal (n : Nat) : AllVisible (decimal n) := by
  intro b hb
  have hdigit := isDigit_of_mem_decimal hb
  simp only [isDigit, isVisible, Bool.and_eq_true, decide_eq_true_iff, UInt8.le_iff_toNat_le,
    UInt8.lt_iff_toNat_lt] at hdigit ⊢
  change 48 ≤ b.toNat ∧ b.toNat ≤ 57 at hdigit
  change 32 < b.toNat ∧ b.toNat < 128
  omega

end Text

open Text (AllVisible allVisible_decimal)

/-- A location is shown in visible bytes. -/
theorem Location.allVisible_text (l : Location) : AllVisible l.text := by
  have hcolon : AllVisible (Text.utf8 ":") := List.all_eq_true.mp (by decide)
  exact ((allVisible_decimal _).append hcolon).append (allVisible_decimal _)

/-- So is an operator. -/
theorem Operator.allVisible_spelling (op : Operator) : AllVisible op.spelling := by
  have hnamed : ∀ p ∈ literal :: spelled, p.spelling.all Text.isVisible = true := by
    decide +kernel
  rcases named_or_unnamed op with hop | ⟨n, rfl⟩
  · exact List.all_eq_true.mp (hnamed op hop)
  · have hfront : AllVisible (Text.utf8 "operator(") := List.all_eq_true.mp (by decide)
    have hback : AllVisible (Text.utf8 ")") := List.all_eq_true.mp (by decide)
    exact (hfront.append (allVisible_decimal _)).append hback

end LetFn
