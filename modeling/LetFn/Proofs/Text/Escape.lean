import LetFn.Proofs.Text.Code
import LetFn.Text.JsonString
import LetFn.Text.Quoted
import Mathlib.Data.List.Basic

/-!
# Quoted text can be read back

Quotes in messages and strings in JSON write a piece of text in one of three ways: as it is, by a
letter behind a backslash, or by its number (`Escape`). Which of them it was can be told from the
front (`Escape.selfDelimiting_bytes`), and each stands for one piece (`Escape.piece`). So a quoted
text is known by its quotes (`selfDelimiting_quote`), stray bytes included, and has no line feed in
it. A JSON string keeps the characters of a text (`selfDelimiting_jsonString`); all that is lost is
which bytes were stray.
-/

namespace LetFn.Text

open String (utf8EncodeChar)

/-! ## Escapes

An escape is told by its front: one that is no backslash is a character as it is; behind a backslash
a reserved letter says how many digits follow; any other letter is all there is. -/

/-- How many digits a number behind a backslash has. -/
inductive Width where
  | two | four | eight
  deriving DecidableEq

/-- The number of digits. -/
def Width.digits : Width → Nat
  | two => 2
  | four => 4
  | eight => 8

/-- The letter in front of the digits. -/
def Width.letter : Width → UInt8
  | two => 'x'.toUInt8
  | four => 'u'.toUInt8
  | eight => 'U'.toUInt8

/-- How a piece of text is written inside quotes. -/
inductive Escape where
  /-- A character as it is. -/
  | plain (c : Char)
  /-- A byte behind a backslash. -/
  | short (letter : UInt8)
  /-- A number behind a backslash. -/
  | number (width : Width) (n : Nat)

namespace Escape

/-- The backslash. -/
def backslash : UInt8 := 0x5C

/-- The double quote. -/
def quoteMark : UInt8 := 0x22

/-- What is written. -/
def bytes : Escape → Bytes
  | plain c => utf8EncodeChar c
  | short letter => [backslash, letter]
  | number width n => backslash :: width.letter :: hex width.digits n

/-- The bytes that are no letter behind a backslash. -/
def reserved : List UInt8 :=
  [newline, Width.two.letter, Width.four.letter, Width.eight.letter]

/-- The letters in front of digits are reserved for them. -/
theorem letter_mem_reserved (width : Width) : width.letter ∈ reserved := by
  cases width <;> decide

/-- It cannot be taken for another escape, for the end of the text or for that of the line. -/
def IsProper : Escape → Prop
  | plain c => c ≠ '"' ∧ c ≠ '\\' ∧ c ≠ '\n'
  | short letter => letter ∉ reserved
  | number width n => n < 16 ^ width.digits

/-- The character that a letter behind a backslash stands for; by default the letter itself. -/
def meaning (letter : UInt8) : Char :=
  if letter = 'a'.toUInt8 then Char.ofNat 0x07
  else if letter = 'b'.toUInt8 then Char.ofNat 0x08
  else if letter = 'f'.toUInt8 then Char.ofNat 0x0C
  else if letter = 'n'.toUInt8 then '\n'
  else if letter = 'r'.toUInt8 then '\r'
  else if letter = 't'.toUInt8 then '\t'
  else if letter = 'v'.toUInt8 then Char.ofNat 0x0B
  else Char.ofNat letter.toNat

/-- What the escape stands for. Two digits from 80 on are a stray byte. -/
def piece : Escape → Piece
  | plain c => .char c
  | short letter => .char (meaning letter)
  | number width n =>
    if width = .two ∧ 0x80 ≤ n then .stray (UInt8.ofNat n) else .char (Char.ofNat n)

/-- What is written as it is does not begin like an escape with a backslash. -/
theorem bytes_plain_ne {c : Char} {e : Escape} {r s : Bytes} (hc : (plain c).IsProper)
    (he : ∀ d, e ≠ plain d) : (plain c).bytes ++ r ≠ e.bytes ++ s := by
  intro h
  obtain ⟨tail, htail⟩ : ∃ tail, e.bytes ++ s = backslash :: tail := by
    cases e with
    | plain d => exact absurd rfl (he d)
    | short letter => exact ⟨letter :: s, rfl⟩
    | number width n => exact ⟨width.letter :: (hex width.digits n ++ s), rfl⟩
  -- Any other escape begins with a backslash, which is a character by itself.
  rw [htail, ← List.singleton_append] at h
  exact hc.2.1 (selfDelimiting_encodeChar (b := '\\') trivial trivial h).1

/-- Escapes are told apart from the front. -/
theorem selfDelimiting_bytes : SelfDelimiting IsProper bytes := by
  intro e f r s he hf h
  cases e with
  | plain c =>
    cases f with
    | plain d =>
      obtain ⟨rfl, hrest⟩ := selfDelimiting_encodeChar trivial trivial h
      exact ⟨rfl, hrest⟩
    | short _ | number _ _ => exact absurd h (bytes_plain_ne he nofun)
  | short letter =>
    cases f with
    | plain _ => exact absurd h.symm (bytes_plain_ne hf nofun)
    | short other =>
      cases h
      exact ⟨rfl, rfl⟩
    | number width n =>
      -- A letter in front of digits is reserved for them.
      cases h
      exact absurd (letter_mem_reserved width) he
  | number width m =>
    cases f with
    | plain _ => exact absurd h.symm (bytes_plain_ne hf nofun)
    | short letter =>
      cases h
      exact absurd (letter_mem_reserved width) hf
    | number other n =>
      obtain ⟨hletter, hdigits⟩ := List.cons.inj (List.cons.inj h).2
      have hwidth : width = other := by
        revert hletter
        cases width <;> cases other <;> decide
      subst hwidth
      obtain ⟨rfl, hrest⟩ := selfDelimiting_hex width.digits he hf hdigits
      exact ⟨rfl, hrest⟩

/-- No escape begins with the mark at the end of the text. -/
theorem bytes_eq_cons {e : Escape} (he : e.IsProper) :
    ∃ b tail, e.bytes = b :: tail ∧ b ≠ quoteMark := by
  cases e with
  | plain c =>
    obtain ⟨b, tail, htail⟩ := List.exists_cons_of_ne_nil (encodeChar_ne_nil c)
    refine ⟨b, tail, htail, ?_⟩
    rintro rfl
    exact he.1 (encodeChar_eq_cons_ascii (by decide) htail)
  | short letter => exact ⟨backslash, [letter], rfl, by decide⟩
  | number width n => exact ⟨backslash, width.letter :: hex width.digits n, rfl, by decide⟩

/-- Digits hold no line feed. -/
theorem newline_not_mem_hex (width n : Nat) : newline ∉ hex width n := by
  have hall : ∀ i < 16, hexDigit i ≠ newline := by decide
  intro hmem
  obtain ⟨i, -, hdigit⟩ := List.mem_map.mp hmem
  apply hall _ (Nat.mod_lt (n / Nat.pow 16 (width - 1 - i)) (by decide))
  rw [← hdigit, hexDigit, hexDigit, Nat.mod_mod]

/-- No escape holds a line feed. -/
theorem newline_not_mem_bytes {e : Escape} (he : e.IsProper) : newline ∉ e.bytes := by
  cases e with
  | plain c =>
    intro hmem
    -- A line feed among the bytes of a character is that character.
    rw [bytes, ← List.append_nil (utf8EncodeChar c), ← encode_nil, ← encode_cons] at hmem
    exact he.2.2 (List.mem_singleton.mp (newline_mem_encode hmem)).symm
  | short letter =>
    rw [bytes, List.mem_cons, List.mem_singleton]
    rintro (h | h)
    · exact absurd h (by decide)
    · exact he (h ▸ List.mem_cons_self)
  | number width n =>
    rw [bytes, List.mem_cons, List.mem_cons]
    rintro (h | h | h)
    · exact absurd h (by decide)
    · revert h
      cases width <;> decide
    · exact newline_not_mem_hex _ _ h

end Escape

open Escape (quoteMark)

/-- What is written is an escape that stands for the piece. -/
def Escapes (written : Bytes) (p : Piece) : Prop :=
  ∃ e : Escape, e.IsProper ∧ e.piece = p ∧ written = e.bytes

namespace Escapes

/-- A character may be written as it is if it is no mark and no line feed. -/
theorem plain {c : Char} (hmark : c ≠ '"') (hslash : c ≠ '\\') (hline : c ≠ '\n') :
    Escapes (utf8EncodeChar c) (.char c) :=
  ⟨.plain c, ⟨hmark, hslash, hline⟩, rfl, rfl⟩

/-- A character may be written by the letter that stands for it. -/
theorem short (letter : UInt8) (hletter : letter ∉ Escape.reserved) :
    Escapes [Escape.backslash, letter] (.char (Escape.meaning letter)) :=
  ⟨.short letter, hletter, rfl, rfl⟩

/-- The number of a character has as many digits as it needs. -/
theorem number (width : Width) {c : Char} (hlt : c.toNat < 16 ^ width.digits)
    (hascii : width = .two → c.toNat < 0x80) :
    Escapes (Escape.backslash :: width.letter :: hex width.digits c.toNat) (.char c) := by
  refine ⟨.number width c.toNat, hlt, ?_, rfl⟩
  have hchar : ¬ (width = .two ∧ 0x80 ≤ c.toNat) := by
    rintro ⟨hwidth, hlow⟩
    exact absurd (hascii hwidth) (Nat.not_lt.mpr hlow)
  rw [Escape.piece, if_neg hchar, Char.ofNat_toNat]

/-- A choice between two ways to write a piece, each under its condition. -/
theorem ite {condition : Prop} [Decidable condition] {yes no : Bytes} {p : Piece}
    (hyes : condition → Escapes yes p) (hno : ¬ condition → Escapes no p) :
    Escapes (if condition then yes else no) p := by
  split
  · next h => exact hyes h
  · next h => exact hno h

/-- What is written for pieces can be told from the front, if it is always an escape for them. -/
theorem selfDelimiting {α : Type} {p : α → Prop} {code : α → Bytes} (piece : α → Piece)
    (hcode : ∀ a, p a → Escapes (code a) (piece a)) (hpiece : Function.Injective piece) :
    SelfDelimiting p code := by
  intro a b r s ha hb h
  obtain ⟨e, he, hea, hcodea⟩ := hcode a ha
  obtain ⟨f, hf, hfb, hcodeb⟩ := hcode b hb
  rw [hcodea, hcodeb] at h
  obtain ⟨rfl, hrest⟩ := Escape.selfDelimiting_bytes he hf h
  exact ⟨hpiece (hea.symm.trans hfb), hrest⟩

/-- What is written for a piece does not begin with a quote. -/
theorem eq_cons {written : Bytes} {p : Piece} (h : Escapes written p) :
    ∃ b tail, written = b :: tail ∧ b ≠ quoteMark := by
  obtain ⟨e, he, -, rfl⟩ := h
  exact Escape.bytes_eq_cons he

/-- What is written for a piece has no line feed. -/
theorem newline_not_mem {written : Bytes} {p : Piece} (h : Escapes written p) :
    newline ∉ written := by
  obtain ⟨e, he, -, rfl⟩ := h
  exact Escape.newline_not_mem_bytes he

end Escapes

/-! ## Quotes

A text is taken apart into characters and stray bytes, each is written by an escape, and the escapes
are read off again up to the closing quote. -/

/-- A byte that is ASCII is a character and never stray. -/
def Piece.IsProper : Piece → Prop
  | .char _ => True
  | .stray b => 0x80 ≤ b.toNat

/-- Control characters that have a letter are written by it. -/
theorem escapes_of_controlLetter? {c letter : Char} (h : controlLetter? c = some letter) :
    Escapes (utf8 "\\" ++ utf8EncodeChar letter) (.char c) := by
  have hshort : ∀ {l : Char} {n : Nat}, l.toUInt8 ∉ Escape.reserved →
      utf8EncodeChar l = [l.toUInt8] → Escape.meaning l.toUInt8 = Char.ofNat n → c.toNat = n →
      Escapes (utf8 "\\" ++ utf8EncodeChar l) (.char c) := by
    intro l n hl hbyte hmeaning hn
    rw [hbyte, ← Char.ofNat_toNat c, hn, ← hmeaning]
    exact Escapes.short l.toUInt8 hl
  unfold controlLetter? at h
  split at h <;> cases h
  all_goals
    apply hshort _ _ _ ‹c.toNat = _› <;> decide

/-- Within quotes a character is written as it is, by a letter or by its number. -/
theorem escapes_escapeChar (c : Char) : Escapes (escapeChar '"' c) (.char c) := by
  have hlt : c.toNat < 0x110000 := by
    have := c.valid
    unfold UInt32.isValidChar Nat.isValidChar at this
    unfold Char.toNat
    omega
  -- One step for each test, in the order in which they are made.
  unfold escapeChar
  split
  · next hmark =>
    rcases hmark with rfl | rfl
    · exact .short quoteMark (by decide)
    · exact .short Escape.backslash (by decide)
  next hmark =>
  rw [not_or] at hmark
  split
  · next hprint =>
    apply Escapes.plain hmark.1 hmark.2
    rintro rfl
    exact absurd hprint (by decide)
  split
  · next letter hletter => exact escapes_of_controlLetter? hletter
  split
  · next hascii => exact .number .two (by simp [Width.digits]; omega) fun _ => hascii
  split
  · next hfour => exact .number .four (by simp [Width.digits]; omega) nofun
  · exact .number .eight (by simp [Width.digits]; omega) nofun

/-- A stray byte is written by two digits, which no character from 80 on is. -/
theorem escapes_escapePiece {p : Piece} (hp : p.IsProper) : Escapes (escapePiece '"' p) p := by
  cases p with
  | char c => exact escapes_escapeChar c
  | stray b =>
    refine ⟨.number .two b.toNat, UInt8.toNat_lt b, ?_, rfl⟩
    rw [Escape.piece, if_pos ⟨rfl, hp⟩, UInt8.ofNat_toNat]

/-- What holds of a text in front of which a character or a stray byte is put, holds of all. -/
theorem units_induction {motive : Bytes → Prop} (nil : motive [])
    (char : ∀ (c : Char) (rest : Bytes), motive rest → motive (utf8EncodeChar c ++ rest))
    (stray : ∀ (b : UInt8) (tail : Bytes), decode? (b :: tail) = none → motive tail →
      motive (b :: tail)) (s : Bytes) : motive s := by
  rcases s with _ | ⟨b, tail⟩
  · exact nil
  -- The front is read as a character or is one stray byte, as when the text is taken apart.
  rcases hdecode : decode? (b :: tail) with _ | ⟨c, rest⟩
  · exact stray b tail hdecode (units_induction nil char stray tail)
  · have hshorter := length_lt_of_decode? hdecode
    rw [eq_encode_of_decode? hdecode]
    exact char c rest (units_induction nil char stray rest)
termination_by s.length
decreasing_by
  · exact Nat.lt_succ_self _
  · exact hshorter

/-- A byte is stray only where no character begins, so it is no ASCII byte. -/
theorem isProper_of_mem_units (s : Bytes) : ∀ p ∈ units s, p.IsProper := by
  induction s using units_induction with
  | nil => simp
  | char c rest ih =>
    rw [units_of_decode? (decode?_encode c rest), List.forall_mem_cons]
    exact ⟨trivial, ih⟩
  | stray b tail hdecode ih =>
    rw [units_of_stray hdecode, List.forall_mem_cons]
    refine ⟨Nat.not_lt.mp ?_, ih⟩
    -- An ASCII byte would have been read as a character.
    intro hlow
    rw [decode?_one hlow] at hdecode
    cases hdecode

/-- Taking a text apart loses nothing. -/
theorem flatMap_bytes_units (s : Bytes) : (units s).flatMap Piece.bytes = s := by
  induction s using units_induction with
  | nil => simp
  | char c rest ih =>
    rw [units_of_decode? (decode?_encode c rest), List.flatMap_cons, ih]
    rfl
  | stray b tail hdecode ih =>
    rw [units_of_stray hdecode, List.flatMap_cons, ih]
    rfl

/-- The pieces tell the text. -/
theorem units_injective {s t : Bytes} (h : units s = units t) : s = t := by
  rw [← flatMap_bytes_units s, h, flatMap_bytes_units t]

/-- Pieces within quotes are told apart from the front. -/
theorem selfDelimiting_escapePiece : SelfDelimiting Piece.IsProper (escapePiece '"') :=
  Escapes.selfDelimiting id (fun _ => escapes_escapePiece) Function.injective_id

/-- A quoted text ends where its quotes end, and is the only one that is quoted so. -/
theorem selfDelimiting_quote : SelfDelimiting (fun _ => True) quote := by
  intro s t r u _ _ h
  have hmarks (text rest : Bytes) : quote text ++ rest =
      quoteMark :: ((units text).flatMap (escapePiece '"') ++ quoteMark :: rest) := by
    rw [quote, List.append_assoc, List.append_assoc]
    rfl
  rw [hmarks, hmarks, List.cons.injEq] at h
  -- The pieces are told apart up to the closing quote, which begins none of them.
  obtain ⟨hunits, hrest⟩ := selfDelimiting_escapePiece.closed
    (fun p hp => (escapes_escapePiece hp).eq_cons) (isProper_of_mem_units s)
    (isProper_of_mem_units t) h.2
  exact ⟨units_injective hunits, hrest⟩

/-- A quoted text goes over no line. -/
theorem newline_not_mem_quote (s : Bytes) : newline ∉ quote s := by
  have hmark : newline ∉ utf8 "\"" := by decide
  rw [quote, List.mem_append, List.mem_append, List.mem_flatMap]
  rintro ((h | ⟨p, hp, h⟩) | h)
  · exact hmark h
  · exact (escapes_escapePiece (isProper_of_mem_units s p hp)).newline_not_mem h
  · exact hmark h

/-! ## Strings in JSON

Strings are written from the characters of a text, by rules that differ between styles. Every style
writes each character by some escape for it. -/

/-- The characters of a text, U+FFFD for each stray byte. -/
def chars (s : Bytes) : List Char := (units s).map Piece.toChar

/-- A text without stray bytes is known by its characters. -/
theorem encode_chars {s : Bytes} (h : isValid s = true) : encode (chars s) = s := by
  -- No piece is stray, so each is written as the character it is.
  have hpiece : ∀ p ∈ units s, utf8EncodeChar p.toChar = p.bytes := by
    intro p hp
    have hchar := List.all_eq_true.mp h p hp
    cases p with
    | char c => rfl
    | stray b => cases hchar
  calc
    encode (chars s) = (units s).flatMap fun p => utf8EncodeChar p.toChar := List.flatMap_map ..
    _ = (units s).flatMap Piece.bytes := List.flatMap_congr hpiece
    _ = s := flatMap_bytes_units s

/-- Encoded characters have no stray byte. -/
theorem isValid_encode (cs : List Char) : isValid (encode cs) = true := by
  rw [isValid, units_encode, List.all_map, List.all_eq_true]
  exact fun _ _ => rfl

/-- Visible bytes are characters. -/
theorem AllVisible.isValid {s : Bytes} (hs : AllVisible s) : Text.isValid s = true := by
  rw [← encode_asciiChars hs.isAscii]
  exact isValid_encode _

variable {style : JsonStyle}

/-- In JSON a character is written by four digits, if it has no more. -/
theorem escapes_jsonNumber {c : Char} (hc : c.toNat < 0x10000) :
    Escapes (jsonNumber c) (.char c) :=
  .number .four (by simp only [Width.digits]; omega) nofun

/-- In a JSON string a character is written as it is, by a letter or by its number. -/
theorem escapes_jsonChar (c : Char) : Escapes (jsonChar style c) (.char c) := by
  have hshort {n : Nat} (letter : UInt8) (hletter : letter ∉ Escape.reserved)
      (hmeaning : Escape.meaning letter = Char.ofNat n) (hn : c.toNat = n) :
      Escapes [Escape.backslash, letter] (.char c) := by
    rw [← Char.ofNat_toNat c, hn, ← hmeaning]
    exact Escapes.short letter hletter
  -- One step for each test: two marks, five controls with letters, then numbers or nothing.
  unfold jsonChar
  apply Escapes.ite
  · intro h
    exact hshort quoteMark (by decide) (by decide) (congrArg Char.toNat h)
  intro hmark
  apply Escapes.ite
  · intro h
    exact hshort Escape.backslash (by decide) (by decide) (congrArg Char.toNat h)
  intro hslash
  apply Escapes.ite
  · intro h
    exact hshort 'n'.toUInt8 (by decide) (by decide) (congrArg Char.toNat h)
  intro hline
  apply Escapes.ite
  · intro h
    exact hshort 'r'.toUInt8 (by decide) (by decide) (congrArg Char.toNat h)
  intro _
  apply Escapes.ite
  · intro h
    exact hshort 't'.toUInt8 (by decide) (by decide) (congrArg Char.toNat h)
  intro _
  apply Escapes.ite
  · intro h
    exact hshort 'b'.toUInt8 (by decide) (by decide) h.2
  intro _
  apply Escapes.ite
  · intro h
    exact hshort 'f'.toUInt8 (by decide) (by decide) h.2
  intro _
  apply Escapes.ite
  · intro h
    exact escapes_jsonNumber (by omega)
  intro _
  apply Escapes.ite
  · rintro ⟨-, rfl | rfl | rfl⟩
    all_goals exact escapes_jsonNumber (by decide)
  intro _
  apply Escapes.ite
  · intro h
    exact escapes_jsonNumber (by omega)
  · intro _
    exact .plain hmark hslash hline

/-- Characters of a JSON string are told apart from the front. -/
theorem selfDelimiting_jsonChar : SelfDelimiting (fun _ => True) (jsonChar style) :=
  Escapes.selfDelimiting .char (fun c _ => escapes_jsonChar c) fun _ _ => Piece.char.inj

/-- A JSON string ends where its quotes end, and is known by its characters. -/
theorem selfDelimiting_jsonString :
    SelfDelimiting (fun _ => True) fun cs : List Char => jsonString style (encode cs) := by
  intro cs ds r u _ _ h
  have hmarks (cs : List Char) (rest : Bytes) : jsonString style (encode cs) ++ rest =
      quoteMark :: (cs.flatMap (jsonChar style) ++ quoteMark :: rest) := by
    rw [jsonString, List.append_assoc, List.append_assoc, units_encode, List.flatMap_map]
    rfl
  rw [hmarks, hmarks, List.cons.injEq] at h
  exact selfDelimiting_jsonChar.closed (fun c _ => (escapes_jsonChar c).eq_cons)
    (fun _ _ => trivial) (fun _ _ => trivial) h.2

/-- A JSON string shows the characters of the text, if U+FFFD stands for stray bytes. -/
theorem jsonString_eq (hstray : style.stray = jsonChar style replacement) (s : Bytes) :
    jsonString style s = jsonString style (encode (chars s)) := by
  have hpiece : ∀ p ∈ units s, jsonPiece style p = jsonChar style p.toChar := by
    intro p _
    cases p with
    | char c => rfl
    | stray b => exact hstray
  rw [jsonString, jsonString, units_encode, chars, List.map_map, List.flatMap_map,
    List.flatMap_congr hpiece]
  rfl

/-- A JSON string goes over no line. -/
theorem newline_not_mem_jsonString (cs : List Char) :
    newline ∉ jsonString style (encode cs) := by
  have hmark : newline ∉ utf8 "\"" := by decide
  rw [jsonString, units_encode, List.flatMap_map, List.mem_append, List.mem_append,
    List.mem_flatMap]
  rintro ((h | ⟨c, -, h⟩) | h)
  · exact hmark h
  · exact (escapes_jsonChar c).newline_not_mem h
  · exact hmark h

end LetFn.Text
