import LetFn.Text.Utf8

/-!
# Decoding undoes encoding

`decode?` finds a character at the beginning of a text exactly if the text begins with the encoding
of that character (`decode?_eq_some_iff`). So no text begins with the encodings of two characters.
-/

namespace LetFn.Text

open String (utf8EncodeChar)

/-! ## Continuation bytes -/

theorem toNat_tail (n : Nat) : (UInt8.ofNat (n % 0x40 + 0x80)).toNat = n % 0x40 + 0x80 :=
  UInt8.toNat_ofNat_of_lt' (show n % 0x40 + 0x80 < 256 by omega)

/-- A continuation byte is one from 80 to BF. -/
theorem isTail_iff {b : UInt8} : isTail b = true ↔ 0x80 ≤ b.toNat ∧ b.toNat ≤ 0xBF := by
  simp [isTail, UInt8.le_iff_toNat_le]

theorem isTail_ofNat (n : Nat) : isTail (UInt8.ofNat (n % 0x40 + 0x80)) = true := by
  rw [isTail_iff, toNat_tail]
  omega

theorem tailBits_ofNat (n : Nat) : tailBits (UInt8.ofNat (n % 0x40 + 0x80)) = n % 0x40 := by
  rw [tailBits, toNat_tail]
  omega

/-- A continuation byte is known by its bits. -/
theorem eq_ofNat_of_isTail {b : UInt8} {n : Nat} (hb : isTail b = true)
    (hbits : n % 0x40 = tailBits b) : UInt8.ofNat (n % 0x40 + 0x80) = b := by
  rw [isTail_iff] at hb
  rw [← UInt8.toNat_inj, toNat_tail, hbits, tailBits]
  omega

/-! ## Characters and their numbers -/

/-- A number gives the character with that number, if it needs as many bytes as it was read from. -/
theorem charFrom?_eq_some_iff {low n : Nat} {c : Char} :
    charFrom? low n = some c ↔ low ≤ n ∧ c.toNat = n := by
  unfold charFrom?
  constructor
  · intro h
    split at h
    · next hn =>
      cases h
      refine ⟨hn.1, ?_⟩
      rw [Char.ofNat, dif_pos hn.2]
      rfl
    · cases h
  · rintro ⟨hlow, rfl⟩
    rw [if_pos ⟨hlow, c.valid⟩, Char.ofNat_toNat]

/-! ## Sequences of each length

Encoding and decoding both go by length, so there is one case for each of the four lengths. -/

/-- A character is encoded by one to four bytes, as its number needs them. -/
theorem encode_cases (c : Char) :
    c.toNat < 0x80 ∧ utf8EncodeChar c = [UInt8.ofNat c.toNat] ∨
      (0x80 ≤ c.toNat ∧ c.toNat < 0x800) ∧ utf8EncodeChar c =
        [UInt8.ofNat (c.toNat / 0x40 % 0x20 + 0xC0), UInt8.ofNat (c.toNat % 0x40 + 0x80)] ∨
      (0x800 ≤ c.toNat ∧ c.toNat < 0x10000) ∧ utf8EncodeChar c =
        [UInt8.ofNat (c.toNat / 0x1000 % 0x10 + 0xE0),
          UInt8.ofNat (c.toNat / 0x40 % 0x40 + 0x80), UInt8.ofNat (c.toNat % 0x40 + 0x80)] ∨
      (0x10000 ≤ c.toNat ∧ c.toNat < 0x200000) ∧ utf8EncodeChar c =
        [UInt8.ofNat (c.toNat / 0x40000 % 0x08 + 0xF0),
          UInt8.ofNat (c.toNat / 0x1000 % 0x40 + 0x80),
          UInt8.ofNat (c.toNat / 0x40 % 0x40 + 0x80), UInt8.ofNat (c.toNat % 0x40 + 0x80)] := by
  have hlt : c.toNat < 0x110000 := by
    have := c.valid
    unfold UInt32.isValidChar Nat.isValidChar at this
    unfold Char.toNat
    omega
  -- The definition tests the number against the bounds in this order.
  have hencode := utf8EncodeChar.eq_1 c
  simp only [← Char.toNat.eq_1 c] at hencode
  rw [hencode]
  split
  · next h => exact .inl ⟨by omega, rfl⟩
  split
  · next h => exact .inr (.inl ⟨by omega, rfl⟩)
  split
  · next h => exact .inr (.inr (.inl ⟨by omega, rfl⟩))
  · next h => exact .inr (.inr (.inr ⟨by omega, rfl⟩))

theorem decode?_one {a : UInt8} (ha : a.toNat < 0x80) (rest : Bytes) :
    decode? (a :: rest) = some (Char.ofNat a.toNat, rest) := by
  have hone : a < 0x80 := UInt8.lt_iff_toNat_lt.mpr ha
  simp only [decode?, if_pos hone]

theorem decode?_two {a b : UInt8} (ha : 0xC0 ≤ a.toNat ∧ a.toNat < 0xE0) (hb : isTail b = true)
    (rest : Bytes) :
    decode? (a :: b :: rest) =
      (charFrom? 0x80 (a.toNat % 0x20 * 0x40 + tailBits b)).map (·, rest) := by
  have hone : ¬ a < 0x80 := by rw [UInt8.lt_iff_toNat_lt]; simp; omega
  have htwo : 0xC0 ≤ a ∧ a < 0xE0 := by
    rw [UInt8.le_iff_toNat_le, UInt8.lt_iff_toNat_lt]; exact ha
  simp only [decode?, if_neg hone, if_pos htwo, hb, if_true]

theorem decode?_three {a b c : UInt8} (ha : 0xE0 ≤ a.toNat ∧ a.toNat < 0xF0) (hb : isTail b = true)
    (hc : isTail c = true) (rest : Bytes) :
    decode? (a :: b :: c :: rest) =
      (charFrom? 0x800 ((a.toNat % 0x10 * 0x40 + tailBits b) * 0x40 + tailBits c)).map
        (·, rest) := by
  have hone : ¬ a < 0x80 := by rw [UInt8.lt_iff_toNat_lt]; simp; omega
  have htwo : ¬ (0xC0 ≤ a ∧ a < 0xE0) := by
    rw [UInt8.le_iff_toNat_le, UInt8.lt_iff_toNat_lt]; simp; omega
  have hthree : 0xE0 ≤ a ∧ a < 0xF0 := by
    rw [UInt8.le_iff_toNat_le, UInt8.lt_iff_toNat_lt]; exact ha
  simp only [decode?, if_neg hone, if_neg htwo, if_pos hthree, hb, hc, Bool.and_self, if_true]

theorem decode?_four {a b c d : UInt8} (ha : 0xF0 ≤ a.toNat ∧ a.toNat < 0xF8)
    (hb : isTail b = true) (hc : isTail c = true) (hd : isTail d = true) (rest : Bytes) :
    decode? (a :: b :: c :: d :: rest) =
      (charFrom? 0x10000
        (((a.toNat % 0x08 * 0x40 + tailBits b) * 0x40 + tailBits c) * 0x40 + tailBits d)).map
        (·, rest) := by
  have hone : ¬ a < 0x80 := by rw [UInt8.lt_iff_toNat_lt]; simp; omega
  have htwo : ¬ (0xC0 ≤ a ∧ a < 0xE0) := by
    rw [UInt8.le_iff_toNat_le, UInt8.lt_iff_toNat_lt]; simp; omega
  have hthree : ¬ (0xE0 ≤ a ∧ a < 0xF0) := by
    rw [UInt8.le_iff_toNat_le, UInt8.lt_iff_toNat_lt]; simp; omega
  have hfour : 0xF0 ≤ a ∧ a < 0xF8 := by
    rw [UInt8.le_iff_toNat_le, UInt8.lt_iff_toNat_lt]; exact ha
  simp only [decode?, if_neg hone, if_neg htwo, if_neg hthree, if_pos hfour, hb, hc, hd,
    Bool.and_self, if_true]

/-! ## What is encoded is decoded

The bits that were taken apart are put together again; what is left is arithmetic. -/

theorem toNat_ofNat_of_lt {n : Nat} (h : n < 256) : (UInt8.ofNat n).toNat = n :=
  UInt8.toNat_ofNat_of_lt' h

/-- What follows an encoded character does not change how it is decoded. -/
theorem decode?_encode (c : Char) (rest : Bytes) :
    decode? (utf8EncodeChar c ++ rest) = some (c, rest) := by
  -- The number that is put together again is that of the character, which is not too low for its
  -- length.
  have hchar {low n : Nat} (hlow : low ≤ c.toNat) (hn : n = c.toNat) :
      (charFrom? low n).map (·, rest) = some (c, rest) := by
    rw [charFrom?_eq_some_iff.mpr ⟨hn ▸ hlow, hn.symm⟩]
    rfl
  rcases encode_cases c with ⟨hc, h⟩ | ⟨hc, h⟩ | ⟨hc, h⟩ | ⟨hc, h⟩
  · have ha := toNat_ofNat_of_lt (n := c.toNat) (by omega)
    rw [h, List.singleton_append, decode?_one (by omega), ha, Char.ofNat_toNat]
  · have ha := toNat_ofNat_of_lt (n := c.toNat / 0x40 % 0x20 + 0xC0) (by omega)
    rw [h, List.cons_append, List.singleton_append, decode?_two (by omega) (isTail_ofNat _),
      tailBits_ofNat, ha]
    exact hchar (by omega) (by omega)
  · have ha := toNat_ofNat_of_lt (n := c.toNat / 0x1000 % 0x10 + 0xE0) (by omega)
    rw [h, List.cons_append, List.cons_append, List.singleton_append,
      decode?_three (by omega) (isTail_ofNat _) (isTail_ofNat _), tailBits_ofNat, tailBits_ofNat, ha]
    exact hchar (by omega) (by omega)
  · have ha := toNat_ofNat_of_lt (n := c.toNat / 0x40000 % 0x08 + 0xF0) (by omega)
    rw [h, List.cons_append, List.cons_append, List.cons_append, List.singleton_append,
      decode?_four (by omega) (isTail_ofNat _) (isTail_ofNat _) (isTail_ofNat _), tailBits_ofNat,
      tailBits_ofNat, tailBits_ofNat, ha]
    exact hchar (by omega) (by omega)

/-! ## What is decoded was encoded

Each byte is known by its bits and by its place, so the bytes that were decoded are those that the
character is encoded by. -/

/-- A leading byte is known by its bits and by the length that it announces. -/
theorem eq_ofNat_lead {a : UInt8} {n base : Nat} (h : n + base = a.toNat) :
    UInt8.ofNat (n + base) = a := by
  rw [h, UInt8.ofNat_toNat]

theorem tailBits_lt (b : UInt8) : tailBits b < 0x40 := Nat.mod_lt _ (by decide)

variable {a b d e : UInt8} {c : Char}

/-- One byte below 80 encodes its own number. -/
theorem encode_one (ha : a.toNat < 0x80) (hc : c.toNat = a.toNat) : utf8EncodeChar c = [a] := by
  rcases encode_cases c with ⟨-, h⟩ | ⟨hlong, -⟩ | ⟨hlong, -⟩ | ⟨hlong, -⟩
  case inl => rw [h, hc, UInt8.ofNat_toNat]
  all_goals omega

/-- Two bytes encode what their bits make up, if it needs both. -/
theorem encode_two (ha : 0xC0 ≤ a.toNat ∧ a.toNat < 0xE0) (hb : isTail b = true)
    (hlow : 0x80 ≤ c.toNat) (hc : c.toNat = a.toNat % 0x20 * 0x40 + tailBits b) :
    utf8EncodeChar c = [a, b] := by
  have := tailBits_lt b
  -- Any other length has other numbers.
  rcases encode_cases c with ⟨hshort, -⟩ | ⟨-, h⟩ | ⟨hlong, -⟩ | ⟨hlong, -⟩
  case inr.inl => rw [h, eq_ofNat_lead (a := a) (by omega), eq_ofNat_of_isTail hb (by omega)]
  all_goals omega

/-- So do three. -/
theorem encode_three (ha : 0xE0 ≤ a.toNat ∧ a.toNat < 0xF0) (hb : isTail b = true)
    (hd : isTail d = true) (hlow : 0x800 ≤ c.toNat)
    (hc : c.toNat = (a.toNat % 0x10 * 0x40 + tailBits b) * 0x40 + tailBits d) :
    utf8EncodeChar c = [a, b, d] := by
  have := tailBits_lt b
  have := tailBits_lt d
  rcases encode_cases c with ⟨hshort, -⟩ | ⟨hshort, -⟩ | ⟨-, h⟩ | ⟨hlong, -⟩
  case inr.inr.inl =>
    rw [h, eq_ofNat_lead (a := a) (by omega), eq_ofNat_of_isTail hb (by omega),
      eq_ofNat_of_isTail hd (by omega)]
  all_goals omega

/-- And four. -/
theorem encode_four (ha : 0xF0 ≤ a.toNat ∧ a.toNat < 0xF8) (hb : isTail b = true)
    (hd : isTail d = true) (he : isTail e = true) (hlow : 0x10000 ≤ c.toNat)
    (hc : c.toNat =
      ((a.toNat % 0x08 * 0x40 + tailBits b) * 0x40 + tailBits d) * 0x40 + tailBits e) :
    utf8EncodeChar c = [a, b, d, e] := by
  have := tailBits_lt b
  have := tailBits_lt d
  have := tailBits_lt e
  rcases encode_cases c with ⟨hshort, -⟩ | ⟨hshort, -⟩ | ⟨hshort, -⟩ | ⟨-, h⟩
  case inr.inr.inr =>
    rw [h, eq_ofNat_lead (a := a) (by omega), eq_ofNat_of_isTail hb (by omega),
      eq_ofNat_of_isTail hd (by omega), eq_ofNat_of_isTail he (by omega)]
  all_goals omega

/-- A character that is found at the front is encoded there. -/
theorem eq_encode_of_decode? {s rest : Bytes} (h : decode? s = some (c, rest)) :
    s = utf8EncodeChar c ++ rest := by
  have hchar {low n : Nat} {tail : Bytes}
      (h : (charFrom? low n).map (·, tail) = some (c, rest)) :
      low ≤ c.toNat ∧ c.toNat = n ∧ tail = rest := by
    obtain ⟨d, hd, ⟨⟩⟩ := Option.map_eq_some_iff.mp h
    obtain ⟨hlow, hn⟩ := charFrom?_eq_some_iff.mp hd
    exact ⟨hn ▸ hlow, hn, rfl⟩
  rw [decode?.eq_def] at h
  split at h
  · cases h
  simp only [UInt8.le_iff_toNat_le, UInt8.lt_iff_toNat_lt] at h
  -- The first byte says how many bytes there are; each length that is found was encoded so.
  split at h
  · next a tail hone =>
    have hvalid : a.toNat.isValidChar := .inl (Nat.lt_trans hone (by decide))
    cases h
    rw [encode_one hone (by rw [Char.ofNat, dif_pos hvalid]; rfl), List.singleton_append]
  split at h
  · next htwo =>
    split at h
    · split at h
      · next hb =>
        obtain ⟨hlow, hn, rfl⟩ := hchar h
        rw [encode_two htwo hb hlow hn]
        rfl
      · cases h
    · cases h
  split at h
  · next hthree =>
    split at h
    · split at h
      · next htails =>
        rw [Bool.and_eq_true] at htails
        obtain ⟨hlow, hn, rfl⟩ := hchar h
        rw [encode_three hthree htails.1 htails.2 hlow hn]
        rfl
      · cases h
    · cases h
  split at h
  · next hfour =>
    split at h
    · split at h
      · next htails =>
        rw [Bool.and_eq_true, Bool.and_eq_true] at htails
        obtain ⟨hlow, hn, rfl⟩ := hchar h
        rw [encode_four hfour htails.1.1 htails.1.2 htails.2 hlow hn]
        rfl
      · cases h
    · cases h
  · cases h

/-- A text begins with a character exactly if it begins with the encoding of that character. -/
theorem decode?_eq_some_iff {s rest : Bytes} :
    decode? s = some (c, rest) ↔ s = utf8EncodeChar c ++ rest := by
  constructor
  · exact eq_encode_of_decode?
  · rintro rfl
    exact decode?_encode c rest

end LetFn.Text
