import LetFn.Proofs.Source

/-!
# Lines are found again where they were joined

A text can be put together from lines: each one ends with a line feed, with a carriage return in
front of it or not, and the last one may go without an end if it is not empty. Reading the text
gives the lines back, as long as each one with its end is within the limit. The first one that is
not ends the reading, and nothing from it on is read (`ofText_text`).
-/

namespace LetFn.Source

open Text

/-! ## Rows

A text is its rows: lines with the endings that stand behind them. The last row may have no
ending. -/

/-- How a line ends. -/
inductive Ending where
  /-- With a line feed. -/
  | feed
  /-- With a carriage return and a line feed. -/
  | returnFeed
  /-- With the text. -/
  | missing
  deriving DecidableEq, Repr

/-- The bytes that end the line. -/
def Ending.bytes : Ending → Bytes
  | feed => [newline]
  | returnFeed => [carriageReturn, newline]
  | missing => []

/-- A line as it stands in a text. -/
structure Row where
  line : Bytes
  ending : Ending
  deriving DecidableEq, Repr

namespace Row

/-- The line with its end. -/
def bytes (row : Row) : Bytes := row.line ++ row.ending.bytes

/-- The line with its end is within the limit; a line without an end is below it. -/
def Fits (row : Row) : Prop :=
  match row.ending with
  | .missing => row.line.length < limit
  | _ => row.bytes.length ≤ limit

/-- What stands in front of the line feed. -/
def piece (row : Row) : Bytes :=
  match row.ending with
  | .returnFeed => row.line ++ [carriageReturn]
  | _ => row.line

end Row

/-- The text of some rows. -/
def text (rows : List Row) : Bytes := rows.flatMap Row.bytes

/-- The line cannot be taken for several, nor its last byte for a part of its end. -/
def IsPlain (line : Bytes) : Prop := newline ∉ line ∧ line.getLast? ≠ some carriageReturn

instance (line : Bytes) : Decidable (IsPlain line) :=
  inferInstanceAs (Decidable (_ ∧ _))

/-- The rows make up a text: only the last one can be without an end, and is not empty then. -/
inductive IsText : List Row → Prop
  | nil : IsText []
  | last {line : Bytes} : IsPlain line → line ≠ [] → IsText [⟨line, .missing⟩]
  | cons {line : Bytes} {ending : Ending} {rest : List Row} : IsPlain line → ending ≠ .missing →
      IsText rest → IsText (⟨line, ending⟩ :: rest)

/-- What is behind some rows of a text is a text. -/
theorem IsText.of_append {before after : List Row} (h : IsText (before ++ after)) :
    IsText after := by
  induction before with
  | nil => exact h
  | cons row before ih =>
    apply ih
    rw [List.cons_append] at h
    generalize before ++ after = rest at h
    cases h with
    | last => exact .nil
    | cons _ _ hrest => exact hrest

/-! ## Reading a row -/

namespace Row

variable {row : Row}

theorem newline_not_mem_piece (h : IsPlain row.line) : newline ∉ row.piece := by
  unfold piece
  split
  · rw [List.mem_append, not_or]
    exact ⟨h.1, by decide⟩
  · exact h.1

/-- Only the carriage return of the end is taken away. -/
theorem dropReturn_piece (h : IsPlain row.line) : dropReturn row.piece = row.line := by
  unfold piece
  split
  · rw [dropReturn, if_pos List.getLast?_concat, List.dropLast_concat]
  · rw [dropReturn, if_neg h.2]

theorem bytes_eq_piece (h : row.ending ≠ .missing) : row.bytes = row.piece ++ [newline] := by
  obtain ⟨line, ending⟩ := row
  cases ending with
  | feed => rfl
  | returnFeed => exact List.append_cons line carriageReturn [newline]
  | missing => exact absurd rfl h

/-- The line feed is the byte that a line below the limit has room for. -/
theorem fits_piece_iff : fits row.piece = true ↔ row.Fits := by
  have hroom (h : row.ending ≠ .missing) : fits row.piece = true ↔ row.bytes.length ≤ limit := by
    rw [fits_iff, bytes_eq_piece h, List.length_append, List.length_singleton, Nat.succ_le_iff]
  obtain ⟨line, ending⟩ := row
  cases ending with
  | feed => exact hroom nofun
  | returnFeed => exact hroom nofun
  | missing => exact fits_iff

instance (row : Row) : Decidable row.Fits := decidable_of_iff _ fits_piece_iff

end Row

theorem ofText_nil : ofText [] = ofLines [] := by
  rw [ofText]
  rfl

/-- The first row of a text is read if it fits, and then the rows behind it. -/
theorem ofText_text_cons {row : Row} {rest : List Row} (h : IsText (row :: rest)) :
    ofText (text (row :: rest)) =
      if fits row.piece then cons row.line (ofText (text rest)) else failed .lineTooLong := by
  have htext : text (row :: rest) = row.bytes ++ text rest := List.flatMap_cons
  rw [htext]
  cases h with
  | @last line hline hne =>
    have hreturn : dropReturn line = line := @Row.dropReturn_piece ⟨line, .missing⟩ hline
    show ofText (line ++ [] ++ []) = if fits line then cons line (ofText []) else failed .lineTooLong
    rw [List.append_nil, List.append_nil, ofText_single hline.1 hne, hreturn, ofText_nil]
    rfl
  | @cons line ending rest hline hending hrest =>
    rw [Row.bytes_eq_piece hending, List.append_assoc, List.singleton_append,
      ofText_line (Row.newline_not_mem_piece hline), Row.dropReturn_piece hline]

/-- Rows that fit are read, and then what is behind them. -/
theorem ofText_text_append {before after : List Row} (h : IsText (before ++ after))
    (hfits : ∀ row ∈ before, row.Fits) :
    ofText (text (before ++ after)) =
      ⟨before.map Row.line ++ (ofText (text after)).lines, (ofText (text after)).fault⟩ := by
  induction before with
  | nil => rfl
  | cons row before ih =>
    rw [List.forall_mem_cons] at hfits
    rw [List.cons_append] at h ⊢
    rw [ofText_text_cons h, if_pos (Row.fits_piece_iff.mpr hfits.1),
      ih (@IsText.of_append [row] _ h) hfits.2]
    rfl

/-- Reading the text of some rows gives their lines if all of them fit. Otherwise it gives the
lines in front of the first one that does not, and the fault that ended it. -/
theorem ofText_text {rows : List Row} (h : IsText rows) :
    ((∀ row ∈ rows, row.Fits) → ofText (text rows) = ⟨rows.map Row.line, none⟩) ∧
      ∀ before long after, rows = before ++ long :: after → (∀ row ∈ before, row.Fits) →
        ¬long.Fits → ofText (text rows) = ⟨before.map Row.line, some .lineTooLong⟩ := by
  constructor
  · intro hfits
    have hread := @ofText_text_append rows [] (by rwa [List.append_nil]) hfits
    have hnothing : ofText (text []) = ofLines [] := ofText_nil
    rwa [hnothing, ofLines, List.append_nil, List.append_nil] at hread
  · rintro before long after rfl hfits hlong
    rw [ofText_text_append h hfits, ofText_text_cons h.of_append,
      if_neg (mt Row.fits_piece_iff.mp hlong), failed, List.append_nil]

/-- A line with a carriage return in the middle, an empty one, and one without an end. -/
def mixedRows : List Row :=
  [⟨[0x61, carriageReturn, 0x62], .returnFeed⟩, ⟨[], .feed⟩, ⟨[0x63], .missing⟩]

/-- A row that is over the limit because of its carriage return. -/
def longRow : Row := ⟨List.replicate (limit - 1) 0x64, .returnFeed⟩

theorem isText_mixedRows : IsText mixedRows :=
  .cons (by decide) (by decide) (.cons (by decide) (by decide) (.last (by decide) (by decide)))

theorem isText_longRow {rest : List Row} (h : IsText rest) : IsText (longRow :: rest) := by
  refine .cons ⟨?_, ?_⟩ (by decide) h
  · intro hmem
    exact absurd (List.eq_of_mem_replicate hmem) (by decide)
  · intro hlast
    exact absurd (List.eq_of_mem_replicate (List.mem_of_getLast? hlast)) (by decide)

theorem not_fits_longRow : ¬longRow.Fits := by
  apply mt Row.fits_piece_iff.mpr
  rw [fits_iff]
  show ¬(List.replicate (limit - 1) 0x64 ++ [carriageReturn]).length < limit
  rw [List.length_append, List.length_replicate]
  decide

theorem ofText_text_mixedRows :
    ofText (text mixedRows) = ⟨[[0x61, carriageReturn, 0x62], [], [0x63]], none⟩ ∧
      ofText (text (⟨[], .feed⟩ :: longRow :: mixedRows)) = ⟨[[]], some .lineTooLong⟩ := by
  have hfits : ∀ row ∈ mixedRows, row.Fits := by decide
  have hempty : ∀ row ∈ [(⟨[], .feed⟩ : Row)], row.Fits := by decide
  have hlong : IsText (⟨[], .feed⟩ :: longRow :: mixedRows) :=
    .cons (by decide) (by decide) (isText_longRow isText_mixedRows)
  exact ⟨(ofText_text isText_mixedRows).1 hfits,
    (ofText_text hlong).2 [⟨[], .feed⟩] longRow mixedRows rfl hempty not_fits_longRow⟩

end LetFn.Source
