import LetFn.Node.Json
import LetFn.Proofs.Text.Escape

/-!
# A JSON document can be read back

What the writer lays out line by line is a JSON value (`Value`): nothing, a string, a list or an
object with its fields in order. Without the line breaks and the indentation a value is flat text
(`squeeze_lines`), and flat text says itself where a value ends (`told_flat`): a list goes on behind
a comma and ends with its bracket, a string ends with its quotes. So the lines of a value tell the
value (`unlines_lines_injective`). Its strings are characters here, since characters are what a JSON
string can hold.
-/

namespace LetFn.Json

open Text

/-! ## Values and their lines

The writer makes lines from lines. A `Value` is the tree behind them: `lines` says how it is laid
out, and `flat` is the same text without line breaks and indentation. -/

/-- A JSON value as the writer of trees knows it. -/
inductive Value where
  | null
  | string (cs : List Char)
  | array (items : List Value)
  | object (fields : List (String × Value))

namespace Value

mutual

/-- The lines of a value. -/
def lines : Value → List Bytes
  | null => Json.null
  | string cs => Json.string (encode cs)
  | array items => Json.array (linesAll items)
  | object fields => Json.object (linesFields fields)

/-- The lines of each value. -/
def linesAll : List Value → List (List Bytes)
  | [] => []
  | v :: rest => v.lines :: linesAll rest

/-- The lines of each field. -/
def linesFields : List (String × Value) → List (List Bytes)
  | [] => []
  | (key, v) :: rest => Json.field key v.lines :: linesFields rest

end

end Value

/-- A comma. -/
def comma : UInt8 := 0x2C

/-- Items with a comma in front of each of them and a bracket behind. -/
def more (close : UInt8) : List Bytes → Bytes
  | [] => [close]
  | item :: rest => comma :: (item ++ more close rest)

/-- Items with commas between them and a bracket behind. -/
def enclosed (close : UInt8) : List Bytes → Bytes
  | [] => [close]
  | item :: rest => item ++ more close rest

/-- A key in front of the text of its value. -/
def flatField (key : String) (value : Bytes) : Bytes :=
  jsonString treeStyle (utf8 key) ++ (utf8 ": " ++ value)

namespace Value

mutual

/-- A value on one line. -/
def flat : Value → Bytes
  | null => utf8 "null"
  | string cs => jsonString treeStyle (encode cs)
  | array items => 0x5B :: enclosed 0x5D (flatAll items)
  | object fields => 0x7B :: enclosed 0x7D (flatFields fields)

/-- Each value on one line. -/
def flatAll : List Value → List Bytes
  | [] => []
  | v :: rest => v.flat :: flatAll rest

/-- Each field on one line. -/
def flatFields : List (String × Value) → List Bytes
  | [] => []
  | (key, v) :: rest => flatField key v.flat :: flatFields rest

end

end Value

/-! ## Layouts

What the writer indents begins flush and has no blank line and no line break within a line. Only of
such lines can indentation be taken off again. -/

/-- A line that is not blank and is one line. -/
def IsLine (line : Bytes) : Prop := undent line ≠ [] ∧ newline ∉ line

/-- Lines of which the first is not indented. -/
def IsLayout (lines : List Bytes) : Prop :=
  (∃ first rest, lines = first :: rest ∧ isFlush first = true) ∧ ∀ line ∈ lines, IsLine line

/-- A line that begins with no blank, and has no line feed, is one of a layout. -/
theorem isLine_of_isFlush {line : Bytes} (hflush : isFlush line = true) (hline : newline ∉ line) :
    IsLine line := by
  refine ⟨?_, hline⟩
  rw [undent_of_isFlush hflush]
  rintro rfl
  cases hflush

/-- Behind something that is not blank, nothing changes what the indentation is. -/
theorem undent_append {line : Bytes} (h : undent line ≠ []) (s : Bytes) :
    undent (line ++ s) = undent line ++ s := by
  have hempty : (undent line).isEmpty = false := by simpa using h
  rw [undent, List.dropWhile_append, ← undent, hempty]
  rfl

/-- A line may be continued. -/
theorem IsLine.append {line s : Bytes} (h : IsLine line) (hs : newline ∉ s) :
    IsLine (line ++ s) := by
  constructor
  · rw [undent_append h.1]
    exact List.append_ne_nil_of_left_ne_nil h.1 s
  · rw [List.mem_append, not_or]
    exact ⟨h.2, hs⟩

/-- A line may be moved to the right. -/
theorem IsLine.indent {line : Bytes} (h : IsLine line) : IsLine (blanks 2 ++ line) := by
  constructor
  · rw [undent_blanks]
    exact h.1
  · rw [List.mem_append, not_or]
    exact ⟨by decide, h.2⟩

/-- One line by itself is a layout. -/
theorem isLayout_single {line : Bytes} (hflush : isFlush line = true) (hline : newline ∉ line) :
    IsLayout [line] :=
  ⟨⟨line, [], rfl, hflush⟩, by simpa using isLine_of_isFlush hflush hline⟩

theorem IsLayout.ne_nil {lines : List Bytes} (h : IsLayout lines) : lines ≠ [] := by
  obtain ⟨⟨first, rest, rfl, -⟩, -⟩ := h
  exact List.cons_ne_nil first rest

/-- A text put behind the last line leaves lines. -/
theorem isLine_behind {s : Bytes} (hs : newline ∉ s) {lines : List Bytes} (hne : lines ≠ [])
    (h : ∀ line ∈ lines, IsLine line) : ∀ line ∈ behind s lines, IsLine line := by
  fun_induction behind s lines with
  | case1 => exact absurd rfl hne
  | case2 line =>
    rw [List.forall_mem_singleton] at h ⊢
    exact h.append hs
  | case3 line rest hrest ih =>
    rw [List.forall_mem_cons] at h ⊢
    exact ⟨h.1, ih hrest h.2⟩

/-- Items with commas between them are lines. -/
theorem isLine_separated {items : List (List Bytes)} (h : ∀ item ∈ items, IsLayout item) :
    ∀ line ∈ separated items, IsLine line := by
  fun_induction separated items with
  | case1 => nofun
  | case2 item => exact (h item List.mem_cons_self).2
  | case3 item rest hrest ih =>
    rw [List.forall_mem_cons] at h
    rw [List.forall_mem_append]
    exact ⟨isLine_behind (by decide) h.1.ne_nil h.1.2, ih h.2⟩

/-- Items between brackets. -/
theorem isLayout_enclosed {opening close : Bytes} (hopening : isFlush opening = true)
    (hclose : isFlush close = true) (hnewline : newline ∉ opening ++ close)
    {items : List (List Bytes)} (h : ∀ item ∈ items, IsLayout item) :
    IsLayout ([opening] ++ indent (separated items) ++ [close]) := by
  rw [List.mem_append, not_or] at hnewline
  refine ⟨⟨opening, indent (separated items) ++ [close], rfl, hopening⟩, ?_⟩
  rw [List.forall_mem_append, List.forall_mem_append, List.forall_mem_singleton,
    List.forall_mem_singleton]
  refine ⟨⟨isLine_of_isFlush hopening hnewline.1, ?_⟩, isLine_of_isFlush hclose hnewline.2⟩
  rw [indent, List.forall_mem_map]
  exact fun line hline => (isLine_separated h line hline).indent

theorem isFlush_jsonString (s : Bytes) : isFlush (jsonString treeStyle s) = true :=
  isFlush_append (isFlush_append (by decide) _) _

theorem isFlush_key (key : String) (value : Bytes) :
    isFlush (jsonString treeStyle (utf8 key) ++ utf8 ": " ++ value) = true :=
  isFlush_append (isFlush_append (isFlush_jsonString _) _) _

/-- A field is laid out if its value is. -/
theorem isLayout_field (key : String) {value : List Bytes} (h : IsLayout value) :
    IsLayout (field key value) := by
  obtain ⟨⟨first, rest, rfl, hfirst⟩, hlines⟩ := h
  rw [List.forall_mem_cons] at hlines
  have hkey : newline ∉ jsonString treeStyle (utf8 key) := newline_not_mem_jsonString key.toList
  have hflush := isFlush_key key first
  have hline : newline ∉ jsonString treeStyle (utf8 key) ++ utf8 ": " ++ first := by
    rw [List.mem_append, List.mem_append, not_or, not_or]
    exact ⟨⟨hkey, by decide⟩, hlines.1.2⟩
  refine ⟨⟨_, rest, rfl, hflush⟩, ?_⟩
  rw [field, List.forall_mem_cons]
  exact ⟨isLine_of_isFlush hflush hline, hlines.2⟩

/-- An array is laid out if its items are. -/
theorem isLayout_array {items : List (List Bytes)} (h : ∀ item ∈ items, IsLayout item) :
    IsLayout (array items) := by
  rw [array]
  split
  · exact isLayout_single (by decide) (by decide)
  · exact isLayout_enclosed (by decide) (by decide) (by decide) h

/-! ## Without line breaks

Line breaks and indentation carry no information: what is left after taking them off is `flat`. -/

/-- The lines one behind the other without their indentation. -/
def squeeze (lines : List Bytes) : Bytes := lines.flatMap undent

/-- Indentation does not show in what is squeezed. -/
theorem squeeze_indent (lines : List Bytes) : squeeze (indent lines) = squeeze lines := by
  rw [squeeze, indent, List.flatMap_map]
  simp only [undent_blanks]
  rfl

/-- A text put behind the last line stands behind what is squeezed. -/
theorem squeeze_behind {lines : List Bytes} (hne : lines ≠ []) (h : ∀ line ∈ lines, IsLine line)
    (s : Bytes) : squeeze (behind s lines) = squeeze lines ++ s := by
  fun_induction behind s lines with
  | case1 => exact absurd rfl hne
  | case2 line =>
    have hline := (h line List.mem_cons_self).1
    simp [squeeze, undent_append hline]
  | case3 line rest hrest ih =>
    rw [List.forall_mem_cons] at h
    rw [squeeze, List.flatMap_cons, ← squeeze, ih hrest h.2, squeeze, squeeze, List.flatMap_cons,
      List.append_assoc]

/-- The first of several items has a comma behind it. -/
theorem enclosed_cons {rest : List Bytes} (h : rest ≠ []) (close : UInt8) (item : Bytes) :
    enclosed close (item :: rest) = item ++ comma :: enclosed close rest := by
  cases rest with
  | nil => exact absurd rfl h
  | cons next rest => rfl

/-- Items in lines, squeezed, are the items squeezed, with commas between them. -/
theorem squeeze_separated {items : List (List Bytes)} (h : ∀ item ∈ items, IsLayout item)
    (close : UInt8) :
    squeeze (separated items) ++ [close] = enclosed close (items.map squeeze) := by
  fun_induction separated items with
  | case1 => rfl
  | case2 item => rfl
  | case3 item rest hrest ih =>
    rw [List.forall_mem_cons] at h
    have hmap : rest.map squeeze ≠ [] := by simpa using hrest
    have hcomma : utf8 "," = [comma] := rfl
    rw [List.map_cons, enclosed_cons hmap, ← ih h.2, squeeze, List.flatMap_append, ← squeeze,
      ← squeeze, squeeze_behind h.1.ne_nil h.1.2, hcomma, List.append_assoc, List.append_assoc]
    rfl

/-- A field, squeezed, is its key and its value squeezed. -/
theorem squeeze_field (key : String) {value : List Bytes} (h : IsLayout value) :
    squeeze (field key value) = flatField key (squeeze value) := by
  obtain ⟨⟨first, rest, rfl, hfirst⟩, -⟩ := h
  rw [field, squeeze, squeeze, List.flatMap_cons, List.flatMap_cons,
    undent_of_isFlush (isFlush_key key first), undent_of_isFlush hfirst, flatField]
  simp

/-- Items in lines between brackets, squeezed, are enclosed. -/
theorem squeeze_enclosed {items : List (List Bytes)} (h : ∀ item ∈ items, IsLayout item)
    (opening close : UInt8) (hopening : isFlush [opening] = true)
    (hclose : isFlush [close] = true) :
    squeeze ([[opening]] ++ indent (separated items) ++ [[close]]) =
      opening :: enclosed close (items.map squeeze) := by
  have hsingle {b : UInt8} (hb : isFlush [b] = true) : squeeze [[b]] = [b] := by
    rw [squeeze, List.flatMap_singleton, undent_of_isFlush hb]
  rw [← squeeze_separated h, squeeze, List.flatMap_append, List.flatMap_append, ← squeeze,
    ← squeeze, ← squeeze, squeeze_indent, hsingle hopening, hsingle hclose, List.append_assoc]
  rfl

theorem squeeze_array {items : List (List Bytes)} (h : ∀ item ∈ items, IsLayout item) :
    squeeze (array items) = 0x5B :: enclosed 0x5D (items.map squeeze) := by
  rw [array]
  split
  · next hempty =>
    rw [List.isEmpty_iff.mp hempty]
    rfl
  · exact squeeze_enclosed h _ _ (by decide) (by decide)

namespace Value

mutual

/-- Every value is laid out, by recursion on the value. -/
theorem isLayout_lines : ∀ v : Value, IsLayout v.lines
  | null => isLayout_single (by decide) (by decide)
  | string cs => isLayout_single (isFlush_jsonString _) (newline_not_mem_jsonString cs)
  | array items => isLayout_array (isLayout_linesAll items)
  | object fields =>
    isLayout_enclosed (by decide) (by decide) (by decide) (isLayout_linesFields fields)

/-- The values of an array are laid out, one by one. -/
theorem isLayout_linesAll : ∀ (vs : List Value), ∀ item ∈ linesAll vs, IsLayout item
  | [] => nofun
  | v :: rest => by
    rw [linesAll, List.forall_mem_cons]
    exact ⟨isLayout_lines v, isLayout_linesAll rest⟩

/-- The fields of an object are laid out, one by one. -/
theorem isLayout_linesFields : ∀ (fields : List (String × Value)),
    ∀ item ∈ linesFields fields, IsLayout item
  | [] => nofun
  | (key, v) :: rest => by
    rw [linesFields, List.forall_mem_cons]
    exact ⟨isLayout_field key (isLayout_lines v), isLayout_linesFields rest⟩

end

mutual

/-- Line breaks and indentation are all that the lines add. -/
theorem squeeze_lines : ∀ v : Value, squeeze v.lines = v.flat
  | null => rfl
  | string cs => by
    rw [lines, Json.string, squeeze, List.flatMap_singleton, flat,
      undent_of_isFlush (isFlush_jsonString _)]
  | array items => by
    rw [lines, squeeze_array (isLayout_linesAll items), map_squeeze_linesAll items, flat]
  | object fields => by
    have hsqueeze := squeeze_enclosed (isLayout_linesFields fields) 0x7B 0x7D (by decide)
      (by decide)
    rw [map_squeeze_linesFields fields] at hsqueeze
    exact hsqueeze

/-- Values in lines, squeezed one by one, are flat values. -/
theorem map_squeeze_linesAll : ∀ vs : List Value, (linesAll vs).map squeeze = flatAll vs
  | [] => rfl
  | v :: rest => by
    rw [linesAll, List.map_cons, squeeze_lines v, map_squeeze_linesAll rest, flatAll]

/-- Fields in lines, squeezed one by one, are flat fields. -/
theorem map_squeeze_linesFields : ∀ fields : List (String × Value),
    (linesFields fields).map squeeze = flatFields fields
  | [] => rfl
  | (key, v) :: rest => by
    rw [linesFields, List.map_cons, squeeze_field key (isLayout_lines v), squeeze_lines v,
      map_squeeze_linesFields rest, flatFields]

end

end Value

/-! ## Where a value ends

Texts are read from the front, and each tells the value it was written for and where that value
ends. The first byte tells the kind; commas and brackets tell whether an array or an object goes
on. -/

/-- The thing is told from what is written for it, whatever follows. -/
def Told {α : Type} (code : α → Bytes) (a : α) : Prop :=
  ∀ ⦃b : α⦄ ⦃r s : Bytes⦄, code a ++ r = code b ++ s → a = b ∧ r = s

section

variable {α : Type} {code : α → Bytes} {close : UInt8}

/-- Behind an item stands the bracket or a comma, which tells whether another one follows. -/
theorem told_more (hclose : close ≠ comma) {as bs : List α} {r s : Bytes}
    (has : ∀ a ∈ as, Told code a)
    (h : more close (as.map code) ++ r = more close (bs.map code) ++ s) : as = bs ∧ r = s := by
  induction as generalizing bs with
  | nil =>
    cases bs with
    | nil => exact ⟨rfl, (List.cons.inj h).2⟩
    | cons b bs => exact absurd (List.cons.inj h).1 hclose
  | cons a as ih =>
    rw [List.forall_mem_cons] at has
    cases bs with
    | nil => exact absurd (List.cons.inj h).1.symm hclose
    | cons b bs =>
      have hitem := (List.cons.inj h).2
      rw [List.append_eq, List.append_eq, List.append_assoc, List.append_assoc] at hitem
      obtain ⟨rfl, hrest⟩ := has.1 hitem
      obtain ⟨rfl, hend⟩ := ih has.2 hrest
      exact ⟨rfl, hend⟩

/-- The items between brackets are told, if none of them begins with the bracket behind them. -/
theorem told_enclosed (hclose : close ≠ comma)
    (hcode : ∀ a, ∃ b tail, code a = b :: tail ∧ b ≠ close) {as bs : List α} {r s : Bytes}
    (has : ∀ a ∈ as, Told code a)
    (h : enclosed close (as.map code) ++ r = enclosed close (bs.map code) ++ s) :
    as = bs ∧ r = s := by
  have hends (a : α) (rest : List Bytes) (t u : Bytes) :
      enclosed close (code a :: rest) ++ t ≠ close :: u := by
    obtain ⟨b, tail, hb, hne⟩ := hcode a
    rw [enclosed, hb]
    exact fun heq => hne (List.cons.inj heq).1
  cases as with
  | nil =>
    cases bs with
    | nil => exact ⟨rfl, (List.cons.inj h).2⟩
    | cons b bs => exact absurd h.symm (hends b _ s r)
  | cons a as =>
    cases bs with
    | nil => exact absurd h (hends a _ r s)
    | cons b bs =>
      rw [List.forall_mem_cons] at has
      rw [List.map_cons, List.map_cons, enclosed, enclosed, List.append_assoc,
        List.append_assoc] at h
      obtain ⟨rfl, hrest⟩ := has.1 h
      obtain ⟨rfl, hend⟩ := told_more hclose has.2 hrest
      exact ⟨rfl, hend⟩

end

namespace Value

theorem flatAll_eq_map : ∀ vs : List Value, flatAll vs = vs.map flat
  | [] => rfl
  | v :: rest => by rw [flatAll, flatAll_eq_map rest, List.map_cons]

/-- The first byte of a value tells its kind. -/
def mark : Value → UInt8
  | null => 'n'.toUInt8
  | string _ => Escape.quoteMark
  | array _ => 0x5B
  | object _ => 0x7B

/-- The first byte of a flat value is the mark of its kind. -/
theorem flat_eq_cons (v : Value) : ∃ tail, v.flat = v.mark :: tail := by
  cases v with
  | null => exact ⟨utf8 "ull", rfl⟩
  | string cs =>
    rw [flat, jsonString, List.append_assoc]
    exact ⟨_, rfl⟩
  | array items => exact ⟨_, rfl⟩
  | object fields => exact ⟨_, rfl⟩

/-- So two values with the same text in front of something have the same kind. -/
theorem mark_eq {v w : Value} {r s : Bytes} (h : v.flat ++ r = w.flat ++ s) : v.mark = w.mark := by
  obtain ⟨tail, hv⟩ := flat_eq_cons v
  obtain ⟨tail', hw⟩ := flat_eq_cons w
  rw [hv, hw] at h
  exact (List.cons.inj h).1

/-- A flat value does not begin with the bracket that closes an array. -/
theorem flat_begins (v : Value) : ∃ b tail, v.flat = b :: tail ∧ b ≠ 0x5D := by
  obtain ⟨tail, hv⟩ := flat_eq_cons v
  refine ⟨v.mark, tail, hv, ?_⟩
  cases v <;> rw [mark] <;> decide

/-- A field with its value on one line. -/
def flatEntry (field : String × Value) : Bytes := flatField field.1 field.2.flat

/-- A flat field does not begin with the brace that closes an object. -/
theorem flatEntry_begins (field : String × Value) :
    ∃ b tail, flatEntry field = b :: tail ∧ b ≠ 0x7D := by
  rw [flatEntry, flatField, jsonString, List.append_assoc, List.append_assoc]
  exact ⟨Escape.quoteMark, _, rfl, by decide⟩

theorem flatFields_eq_map : ∀ fields : List (String × Value),
    flatFields fields = fields.map flatEntry
  | [] => rfl
  | (key, v) :: rest => by rw [flatFields, flatFields_eq_map rest, List.map_cons, flatEntry]

/-- A field is told from its text if its value is. -/
theorem told_field {field : String × Value} (h : Told flat field.2) :
    Told flatEntry field := by
  intro other r s heq
  simp only [flatEntry, flatField, List.append_assoc] at heq
  obtain ⟨hkey, hrest⟩ := selfDelimiting_jsonString trivial trivial heq
  obtain ⟨hvalue, hend⟩ := h (List.append_cancel_left hrest)
  exact ⟨Prod.ext (String.toList_injective hkey) hvalue, hend⟩

mutual

/-- The text of a value tells the value and where it ends. -/
theorem told_flat : ∀ v : Value, Told flat v
  -- The first byte tells the kind; the induction is on the first value alone.
  | null => by
    intro w r s h
    cases w with
    | null => exact ⟨rfl, List.append_cancel_left h⟩
    | string _ | array _ | object _ => exact absurd (mark_eq h) (by rw [mark, mark]; decide)
  | string cs => by
    intro w r s h
    cases w with
    | string ds =>
      obtain ⟨rfl, hrest⟩ := selfDelimiting_jsonString trivial trivial h
      exact ⟨rfl, hrest⟩
    | null | array _ | object _ => exact absurd (mark_eq h) (by rw [mark, mark]; decide)
  | array items => by
    intro w r s h
    cases w with
    | array others =>
      have hitems := (List.cons.inj h).2
      rw [List.append_eq, List.append_eq, flatAll_eq_map, flatAll_eq_map] at hitems
      obtain ⟨rfl, hrest⟩ := told_enclosed (by decide) flat_begins (told_all items) hitems
      exact ⟨rfl, hrest⟩
    | null | string _ | object _ => exact absurd (mark_eq h) (by rw [mark, mark]; decide)
  | object fields => by
    intro w r s h
    cases w with
    | object others =>
      have hfields := (List.cons.inj h).2
      rw [List.append_eq, List.append_eq, flatFields_eq_map, flatFields_eq_map] at hfields
      obtain ⟨rfl, hrest⟩ := told_enclosed (by decide) flatEntry_begins (told_fields fields) hfields
      exact ⟨rfl, hrest⟩
    | null | string _ | array _ => exact absurd (mark_eq h) (by rw [mark, mark]; decide)

/-- Values of an array are told from their texts. -/
theorem told_all : ∀ vs : List Value, ∀ v ∈ vs, Told flat v
  | [] => nofun
  | v :: rest => by
    rw [List.forall_mem_cons]
    exact ⟨told_flat v, told_all rest⟩

/-- Fields of an object are told from their texts. -/
theorem told_fields : ∀ fields : List (String × Value), ∀ field ∈ fields, Told flatEntry field
  | [] => nofun
  | (key, v) :: rest => by
    rw [List.forall_mem_cons]
    exact ⟨told_field (told_flat v), told_fields rest⟩

end

/-- The text of a value tells the value. -/
theorem unlines_lines_injective {v w : Value} (h : unlines v.lines = unlines w.lines) : v = w := by
  have hlines : v.lines = w.lines :=
    unlines_injective (fun line hline => ((isLayout_lines v).2 line hline).2)
      (fun line hline => ((isLayout_lines w).2 line hline).2) h
  have hflat : v.flat ++ [] = w.flat ++ [] := by
    rw [← squeeze_lines v, hlines, squeeze_lines w]
  exact (told_flat v hflat).1

end Value

end LetFn.Json
