import LetFn.Proofs.Token.Reading

/-!
# Where tokens stand

Lines are made into tokens one after the other, so the tokens of two groups of lines are those of
the first and then those of the second, and a bad line cuts off all that follows
(`ofLinesFrom_append`, `ofLinesFrom_append_of_fault`). As long as no number wraps, tokens stand in
the order of their locations (`pairwise_before_tokens`): no two have the same one, and none is at
the unknown location.
-/

namespace LetFn

/-- The first location is in an earlier line, or further left in the same line. -/
def Location.Before (a b : Location) : Prop :=
  a.line < b.line ∨ a.line = b.line ∧ a.column < b.column

theorem Location.Before.ne {a b : Location} (h : a.Before b) : a ≠ b := by
  rintro rfl
  rcases h with h | ⟨-, h⟩
  · exact absurd h (UInt32.lt_irrefl _)
  · exact absurd h (UInt32.lt_irrefl _)

/-! ## One line -/

namespace Token

/-- The tokens of a line bear its number. -/
theorem line_of_mem_ofSnippets {n : UInt32} {column : Nat} {snippets : List Snippet}
    {tokens : List Token} (h : ofSnippets n column snippets = .ok tokens) :
    ∀ t ∈ tokens, t.loc.line = n := by
  induction snippets generalizing column tokens with
  | nil =>
    cases h
    simp
  | cons s rest ih =>
    obtain ⟨w, more, -, hmore, rfl⟩ := ofSnippets_cons h
    intro t ht
    rcases List.mem_cons.mp ht with rfl | ht
    · rfl
    · exact ih hmore t ht

theorem column_of_mem_ofSnippets {n : UInt32} {column : Nat} {snippets : List Snippet}
    {tokens : List Token} (h : ofSnippets n column snippets = .ok tokens)
    (hcolumn : column + snippets.length ≤ UInt32.size) :
    ∀ t ∈ tokens, column ≤ t.loc.column.toNat := by
  induction snippets generalizing column tokens with
  | nil =>
    cases h
    simp
  | cons s rest ih =>
    obtain ⟨w, more, -, hmore, rfl⟩ := ofSnippets_cons h
    simp only [List.length_cons] at hcolumn
    intro t ht
    rcases List.mem_cons.mp ht with rfl | ht
    · have hsame : (UInt32.ofNat column).toNat = column := UInt32.toNat_ofNat_of_lt' (by omega)
      exact Nat.le_of_eq hsame.symm
    · have hle := ih hmore (by omega) t ht
      omega

theorem pairwise_before_ofSnippets {n : UInt32} {column : Nat} {snippets : List Snippet}
    {tokens : List Token} (h : ofSnippets n column snippets = .ok tokens)
    (hcolumn : column + snippets.length ≤ UInt32.size) :
    tokens.Pairwise fun s t => s.loc.Before t.loc := by
  induction snippets generalizing column tokens with
  | nil =>
    cases h
    exact .nil
  | cons s rest ih =>
    obtain ⟨w, more, -, hmore, rfl⟩ := ofSnippets_cons h
    simp only [List.length_cons] at hcolumn
    refine .cons ?_ (ih hmore (by omega))
    intro t ht
    have hline := line_of_mem_ofSnippets hmore t ht
    have hle := column_of_mem_ofSnippets hmore (by omega) t ht
    refine .inr ⟨hline.symm, ?_⟩
    rw [UInt32.lt_iff_toNat_lt]
    simp only [UInt32.toNat_ofNat']
    omega

end Token

/-! ## Several lines

Numbers of lines grow from line to line, as long as there are fewer lines than numbers. Columns grow
within a line. -/

namespace Lexed

theorem add_one_add_ofNat (n : UInt32) (i : Nat) :
    n + 1 + UInt32.ofNat i = n + UInt32.ofNat (i + 1) := by
  rw [UInt32.ofNat_add, UInt32.add_assoc, UInt32.add_comm 1]
  rfl

theorem ofLinesFrom_append {n : UInt32} {as : List Bytes} (bs : List Bytes)
    (h : (ofLinesFrom n as).fault = none) :
    ofLinesFrom n (as ++ bs) =
      ⟨(ofLinesFrom n as).tokens ++ (ofLinesFrom (n + UInt32.ofNat as.length) bs).tokens,
        (ofLinesFrom (n + UInt32.ofNat as.length) bs).fault⟩ := by
  induction as generalizing n with
  | nil => simp [ofLinesFrom]
  | cons line rest ih =>
    rw [List.cons_append, ofLinesFrom]
    rw [ofLinesFrom] at h
    rcases hline : Token.ofLine n line with fault | tokens
    · simp [hline] at h
    · simp only [hline] at h
      simp only [ofLinesFrom, hline, ih h, add_one_add_ofNat, List.length_cons, List.append_assoc]

/-- A bad line cuts off what follows. -/
theorem ofLinesFrom_append_of_fault {n : UInt32} {as : List Bytes} (bs : List Bytes)
    {fault : LexicalFault} (h : (ofLinesFrom n as).fault = some fault) :
    ofLinesFrom n (as ++ bs) = ofLinesFrom n as := by
  induction as generalizing n with
  | nil => simp [ofLinesFrom] at h
  | cons line rest ih =>
    rw [List.cons_append, ofLinesFrom, ofLinesFrom]
    rw [ofLinesFrom] at h
    rcases hline : Token.ofLine n line with fault | tokens
    · rfl
    · simp only [hline] at h
      simp only [ih h]

theorem toNat_succ {n : UInt32} (h : n.toNat + 1 < UInt32.size) : (n + 1).toNat = n.toNat + 1 := by
  rw [UInt32.toNat_add, UInt32.toNat_one]
  exact Nat.mod_eq_of_lt h

theorem toNat_lineNumber {k : Nat} (h : k + 1 < UInt32.size) :
    ((1 : UInt32) + UInt32.ofNat k).toNat = k + 1 := by
  have hcount : (UInt32.ofNat k).toNat = k := UInt32.toNat_ofNat_of_lt' (by omega)
  rw [UInt32.add_comm, toNat_succ (by rw [hcount]; exact h), hcount]

/-- No line number wraps to one below the first. -/
theorem line_of_mem_tokens {n : UInt32} {lines : List Bytes}
    (hlines : n.toNat + lines.length ≤ UInt32.size) :
    ∀ t ∈ (ofLinesFrom n lines).tokens, n.toNat ≤ t.loc.line.toNat := by
  induction lines generalizing n with
  | nil => simp [ofLinesFrom]
  | cons line rest ih =>
    simp only [List.length_cons] at hlines
    rw [ofLinesFrom]
    split
    · simp
    · next tokens hline =>
      intro t ht
      rcases List.mem_append.mp ht with ht | ht
      · have hloc := Token.line_of_mem_ofSnippets (Token.ofLine_eq_ok hline) t ht
        exact Nat.le_of_eq (congrArg UInt32.toNat hloc.symm)
      · have hrest : 0 < rest.length := by
          rcases rest with _ | ⟨_, _⟩
          · simp [ofLinesFrom] at ht
          · simp
        have hsucc := toNat_succ (n := n) (by omega)
        have hle := ih (by omega) t ht
        omega

/-- Tokens stand in the order of their locations. -/
theorem pairwise_before_tokens {n : UInt32} {lines : List Bytes}
    (hlines : n.toNat + lines.length ≤ UInt32.size)
    (hcolumns : ∀ line ∈ lines, (Snippet.segment line).1.length < UInt32.size) :
    (ofLinesFrom n lines).tokens.Pairwise fun s t => s.loc.Before t.loc := by
  induction lines generalizing n with
  | nil => exact .nil
  | cons line rest ih =>
    simp only [List.length_cons] at hlines
    rw [ofLinesFrom]
    split
    · exact .nil
    · next tokens hline =>
      have hsnippets := Token.ofLine_eq_ok hline
      have hcolumn := hcolumns line (by simp)
      rcases rest with _ | ⟨next, rest⟩
      · simp only [ofLinesFrom, List.append_nil]
        exact Token.pairwise_before_ofSnippets hsnippets (by omega)
      · simp only [List.length_cons] at hlines
        have hsucc := toNat_succ (n := n) (by omega)
        have hbound : (n + 1).toNat + (next :: rest).length ≤ UInt32.size := by
          rw [List.length_cons]
          omega
        refine List.pairwise_append.mpr ⟨Token.pairwise_before_ofSnippets hsnippets (by omega),
          ih hbound fun l hl => hcolumns l (by simp [hl]), ?_⟩
        -- A token of this line stands before every token of the later ones.
        intro s hs t ht
        have hline := Token.line_of_mem_ofSnippets hsnippets s hs
        have hle := line_of_mem_tokens hbound t ht
        refine .inl ?_
        rw [UInt32.lt_iff_toNat_lt, hline]
        omega

theorem pairwise_before_ofLines {lines : List Bytes} (hlines : lines.length < UInt32.size)
    (hcolumns : ∀ line ∈ lines, (Snippet.segment line).1.length < UInt32.size) :
    (ofLines lines).tokens.Pairwise fun s t => s.loc.Before t.loc := by
  refine pairwise_before_tokens ?_ hcolumns
  rw [UInt32.toNat_one]
  omega

end Lexed

end LetFn
