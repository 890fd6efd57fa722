import LetFn.Proofs.Parse.Append

/-!
# Line breaks make no difference

Two sources with the same words in the same order may break them over lines in any way. The parser
is told the words and takes the locations along, so it comes to the same verdict on both: trees that
differ in their locations only, each location being that of the same token in the one source and in
the other, or the same complaint about the same token (`parseLines_layout`).
-/

namespace LetFn

variable {R : Location → Location → Prop}

/-! ## Tokens of the same index

Productions look at words, never at locations, so two lists of tokens with the same words give trees
that differ in locations only. The relation between locations is that of tokens of the same
index. -/

/-- The locations of two tokens of the same index, or of no token twice if there are none. -/
inductive Location.Paired (ts us : List Token) : Location → Location → Prop
  | token {k : Nat} {t u : Token} : ts[k]? = some t → us[k]? = some u → Paired ts us t.loc u.loc
  | unknown : ts = [] → us = [] → Paired ts us .unknown .unknown

namespace Parser

/-- Tokens with the same words are the same up to the locations of tokens of the same index. -/
theorem sameWords_paired {ts us : List Token} (h : ts.map Token.word = us.map Token.word) :
    SameWords (Location.Paired ts us) ts us := by
  have hlength : ts.length = us.length := by simpa using congrArg List.length h
  refine List.forall₂_iff_get.mpr ⟨hlength, fun k hts hus => ?_⟩
  have hword : (ts.get ⟨k, hts⟩).word = (us.get ⟨k, hus⟩).word := by
    simpa [hts, hus] using congrArg (·[k]?) h
  have hloc : Location.Paired ts us (ts.get ⟨k, hts⟩).loc (us.get ⟨k, hus⟩).loc :=
    .token (List.getElem?_eq_getElem hts) (List.getElem?_eq_getElem hus)
  generalize ts.get ⟨k, hts⟩ = t at hword hloc ⊢
  generalize us.get ⟨k, hus⟩ = u at hword hloc ⊢
  obtain ⟨word, a⟩ := t
  obtain ⟨_, b⟩ := u
  obtain rfl : word = _ := hword
  exact .mk hloc

theorem SameWords.head?_word {ts us : List Token} (h : SameWords R ts us) :
    us.head?.map Token.word = ts.head?.map Token.word := by
  cases h with
  | nil => rfl
  | cons htoken _ =>
    obtain ⟨_⟩ := htoken
    rfl

/-- The same words make up modules that differ in their locations only, or fail to make up one in
front of the same words. -/
theorem relocated_module {ts us : List Token} (h : SameWords R ts us)
    (hnil : ts = [] → R .unknown .unknown) :
    (∃ m n, module ts = .ok m ∧ module us = .ok n ∧ m.Relocated R n) ∨
      ∃ expected left left', module ts = .error ⟨expected, left⟩ ∧
        module us = .error ⟨expected, left'⟩ ∧ SameWords R left left' := by
  have hprogram := relocated_program h
  generalize hts : program ts = o at hprogram
  generalize hus : program us = o' at hprogram
  cases hprogram with
  | ok hstmts hleft =>
    have hfront : R (frontLoc ts) (frontLoc us) := by
      cases h with
      | nil => exact hnil rfl
      | cons htoken _ =>
        obtain ⟨hloc⟩ := htoken
        exact hloc
    exact .inl ⟨_, _, module_of_program hts, module_of_program hus, .module hfront hstmts⟩
  | error hleft =>
    exact .inr ⟨_, _, _, module_eq_error.mpr hts, module_eq_error.mpr hus, hleft⟩

/-- Where a module went wrong, some of the tokens had been taken. -/
theorem rest_of_module {ts : List Token} {e : Failed} (h : module ts = .error e) :
    e.rest = ts.drop (ts.length - e.rest.length) := by
  obtain ⟨taken, more, t, hts, -, -⟩ := completes_of_module h
  conv_rhs => rw [hts]
  simp

end Parser

/-! ## Verdicts -/

/-- Two sources of the same words, without a bad line, have trees of the same shape, operators and
texts, where any location of the one tree and its counterpart in the other are those of tokens of
the same index. Or else both are refused because something else was expected of the token of some
index `k`, and that is the same in both; or of the end, which has no location in either. -/
theorem parseLines_layout (as bs : List Bytes) (has : (Lexed.ofLines as).fault = none)
    (hbs : (Lexed.ofLines bs).fault = none)
    (hwords : (Lexed.ofLines as).words = (Lexed.ofLines bs).words) :
    (∃ m n, parseLines as = .ok m ∧ parseLines bs = .ok n ∧
      m.Relocated (Location.Paired (Lexed.ofLines as).tokens (Lexed.ofLines bs).tokens) n) ∨
      ∃ expected found k, found = (Lexed.ofLines as).words[k]? ∧
        parseLines as = .error ⟨.unexpected expected found,
          Parser.frontLoc ((Lexed.ofLines as).tokens.drop k)⟩ ∧
        parseLines bs = .error ⟨.unexpected expected found,
          Parser.frontLoc ((Lexed.ofLines bs).tokens.drop k)⟩ := by
  have hsame := Parser.sameWords_paired hwords
  have hlength := hsame.length_eq
  have hmodule := Parser.relocated_module hsame fun hnil =>
    .unknown hnil (List.length_eq_zero_iff.mp (by rw [← hlength, hnil]; rfl))
  -- Either both have trees, or both were refused in front of the same words.
  rcases hmodule with ⟨m, n, hm, hn, htree⟩ | ⟨expected, left, left', hm, hn, hleft⟩
  · exact .inl ⟨m, n, Lexed.parse_eq_ok.mpr ⟨has, hm⟩, Lexed.parse_eq_ok.mpr ⟨hbs, hn⟩, htree⟩
  · refine .inr ⟨expected, left.head?.map Token.word,
      (Lexed.ofLines as).tokens.length - left.length, ?_, ?_, ?_⟩
    · rw [Lexed.words, List.getElem?_map, ← List.head?_drop, ← Parser.rest_of_module hm]
    · rw [← Parser.rest_of_module hm]
      exact Lexed.parse_eq_unexpected.mpr ⟨left, hm, fun _ => has, rfl, rfl⟩
    · rw [hlength, hleft.length_eq, ← Parser.rest_of_module hn, ← hleft.head?_word]
      exact Lexed.parse_eq_unexpected.mpr ⟨left', hn, fun _ => hbs, rfl, rfl⟩

/-- A binding and a name, on one line. -/
def packedLines : List Bytes := [Text.utf8 "let f = fn(a: t): t \x7b -a ** 2; \x7d; f;"]

/-- The words of `packedLines`, on more lines than there is need for. -/
def spreadLines : List Bytes :=
  [Text.utf8 "let f", Text.utf8 "= fn ( a:t ): // type", Text.utf8 "t", [], Text.utf8 "\x7b- a**",
    Text.utf8 "2;", Text.utf8 "\x7d;f;"]

/-- A sum that is not closed, with a word too many. -/
def packedSum : List Bytes := [Text.utf8 "(a + b c"]

/-- The words of `packedSum`, on more lines. -/
def spreadSum : List Bytes := [Text.utf8 "(", Text.utf8 "a +b", [], Text.utf8 "  c"]

theorem parseLines_layout_packedLines :
    ((Lexed.ofLines packedLines).fault = none ∧ (Lexed.ofLines spreadLines).fault = none ∧
      (Lexed.ofLines packedLines).words = (Lexed.ofLines spreadLines).words ∧
      ∃ m n, parseLines packedLines = .ok m ∧ parseLines spreadLines = .ok n ∧
        m.Relocated (Location.Paired (Lexed.ofLines packedLines).tokens
          (Lexed.ofLines spreadLines).tokens) n) ∧
      (Lexed.ofLines packedSum).fault = none ∧ (Lexed.ofLines spreadSum).fault = none ∧
      (Lexed.ofLines packedSum).words = (Lexed.ofLines spreadSum).words ∧
      ∃ f g, parseLines packedSum = .error f ∧ parseLines spreadSum = .error g ∧
        g.cause = f.cause ∧ f.loc = ⟨1, 4⟩ ∧ g.loc = ⟨4, 0⟩ := by
  have hlines : (Lexed.ofLines packedLines).fault = none ∧ (Lexed.ofLines spreadLines).fault = none ∧
      (Lexed.ofLines packedLines).words = (Lexed.ofLines spreadLines).words := by decide +kernel
  have hsum : (Lexed.ofLines packedSum).fault = none ∧ (Lexed.ofLines spreadSum).fault = none ∧
      (Lexed.ofLines packedSum).words = (Lexed.ofLines spreadSum).words := by decide +kernel
  have hok : (parseLines packedLines).isOk = true := by decide +kernel
  have hplaces : (match parseLines packedSum, parseLines spreadSum with
      | .error f, .error g => some (f.loc, g.loc)
      | _, _ => none) = some (⟨1, 4⟩, ⟨4, 0⟩) := by decide +kernel
  refine ⟨⟨hlines.1, hlines.2.1, hlines.2.2, ?_⟩, hsum.1, hsum.2.1, hsum.2.2, ?_⟩
  · rcases parseLines_layout _ _ hlines.1 hlines.2.1 hlines.2.2 with h | ⟨_, _, _, -, hm, -⟩
    · exact h
    · rw [hm] at hok
      cases hok
  · rcases parseLines_layout _ _ hsum.1 hsum.2.1 hsum.2.2 with ⟨m, n, hm, -⟩ | ⟨_, _, k, -, hm, hn⟩
    · rw [hm] at hplaces
      cases hplaces
    · rw [hm, hn] at hplaces
      obtain ⟨ha, hb⟩ := Prod.mk.inj (Option.some.inj hplaces)
      exact ⟨_, _, hm, hn, rfl, ha, hb⟩

end LetFn
