import LetFn.Failure
import LetFn.Proofs.Parser.Completeness
import LetFn.Proofs.Parser.Lookahead
import LetFn.Proofs.Parser.Soundness
import LetFn.Proofs.Token.Order

/-!
# What parsing says about a source

Three answers to "what does it mean that parsing said this?":

* a module is the tree that the grammar gives to the words of the source, and every such tree is
  found (`parseLines_iff_derives`);
* an unexpected word is the first with which no module can go on (`parseLines_blames_dead_end`);
* a source that ended too early is one that further lines can complete
  (`isIncomplete_iff_completable`).

All three rest on the productions being right by the grammar in both directions, and the last two
also on their looking no further than one token ahead: a word that is unexpected stays so whatever
comes after it.
-/

namespace LetFn

open Grammar

/-! ## Verdicts -/

namespace Lexed

theorem parse_eq_ok {l : Lexed} {m : Node} :
    l.parse = .ok m ↔ l.fault = none ∧ Parser.module l.tokens = .ok m := by
  unfold parse
  rcases Parser.module l.tokens with e | n <;> rcases l.fault with _ | fault
  · simp
  · by_cases hend : e.rest.isEmpty <;> simp [hend]
  · simp
  · simp

/-- A word, or the end, is unexpected where the module went wrong; but at the end of the tokens
only if no bad line ended them. -/
theorem parse_eq_unexpected {l : Lexed} {expected : Parser.Expected} {found : Option Word}
    {loc : Location} :
    l.parse = .error ⟨.unexpected expected found, loc⟩ ↔
      ∃ rest, Parser.module l.tokens = .error ⟨expected, rest⟩ ∧ (rest = [] → l.fault = none) ∧
        found = rest.head?.map Token.word ∧ loc = Parser.frontLoc rest := by
  unfold parse
  -- The four cases: a failure or a module, without a bad line or with one.
  rcases Parser.module l.tokens with ⟨expected', rest⟩ | n <;> rcases l.fault with _ | fault
  · simp only [ParseFault.ofFailed]
    constructor
    · rintro ⟨⟩
      exact ⟨rest, rfl, by simp, rfl, rfl⟩
    · rintro ⟨_, ⟨⟩, -, rfl, rfl⟩
      rfl
  · rcases rest with _ | ⟨token, rest⟩
    · simp [ParseFault.ofLexical]
    · simp only [ParseFault.ofFailed, List.isEmpty_cons, Bool.false_eq_true, if_false]
      constructor
      · rintro ⟨⟩
        exact ⟨_, rfl, by simp, rfl, rfl⟩
      · rintro ⟨_, ⟨⟩, -, rfl, rfl⟩
        rfl
  · simp
  · simp [ParseFault.ofLexical]

theorem fault_of_parse {l : Lexed} {cause : LexicalCause} {loc : Location}
    (h : l.parse = .error ⟨.lexical cause, loc⟩) : l.fault = some ⟨cause, loc⟩ := by
  unfold parse at h
  split at h
  · cases h
  · next hfault =>
    cases h
    exact hfault
  · cases h
  · next hfault =>
    split at h
    · cases h
      exact hfault
    · cases h

end Lexed

/-! ## Trees -/

/-- No words have two trees: tokens made up for them are parsed as both. -/
theorem Grammar.Module.unique {ws : List Word} {t u : Node} (ht : Module ws t) (hu : Module ws u) :
    t = u := by
  have hwords : (ws.map fun w => (⟨w, .unknown⟩ : Token)).map Token.word = ws := by
    simp [Function.comp_def]
  -- The parser is a function, so it cannot give two trees.
  rw [← hwords] at ht hu
  obtain ⟨m, hm, rfl⟩ := Parser.module_of_derives ht
  obtain ⟨n, hn, rfl⟩ := Parser.module_of_derives hu
  rw [hm] at hn
  cases hn
  rfl

/-- The tree that the grammar gives to the words of a source is found. -/
theorem parseLines_of_derives {lines : List Bytes} {t : Node}
    (hlex : (Lexed.ofLines lines).fault = none) (ht : Module (Lexed.ofLines lines).words t) :
    ∃ m, parseLines lines = .ok m ∧ m.erase = t := by
  obtain ⟨m, hm, hmt⟩ := Parser.module_of_derives ht
  exact ⟨m, Lexed.parse_eq_ok.mpr ⟨hlex, hm⟩, hmt⟩

/-- Parsing accepts exactly the words of modules and builds the tree that the grammar gives them,
which is the only one. -/
theorem parseLines_iff_derives (lines : List Bytes) (hlex : (Lexed.ofLines lines).fault = none) :
    (∀ t, (∃ m, parseLines lines = .ok m ∧ m.erase = t) ↔ Module (Lexed.ofLines lines).words t) ∧
      ∀ ws t u, Module ws t → Module ws u → t = u := by
  refine ⟨fun t => ⟨?_, ?_⟩, fun ws t u => Grammar.Module.unique⟩
  · rintro ⟨m, hm, rfl⟩
    exact Parser.derives_of_module (Lexed.parse_eq_ok.mp hm).2
  · intro ht
    obtain ⟨m, hm, hmt⟩ := Parser.module_of_derives ht
    exact ⟨m, Lexed.parse_eq_ok.mpr ⟨hlex, hm⟩, hmt⟩

/-- The lines `5 - 2` and `- 3 * 2 ** -1;`. -/
def sampleLines : List Bytes := [Text.utf8 "5 - 2", Text.utf8 "- 3 * 2 ** -1;"]

/-- The tree of `sampleLines`. -/
def sampleTree : Node :=
  .module .unknown [.expression .unknown .sub
    (.expression .unknown .sub (.literal .unknown (Text.utf8 "5"))
      (.literal .unknown (Text.utf8 "2")))
    (.expression .unknown .mul (.literal .unknown (Text.utf8 "3"))
      (.expression .unknown .pow (.literal .unknown (Text.utf8 "2"))
        (.expression .unknown .sub (.literal .unknown (Text.utf8 "0"))
          (.literal .unknown (Text.utf8 "1")))))]

theorem derives_sampleTree :
    (Lexed.ofLines sampleLines).fault = none ∧
      Module (Lexed.ofLines sampleLines).words sampleTree := by
  have hlex : (Lexed.ofLines sampleLines).fault = none := by decide +kernel
  have hsame : (match parseLines sampleLines with
      | .ok m => m.same sampleTree
      | .error _ => false) = true := by decide +kernel
  refine ⟨hlex, ((parseLines_iff_derives _ hlex).1 _).mp ?_⟩
  split at hsame
  · next m hm => exact ⟨m, hm, Node.erase_eq_of_same hsame⟩
  · cases hsame

/-! ## Unexpected words

The word that is blamed is the first that no module can have there: what stands before it can be
completed, and with it nothing can. Indices of tokens and their locations tell each other. -/

/-- The word at index `k` is the first with which no module can go on. -/
def Grammar.DeadEnd (ws : List Word) (k : Nat) : Prop :=
  ¬ Viable (ws.take (k + 1)) ∧ ∀ j < k, Viable (ws.take (j + 1))

namespace Grammar

theorem Viable.take {ws : List Word} (h : Viable ws) (n : Nat) : Viable (ws.take n) := by
  obtain ⟨more, t, ht⟩ := h
  refine ⟨ws.drop n ++ more, t, ?_⟩
  rw [← List.append_assoc, List.take_append_drop]
  exact ht

theorem DeadEnd.unique {ws : List Word} {j k : Nat} (hj : DeadEnd ws j) (hk : DeadEnd ws k) :
    j = k := by
  rcases Nat.lt_trichotomy j k with hlt | heq | hgt
  · exact absurd (hk.2 j hlt) hj.1
  · exact heq
  · exact absurd (hj.2 k hgt) hk.1

end Grammar

namespace Parser

/-- A parsed module, and one that ends too early, can be continued after every word. -/
theorem viable_of_module {ts : List Token}
    (h : ∀ expected token rest, module ts ≠ .error ⟨expected, token :: rest⟩) :
    Viable (ts.map Token.word) := by
  rcases hts : module ts with ⟨expected, rest⟩ | m
  · rcases rest with _ | ⟨token, rest⟩
    · obtain ⟨taken, more, t, htaken, -, ht⟩ := completes_of_module hts
      rw [htaken, List.append_nil]
      exact ⟨more, t, ht⟩
    · exact absurd hts (h expected token rest)
  · refine ⟨[], m.erase, ?_⟩
    rw [List.append_nil]
    exact derives_of_module hts

/-- With an unexpected token no module can go on. -/
theorem not_viable_of_stuck {taken rest : List Token} {token : Token} {expected : Expected}
    (h : module (taken ++ token :: rest) = .error ⟨expected, token :: rest⟩) :
    ¬ Viable ((taken ++ [token]).map Token.word) := by
  rintro ⟨more, t, ht⟩
  have hstuck := module_error_of_stuck h (more.map fun w => ⟨w, .unknown⟩)
  have hwords : (taken ++ token :: more.map fun w => ⟨w, .unknown⟩).map Token.word =
      (taken ++ [token]).map Token.word ++ more := by
    simp [Function.comp_def]
  rw [← hwords] at ht
  obtain ⟨m, hm, -⟩ := module_of_derives ht
  rw [hm] at hstuck
  cases hstuck

/-- A module goes wrong at its dead end. -/
theorem deadEnd_of_module {ts rest : List Token} {token : Token} {expected : Expected}
    (h : module ts = .error ⟨expected, token :: rest⟩) :
    ∃ taken, ts = taken ++ token :: rest ∧ DeadEnd (ts.map Token.word) taken.length := by
  obtain ⟨taken, more, t, rfl, -, ht⟩ := completes_of_module h
  refine ⟨taken, rfl, ?_, ?_⟩
  · have htake : ((taken ++ token :: rest).map Token.word).take (taken.length + 1) =
        (taken ++ [token]).map Token.word := by
      simp [List.take_append, List.take_of_length_le]
    rw [htake]
    exact not_viable_of_stuck h
  · intro j hj
    have htake : ((taken ++ token :: rest).map Token.word).take (j + 1) =
        (taken.map Token.word).take (j + 1) := by
      rw [List.map_append, List.take_append_of_le_length (by rw [List.length_map]; exact hj)]
    rw [htake]
    exact Viable.take ⟨more, t, ht⟩ (j + 1)

end Parser

theorem Token.index_eq_of_loc_eq {ts : List Token}
    (h : ts.Pairwise fun s t => s.loc.Before t.loc) {j k : Nat} (hj : j < ts.length)
    (hk : k < ts.length) (hloc : ts[j].loc = ts[k].loc) : j = k := by
  rw [List.pairwise_iff_getElem] at h
  rcases Nat.lt_trichotomy j k with hlt | heq | hgt
  · exact absurd hloc (h j k hj hk hlt).ne
  · exact heq
  · exact absurd hloc.symm (h k j hk hj hgt).ne

namespace Lexed

/-- Where no two tokens stand in the same place, the blame is on the dead end. -/
theorem parse_blames_iff {l : Lexed} (hplaces : l.tokens.Pairwise fun s t => s.loc.Before t.loc)
    {k : Nat} (hk : k < l.tokens.length) :
    (∃ expected found,
        l.parse = .error ⟨.unexpected expected (some found), l.tokens[k].loc⟩) ↔
      DeadEnd l.words k := by
  constructor
  · rintro ⟨expected, found, h⟩
    obtain ⟨rest, hmodule, -, hfound, hloc⟩ := parse_eq_unexpected.mp h
    rcases rest with _ | ⟨token, rest⟩
    · cases hfound
    obtain ⟨taken, htokens, hdead⟩ := Parser.deadEnd_of_module hmodule
    have hlt : taken.length < l.tokens.length := by simp [htokens]
    have htoken : l.tokens[taken.length] = token := by simp [htokens]
    -- The report gives a location and no index, so locations must tell the tokens apart.
    have hindex : k = taken.length := by
      apply Token.index_eq_of_loc_eq hplaces hk hlt
      rw [hloc, htoken]
      rfl
    rw [hindex]
    exact hdead
  · intro hdead
    -- Either a word is unexpected, and it is the dead end, or the words can begin a module and
    -- there is none.
    by_cases hstuck : ∃ expected token rest,
        Parser.module l.tokens = .error ⟨expected, token :: rest⟩
    · obtain ⟨expected, token, rest, hmodule⟩ := hstuck
      obtain ⟨taken, htokens, htaken⟩ := Parser.deadEnd_of_module hmodule
      obtain rfl : k = taken.length := hdead.unique htaken
      refine ⟨expected, token.word, parse_eq_unexpected.mpr ⟨_, hmodule, by simp, rfl, ?_⟩⟩
      simp [htokens, Parser.frontLoc]
    · have hviable := Parser.viable_of_module fun expected token rest h =>
        hstuck ⟨expected, token, rest, h⟩
      exact absurd (hviable.take (k + 1)) hdead.1

/-- The end of a source has no place; every word of it has one. -/
theorem unknown_iff_of_parse {l : Lexed} (hlines : ∀ t ∈ l.tokens, t.loc ≠ .unknown)
    {expected : Parser.Expected} {found : Option Word} {loc : Location}
    (h : l.parse = .error ⟨.unexpected expected found, loc⟩) : loc = .unknown ↔ found = none := by
  obtain ⟨rest, hmodule, -, rfl, rfl⟩ := parse_eq_unexpected.mp h
  rcases rest with _ | ⟨token, rest⟩
  · simp [Parser.frontLoc]
  · obtain ⟨taken, htokens, -⟩ := Parser.deadEnd_of_module hmodule
    have hloc := hlines token (by simp [htokens])
    simpa [Parser.frontLoc] using hloc

end Lexed

/-- The word at index `k` of a source is reported as unexpected exactly if it is the first with
which no module can go on, and the place of a report is unknown exactly if it is about the end.
This holds for the words in front of a bad line as well as for sources that have none. -/
theorem parseLines_blames_dead_end (lines : List Bytes) (hlines : lines.length < UInt32.size)
    (hsnippets : ∀ line ∈ lines, (Snippet.segment line).1.length < UInt32.size) :
    (∀ (k : Nat) (hk : k < (Lexed.ofLines lines).tokens.length),
      (∃ expected found, parseLines lines =
        .error ⟨.unexpected expected (some found), (Lexed.ofLines lines).tokens[k].loc⟩) ↔
      DeadEnd (Lexed.ofLines lines).words k) ∧
      ∀ expected found loc, parseLines lines = .error ⟨.unexpected expected found, loc⟩ →
        (loc = .unknown ↔ found = none) := by
  have hnumbers : (1 : UInt32).toNat + lines.length ≤ UInt32.size := by
    rw [Nat.add_comm]
    exact hlines
  constructor
  · intro k hk
    exact Lexed.parse_blames_iff (Lexed.pairwise_before_tokens hnumbers hsnippets) hk
  · intro expected found loc h
    refine Lexed.unknown_iff_of_parse ?_ h
    intro t ht hunknown
    have hline := Lexed.line_of_mem_tokens hnumbers t ht
    rw [hunknown] at hline
    exact absurd hline (by decide)

/-- The lines `x;` and `y 2;`. -/
def wrongLines : List Bytes := [Text.utf8 "x;", Text.utf8 "y 2;"]

theorem deadEnd_wrongLines :
    wrongLines.length < UInt32.size ∧
      (∀ line ∈ wrongLines, (Snippet.segment line).1.length < UInt32.size) ∧
      DeadEnd (Lexed.ofLines wrongLines).words 3 := by
  have hsnippets : ∀ line ∈ wrongLines, (Snippet.segment line).1.length < UInt32.size := by
    decide +kernel
  have hlength : 3 < (Lexed.ofLines wrongLines).tokens.length := by decide +kernel
  have hblame : (match parseLines wrongLines with
      | .ok _ => none
      | .error f => some f) =
      some ⟨.unexpected .semicolon (some (.literal (Text.utf8 "2"))),
        (Lexed.ofLines wrongLines).tokens[3].loc⟩ := by
    revert hlength
    decide +kernel
  refine ⟨by decide, hsnippets, ?_⟩
  apply ((parseLines_blames_dead_end _ (by decide) hsnippets).1 3 hlength).mp
  split at hblame
  · cases hblame
  · next f hf =>
    cases hblame
    exact ⟨_, _, hf⟩

/-! ## Sources that end too early

When the end itself is unexpected, what was read can be completed; when a word is, nothing that
follows can help. -/

theorem Failure.isIncomplete_ofParseFault (f : ParseFault) :
    (ofParseFault f).isIncomplete = f.cause.isIncomplete := by
  rcases f with ⟨_ | ⟨expected, _ | word⟩, loc⟩ <;> rfl

theorem ParseCause.isIncomplete_iff {cause : ParseCause} :
    cause.isIncomplete = true ↔ ∃ expected, cause = .unexpected expected none := by
  rcases cause with _ | ⟨expected, _ | word⟩ <;> simp [isIncomplete]

/-- Where the tokens ran out, a line can be written down that completes the source. -/
theorem completable_of_module {lines : List Bytes} {expected : Parser.Expected}
    (hlex : (Lexed.ofLines lines).fault = none)
    (h : Parser.module (Lexed.ofLines lines).tokens = .error ⟨expected, []⟩) :
    ∃ more m, parseLines (lines ++ more) = .ok m := by
  obtain ⟨taken, words, t, htaken, hlexical, ht⟩ := Parser.completes_of_module h
  rw [List.append_nil] at htaken
  have hline : ReadsLines [spellOut words] (words ++ []) :=
    readsLines_cons (reads_spellOut hlexical) readsLines_nil
  obtain ⟨hfault, hwords⟩ := hline (1 + UInt32.ofNat lines.length)
  have happend := Lexed.ofLinesFrom_append [spellOut words] hlex
  rw [List.append_nil] at hwords
  rw [← htaken, ← hwords, Lexed.words, ← List.map_append] at ht
  obtain ⟨m, hm, -⟩ := Parser.module_of_derives ht
  refine ⟨[spellOut words], m, Lexed.parse_eq_ok.mpr ?_⟩
  rw [Lexed.ofLines, happend]
  exact ⟨hfault, hm⟩

theorem fault_of_completable {lines more : List Bytes} {m : Node}
    (h : parseLines (lines ++ more) = .ok m) : (Lexed.ofLines lines).fault = none := by
  rcases hlex : (Lexed.ofLines lines).fault with _ | fault
  · rfl
  · have happend := Lexed.ofLinesFrom_append_of_fault more hlex
    have hnone := (Lexed.parse_eq_ok.mp h).1
    rw [Lexed.ofLines, happend] at hnone
    exact hlex.symm.trans hnone

/-- Further lines mend a source only if its tokens ran out: a word stays unexpected. -/
theorem rest_of_completable {lines more : List Bytes} {m : Node}
    (h : parseLines (lines ++ more) = .ok m) {expected : Parser.Expected} {rest : List Token}
    (hmodule : Parser.module (Lexed.ofLines lines).tokens = .error ⟨expected, rest⟩) :
    rest = [] := by
  rcases rest with _ | ⟨token, rest⟩
  · rfl
  have happend := Lexed.ofLinesFrom_append more (fault_of_completable h)
  have hm := (Lexed.parse_eq_ok.mp h).2
  rw [Lexed.ofLines, happend] at hm
  obtain ⟨taken, htaken, -⟩ := Parser.deadEnd_of_module hmodule
  rw [htaken] at hmodule
  have hstuck := Parser.module_error_of_stuck hmodule
    (rest ++ (Lexed.ofLinesFrom (1 + UInt32.ofNat lines.length) more).tokens)
  rw [← List.cons_append, ← List.append_assoc, ← htaken] at hstuck
  cases hm.symm.trans hstuck

/-- Parsing calls a source incomplete exactly if it is no module but further lines make it one. -/
theorem isIncomplete_iff_completable (lines : List Bytes) :
    (∃ f, parseLines lines = .error f ∧ (Failure.ofParseFault f).isIncomplete = true) ↔
      (∃ f, parseLines lines = .error f) ∧ ∃ more m, parseLines (lines ++ more) = .ok m := by
  constructor
  · rintro ⟨⟨cause, loc⟩, hf, hincomplete⟩
    rw [Failure.isIncomplete_ofParseFault, ParseCause.isIncomplete_iff] at hincomplete
    obtain ⟨expected, rfl⟩ := hincomplete
    obtain ⟨rest, hmodule, hlex, hfound, -⟩ := Lexed.parse_eq_unexpected.mp hf
    rcases rest with _ | ⟨token, rest⟩
    · exact ⟨⟨_, hf⟩, completable_of_module (hlex rfl) hmodule⟩
    · cases hfound
  · rintro ⟨⟨f, hf⟩, more, m, hm⟩
    have hlex := fault_of_completable hm
    rcases hmodule : Parser.module (Lexed.ofLines lines).tokens with ⟨expected, rest⟩ | n
    · obtain rfl := rest_of_completable hm hmodule
      exact ⟨_, Lexed.parse_eq_unexpected.mpr ⟨[], hmodule, fun _ => hlex, rfl, rfl⟩, rfl⟩
    · have hok : parseLines lines = .ok n := Lexed.parse_eq_ok.mpr ⟨hlex, hmodule⟩
      rw [hok] at hf
      cases hf

end LetFn
