import LetFn.Proofs.Parse
import LetFn.Proofs.Parser.Relocation
import LetFn.Proofs.Token.Line

/-!
# Sources one after the other

A source that is a module ends behind a semicolon, and there the parser is where it began: it has
taken every token and decides by nothing that it has seen (`program_append`). What follows is parsed
as if it stood alone, except that its lines have other numbers, and locations are only passed
through (`relocated_program`).

So the statements of two sources, one after the other, are the statements of the first and then
those of the second, further down; and a fault of the second is the same fault, further down
(`parseLines_append`). The other way round, a module that begins with a module goes on with one
(`parseLines_cut`).
-/

namespace LetFn

variable {R : Location → Location → Prop}

/-! ## Statements end for good

A production may look at the token behind what it takes, but a statement ends with a semicolon, and
that it takes. So it does not see what follows. -/

namespace Parser

/-- A statement is something that looks one token ahead, and a semicolon. -/
theorem statement_closed (ts : List Token) :
    ∃ inner : List Token → Outcome Node, LooksOneAhead inner ts ∧
      ∀ us, us.head? = ts.head? →
        (statement us).outcome = (inner us).andThen fun x left =>
          (want .semicolon .semicolon left).outcome.andThen fun _ left => .ok (x, left) := by
  -- A binding is closed by the semicolon behind its value, any other statement by that behind an
  -- expression.
  rcases operator_or_other .bind ts with ⟨loc, rest, rfl⟩ | hother
  · refine ⟨fun us => (bindingName us.tail).outcome.andThen fun name left =>
      (want .assign .assignment left).outcome.andThen fun _ left =>
        (expression left).outcome.andThen fun value left =>
          .ok (.expression loc .bind name value, left), ?_, ?_⟩
    · refine .cons (fun _ => rfl) ?_
      refine .andThen_const (looksOneAhead_bindingName rest) fun name left _ => ?_
      refine .andThen_const (looksOneAhead_want .assign .assignment left) fun _ left _ => ?_
      exact .andThen_const (looksOneAhead_expression left) fun value left _ => .pure _ left
    · intro us hus
      obtain ⟨more, rfl⟩ := List.head?_eq_some_iff.mp hus
      rw [outcome_statement_binding]
      simp only [List.tail_cons, Outcome.andThen_assoc, Outcome.andThen_ok]
  · refine ⟨fun us => (expression us).outcome, looksOneAhead_expression ts, ?_⟩
    intro us hus
    apply outcome_statement_expression
    rw [hus]
    exact hother

/-- Nothing behind its semicolon changes a statement. -/
theorem statement_append {ts left : List Token} {x : Node}
    (h : (statement ts).outcome = .ok (x, left)) (us : List Token) :
    (statement (ts ++ us)).outcome = .ok (x, left ++ us) := by
  have hfront : (ts ++ us).head? = ts.head? :=
    List.head?_append_of_ne_nil ts (ne_nil_of_outcome h)
  obtain ⟨inner, ⟨taken, htaken, hsame⟩, hinner⟩ := statement_closed ts
  rw [hinner ts rfl] at h
  rw [hinner _ hfront]
  rcases hx : inner ts with e | ⟨y, front⟩
  · rw [hx] at h
    cases h
  rw [hx] at h htaken hsame
  rcases operator_or_other .semicolon front with ⟨loc, rest, rfl⟩ | hother
  · simp only [Outcome.andThen_ok, outcome_want_operator] at h
    cases h
    -- What is in front of the semicolon looks at it, and so never at `us`, even if `left` is empty.
    simp only [Outcome.rest] at htaken hsame
    have hagain := hsame (⟨.operator .semicolon, loc⟩ :: (left ++ us)) rfl
    rw [htaken, List.append_assoc, List.cons_append, hagain]
    simp only [Outcome.leaving, Outcome.andThen_ok, outcome_want_operator]
  · simp only [Outcome.andThen_ok, outcome_want_other _ hother, Outcome.andThen_error] at h
    cases h

/-- Behind a complete module parsing starts anew. -/
theorem program_append {ts : List Token} {xs : List Node} (h : program ts = .ok (xs, []))
    (us : List Token) :
    program (ts ++ us) = (program us).andThen fun more left => .ok (xs ++ more, left) := by
  by_cases hne : ts = []
  · subst hne
    rw [program_nil] at h
    cases h
    rw [List.nil_append]
    rcases program us with e | ⟨more, left⟩ <;> rfl
  -- The first statement takes what it took, and the others are appended to by induction.
  · rw [program_statement hne] at h
    rcases hfirst : (statement ts).outcome with e | ⟨x, left⟩
    · rw [hfirst] at h
      cases h
    have hlt := Reply.length_lt_of_outcome hfirst
    rcases hmore : program left with e | ⟨more, rest⟩
    · simp [hfirst, hmore] at h
    simp only [hfirst, hmore, Outcome.andThen_ok] at h
    cases h
    rw [program_statement (List.append_ne_nil_of_left_ne_nil hne us), statement_append hfirst,
      Outcome.andThen_ok, program_append hmore, Outcome.andThen_assoc]
    rfl
termination_by ts.length

/-- Behind a complete module that goes on, there is another. -/
theorem program_cut {ts us : List Token} {xs ys : List Node} (hts : program ts = .ok (xs, []))
    (h : program (ts ++ us) = .ok (ys, [])) :
    ∃ more, program us = .ok (more, []) ∧ ys = xs ++ more := by
  rw [program_append hts] at h
  rcases hus : program us with e | ⟨more, left⟩
  · rw [hus] at h
    cases h
  · rw [hus] at h
    cases h
    exact ⟨more, rfl, rfl⟩

/-- Behind a complete module the words give the statements that they give anywhere. -/
theorem relocated_program_append {ts us vs : List Token} {xs : List Node}
    (hts : program ts = .ok (xs, [])) (h : SameWords R us vs) :
    (program us).Relocated R
      (fun ys zs => ∃ more, zs = xs ++ more ∧ List.Forall₂ (Node.Relocated R) ys more)
      (program (ts ++ vs)) := by
  rw [program_append hts]
  have hprogram := relocated_program h
  generalize program us = o at hprogram ⊢
  generalize program vs = o' at hprogram ⊢
  cases hprogram with
  | ok hvalue hrest => exact .ok ⟨_, rfl, hvalue⟩ hrest
  | error hrest => exact .error hrest

/-- A module is its statements. -/
theorem module_of_program {ts left : List Token} {xs : List Node}
    (h : program ts = .ok (xs, left)) : module ts = .ok (.module (frontLoc ts) xs) := by
  unfold program at h
  unfold module
  rcases hstatements : statements ts with e | ys
  · rw [hstatements] at h
    cases h
  · rw [hstatements] at h
    cases h
    rfl

end Parser

/-! ## Lines with other numbers

Numbers of lines go into locations and nowhere else. -/

/-- The same cause at a corresponding location. -/
inductive LexicalFault.Relocated (R : Location → Location → Prop) :
    LexicalFault → LexicalFault → Prop
  | mk {cause : LexicalCause} {a b : Location} : R a b → Relocated R ⟨cause, a⟩ ⟨cause, b⟩

/-- The same words, up to the same fault, at corresponding locations. -/
structure Lexed.Relocated (R : Location → Location → Prop) (l k : Lexed) : Prop where
  tokens : Parser.SameWords R l.tokens k.tokens
  fault : Option.Rel (LexicalFault.Relocated R) l.fault k.fault

/-- Snippets give the same words in any line. -/
theorem Token.sameWords_ofSnippets {a b : UInt32} (hline : ∀ column, R ⟨a, column⟩ ⟨b, column⟩)
    {column : Nat} {snippets : List Snippet} {ts us : List Token}
    (hts : ofSnippets a column snippets = .ok ts) (hus : ofSnippets b column snippets = .ok us) :
    Parser.SameWords R ts us := by
  induction snippets generalizing column ts us with
  | nil =>
    cases hts
    cases hus
    exact .nil
  | cons s rest ih =>
    obtain ⟨v, ts, hv, hmore, rfl⟩ := ofSnippets_cons hts
    obtain ⟨w, us, hw, hmore', rfl⟩ := ofSnippets_cons hus
    obtain rfl : v = w := Option.some.inj (hv.symm.trans hw)
    exact .cons (.mk (hline _)) (ih hmore hmore')

/-- Lines give the same words and the same fault wherever they stand. -/
theorem Lexed.relocated_ofLinesFrom {a b : UInt32} {lines : List Bytes}
    (hlines : ∀ i < lines.length, ∀ column,
      R ⟨a + UInt32.ofNat i, column⟩ ⟨b + UInt32.ofNat i, column⟩) :
    (ofLinesFrom a lines).Relocated R (ofLinesFrom b lines) := by
  induction lines generalizing a b with
  | nil => exact ⟨.nil, .none⟩
  | cons line rest ih =>
    have hline : ∀ column, R ⟨a, column⟩ ⟨b, column⟩ := by
      simpa using hlines 0 (by simp)
    rw [ofLinesFrom, ofLinesFrom]
    -- A bad line is bad wherever it stands; a good one gives its words, and the lines behind it
    -- follow.
    rcases hgood : Snippet.isGood line with _ | _
    · obtain ⟨cause, hcause⟩ := Snippet.exists_flaw hgood
      rw [Token.ofLine_of_flaw hcause, Token.ofLine_of_flaw hcause]
      exact ⟨.nil, .some (.mk (hline _))⟩
    · obtain ⟨ts, hts⟩ := Token.ofLine_of_isGood hgood a
      obtain ⟨us, hus⟩ := Token.ofLine_of_isGood hgood b
      have hwords := Token.sameWords_ofSnippets hline (Token.ofLine_eq_ok hts)
        (Token.ofLine_eq_ok hus)
      have hrest : ∀ i < rest.length, ∀ column,
          R ⟨a + 1 + UInt32.ofNat i, column⟩ ⟨b + 1 + UInt32.ofNat i, column⟩ := by
        intro i hi column
        rw [add_one_add_ofNat, add_one_add_ofNat]
        exact hlines (i + 1) (Nat.succ_lt_succ hi) column
      obtain ⟨htokens, hfault⟩ := ih hrest
      simp only [hts, hus]
      exact ⟨List.rel_append hwords htokens, hfault⟩

/-! ## Verdicts

A verdict corresponds to another if the trees or the faults do, each location to its own. -/

/-- The same cause at a corresponding location, or twice at none. -/
inductive ParseFault.Relocated (R : Location → Location → Prop) : ParseFault → ParseFault → Prop
  | unknown {cause : ParseCause} : Relocated R ⟨cause, .unknown⟩ ⟨cause, .unknown⟩
  | known {cause : ParseCause} {a b : Location} : R a b → Relocated R ⟨cause, a⟩ ⟨cause, b⟩

/-- What was not expected is the same, or nothing was left in both. -/
theorem ParseFault.relocated_ofFailed {expected : Parser.Expected} {ts us : List Token}
    (h : Parser.SameWords R ts us) :
    (ofFailed ⟨expected, ts⟩).Relocated R (ofFailed ⟨expected, us⟩) := by
  cases h with
  | nil => exact .unknown
  | cons htoken _ =>
    obtain ⟨hloc⟩ := htoken
    exact .known hloc

theorem ParseFault.relocated_ofLexical {f g : LexicalFault} (h : f.Relocated R g) :
    (ofLexical f).Relocated R (ofLexical g) := by
  obtain ⟨hloc⟩ := h
  exact .known hloc

namespace Lexed

variable {S : List Node → List Node → Prop} {l k : Lexed}

/-- If statements correspond, so do the modules made of them. -/
theorem parse_ok_of_relocated
    (h : (Parser.program l.tokens).Relocated R S (Parser.program k.tokens))
    (hfault : Option.Rel (LexicalFault.Relocated R) l.fault k.fault) {m : Node}
    (hm : l.parse = .ok m) : ∃ n, k.parse = .ok n ∧ S m.stmts n.stmts := by
  obtain ⟨hnone, hmodule⟩ := parse_eq_ok.mp hm
  obtain ⟨xs, hxs, rfl⟩ := Parser.module_eq_ok.mp hmodule
  rw [hnone] at hfault
  rw [hxs] at h
  generalize hnone' : k.fault = fault at hfault
  generalize hys : Parser.program k.tokens = o at h
  obtain ⟨⟩ := hfault
  obtain ⟨hvalue, ⟨⟩⟩ | _ := h
  exact ⟨_, parse_eq_ok.mpr ⟨hnone', Parser.module_eq_ok.mpr ⟨_, hys, rfl⟩⟩, hvalue⟩

/-- If what is left corresponds, so do the faults. -/
theorem parse_error_of_relocated
    (h : (Parser.program l.tokens).Relocated R S (Parser.program k.tokens))
    (hfault : Option.Rel (LexicalFault.Relocated R) l.fault k.fault) {f : ParseFault}
    (hf : l.parse = .error f) : ∃ g, k.parse = .error g ∧ f.Relocated R g := by
  unfold parse at hf ⊢
  generalize hxs : Parser.program l.tokens = o at h
  generalize hys : Parser.program k.tokens = o' at h
  generalize l.fault = fault at hfault hf
  generalize k.fault = fault' at hfault
  cases h with
  -- The statements are complete on both sides, so the fault is that of a bad line.
  | ok hvalue hrest =>
    rw [Parser.module_of_program hxs] at hf
    rw [Parser.module_of_program hys]
    cases hfault with
    | none => cases hf
    | some hfault =>
      cases hf
      exact ⟨_, rfl, ParseFault.relocated_ofLexical hfault⟩
  | error hrest =>
    rw [Parser.module_eq_error.mpr hxs] at hf
    rw [Parser.module_eq_error.mpr hys]
    cases hfault with
    | none =>
      cases hf
      exact ⟨_, rfl, ParseFault.relocated_ofFailed hrest⟩
    | some hfault =>
      -- A bad line is what both run into, or neither gets to it.
      cases hrest with
      | nil =>
        cases hf
        exact ⟨_, rfl, ParseFault.relocated_ofLexical hfault⟩
      | cons htoken hrest =>
        cases hf
        exact ⟨_, rfl, ParseFault.relocated_ofFailed (.cons htoken hrest)⟩

end Lexed

/-! ## Two sources

The relation between locations is now that of being `n` lines below, with `n` the number of lines of
the first source. -/

/-- The second location is `n` lines below the first, which is in a source. -/
def Location.Below (n : Nat) (a b : Location) : Prop :=
  a.isValid = true ∧ b.line.toNat = a.line.toNat + n ∧ b.column = a.column

/-- A line behind `n` others is `n` lines below its own number. -/
theorem Location.below_lineNumber {n i : Nat} (h : n + i + 1 < UInt32.size) (column : UInt32) :
    Below n ⟨1 + UInt32.ofNat i, column⟩ ⟨1 + UInt32.ofNat n + UInt32.ofNat i, column⟩ := by
  have hfirst : (1 + UInt32.ofNat i).toNat = i + 1 := Lexed.toNat_lineNumber (by omega)
  have hsecond : (1 + UInt32.ofNat n + UInt32.ofNat i).toNat = n + i + 1 := by
    rw [UInt32.add_assoc, ← UInt32.ofNat_add]
    exact Lexed.toNat_lineNumber h
  refine ⟨decide_eq_true ?_, ?_, rfl⟩
  · rw [UInt32.lt_iff_toNat_lt, hfirst]
    exact Nat.succ_pos i
  · rw [hsecond, hfirst]
    omega

/-- A fault that moved is the same fault, further down or still at no place. -/
theorem ParseFault.Relocated.below {n : Nat} {f g : ParseFault}
    (h : f.Relocated (Location.Below n) g) :
    g.cause = f.cause ∧ if f.loc = .unknown then g.loc = .unknown else f.loc.Below n g.loc := by
  cases h with
  | unknown =>
    rw [if_pos rfl]
    exact ⟨rfl, rfl⟩
  | known hloc =>
    rw [if_neg]
    · exact ⟨rfl, hloc⟩
    · rintro rfl
      exact absurd hloc.1 (by decide)

/-- If the first of two sources is a module, the second is parsed behind it as it is alone, only
that its lines have higher numbers. -/
theorem parseLines_append (as bs : List Bytes) (hlines : as.length + bs.length < UInt32.size)
    {a : Node} (ha : parseLines as = .ok a) :
    (∀ b, parseLines bs = .ok b →
      ∃ m more, parseLines (as ++ bs) = .ok m ∧ m.stmts = a.stmts ++ more ∧
        List.Forall₂ (Node.Relocated (Location.Below as.length)) b.stmts more) ∧
      ∀ f, parseLines bs = .error f →
        ∃ g, parseLines (as ++ bs) = .error g ∧ g.cause = f.cause ∧
          if f.loc = .unknown then g.loc = .unknown else f.loc.Below as.length g.loc := by
  obtain ⟨hnone, hmodule⟩ := Lexed.parse_eq_ok.mp ha
  obtain ⟨xs, hxs, rfl⟩ := Parser.module_eq_ok.mp hmodule
  -- The first source has no fault, so the lines of the second are read behind its tokens.
  have hwhole : parseLines (as ++ bs) = _ :=
    congrArg Lexed.parse (Lexed.ofLinesFrom_append bs hnone)
  have hbelow : (Lexed.ofLines bs).Relocated (Location.Below as.length)
      (Lexed.ofLinesFrom (1 + UInt32.ofNat as.length) bs) :=
    Lexed.relocated_ofLinesFrom fun i hi => Location.below_lineNumber (by omega)
  have hprogram := Parser.relocated_program_append hxs hbelow.tokens
  rw [hwhole]
  constructor
  · intro b hb
    obtain ⟨m, hm, more, hstmts, hmore⟩ :=
      Lexed.parse_ok_of_relocated (k := ⟨_, _⟩) hprogram hbelow.fault hb
    exact ⟨m, more, hm, hstmts, hmore⟩
  · intro f hf
    obtain ⟨g, hg, hfg⟩ :=
      Lexed.parse_error_of_relocated (k := ⟨_, _⟩) hprogram hbelow.fault hf
    exact ⟨g, hg, hfg.below⟩

/-- A module of two lines. -/
def leadLines : List Bytes := [Text.utf8 "let x = 1;", Text.utf8 "x; // x"]

/-- Lines that end within a sum. -/
def openLines : List Bytes := [Text.utf8 "y;", Text.utf8 "(y +"]

/-- Lines of which the second has a word too many. -/
def stuckLines : List Bytes := [Text.utf8 "y;", Text.utf8 "y y;"]

theorem parseLines_append_leadLines :
    (∃ m, parseLines (leadLines ++ leadLines) = .ok m ∧ m.stmts.length = 4) ∧
      (∃ expected, parseLines (leadLines ++ openLines) =
        .error ⟨.unexpected expected none, .unknown⟩) ∧
      ∃ g, parseLines (leadLines ++ stuckLines) = .error g ∧
        Location.Below 2 ⟨2, 1⟩ g.loc := by
  have hlead : (match parseLines leadLines with
      | .ok a => some a.stmts.length
      | .error _ => none) = some 2 := by decide +kernel
  have hopen : (match parseLines openLines with
      | .ok _ => none
      | .error f => some f) = some ⟨.unexpected .operand none, .unknown⟩ := by decide +kernel
  have hstuck : (match parseLines stuckLines with
      | .ok _ => none
      | .error f => some f) =
      some ⟨.unexpected .semicolon (some (.literal (Text.utf8 "y"))), ⟨2, 1⟩⟩ := by
    decide +kernel
  rcases ha : parseLines leadLines with f | a
  · rw [ha] at hlead
    cases hlead
  rw [ha] at hlead
  have hlength := Option.some.inj hlead
  refine ⟨?_, ?_, ?_⟩
  · obtain ⟨m, more, hm, hstmts, hmore⟩ := (parseLines_append _ leadLines (by decide) ha).1 a ha
    refine ⟨m, hm, ?_⟩
    rw [hstmts, List.length_append, ← hmore.length_eq, hlength]
  · split at hopen
    · cases hopen
    · next f hf =>
      cases hopen
      obtain ⟨⟨_, _⟩, hg, rfl, rfl⟩ := (parseLines_append _ openLines (by decide) ha).2 _ hf
      exact ⟨_, hg⟩
  · split at hstuck
    · cases hstuck
    · next f hf =>
      cases hstuck
      obtain ⟨g, hg, -, hloc⟩ := (parseLines_append _ stuckLines (by decide) ha).2 _ hf
      exact ⟨g, hg, hloc⟩

/-! ## A source cut in two

The converse: when the whole is a module and so is its first part, then the rest is one too. -/

theorem Parser.SameWords.words {ts us : List Token} (h : SameWords R ts us) :
    ts.map Token.word = us.map Token.word := by
  induction h with
  | nil => rfl
  | cons htoken _ ih =>
    obtain ⟨_⟩ := htoken
    simp only [List.map_cons, ih]

theorem Lexed.words_ofLinesFrom (a b : UInt32) (lines : List Bytes) :
    (ofLinesFrom a lines).words = (ofLinesFrom b lines).words := by
  have hrelocated : (ofLinesFrom a lines).Relocated (fun _ _ => True) (ofLinesFrom b lines) :=
    relocated_ofLinesFrom fun _ _ _ => trivial
  exact hrelocated.tokens.words

/-- If a module begins with lines that are a module, the other lines are one too, and the
statements are those of the one and then those of the other. The numbers of lines may wrap. -/
theorem parseLines_cut {as bs : List Bytes} {a m : Node} (ha : parseLines as = .ok a)
    (hm : parseLines (as ++ bs) = .ok m) :
    ∃ b, parseLines bs = .ok b ∧
      Node.eraseAll m.stmts = Node.eraseAll a.stmts ++ Node.eraseAll b.stmts := by
  obtain ⟨hnone, hfirst⟩ := Lexed.parse_eq_ok.mp ha
  obtain ⟨xs, hxs, rfl⟩ := Parser.module_eq_ok.mp hfirst
  rw [parseLines, Lexed.ofLines, Lexed.ofLinesFrom_append bs hnone, Lexed.parse_eq_ok] at hm
  obtain ⟨hfault, hwhole⟩ := hm
  obtain ⟨ys, hys, rfl⟩ := Parser.module_eq_ok.mp hwhole
  obtain ⟨more, hmore, rfl⟩ := Parser.program_cut hxs hys
  -- The rest has the same words when its lines are numbered from one.
  have hderives := Parser.derives_of_module (Parser.module_of_program hmore)
  rw [← Lexed.words, Lexed.words_ofLinesFrom _ 1] at hderives
  obtain ⟨b, hb, herase⟩ := Parser.module_of_derives hderives
  refine ⟨b, Lexed.parse_eq_ok.mpr ⟨?_, hb⟩, ?_⟩
  · exact Lexed.fault_eq_none_iff.mpr (Lexed.fault_eq_none_iff.mp hfault)
  · have hstmts := congrArg Node.stmts herase
    rw [Node.stmts_erase] at hstmts
    rw [hstmts]
    exact Node.eraseAll_append xs more

end LetFn
