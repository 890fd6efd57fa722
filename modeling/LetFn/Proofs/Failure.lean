import LetFn.Failure

/-!
# Classes of failures

The class of a failure hangs on the causes that occur in it, wherever they do: what was said on the
way up, and in which order failures were joined, makes no difference. Where nothing was joined, the
causes are in a row, and the class is that of the innermost one that has a class of its own
(`code_of_causes`). The searches for causes go from the outside in; that comes to the same, since
the only cause with others inside is what was being done with a file, and that is asked for last.
-/

namespace LetFn.Failure

/-! ## Failures by what is inside

Most kinds of failures wrap one cause. Leaves and joins are the only others. -/

/-- A fact about failures follows from the causes inside to what is around them, and from failures
to what they were joined into. -/
@[elab_as_elim]
theorem induct {motive : Failure → Prop}
    (leaf : ∀ f, f.inner? = none → (∀ fs, f ≠ joined fs) → motive f)
    (around : ∀ f cause, f.inner? = some cause → motive cause → motive f)
    (join : ∀ fs, (∀ f ∈ fs, motive f) → motive (joined fs)) : (f : Failure) → motive f
  | located cause loc => around _ cause rfl (induct leaf around join cause)
  | sourced cause loc path => around _ cause rfl (induct leaf around join cause)
  | file verb path cause => around _ cause rfl (induct leaf around join cause)
  | wrapped message cause => around _ cause rfl (induct leaf around join cause)
  | joined fs => join fs fun f hf => induct leaf around join f
  | token _ | parse _ _ | segment _ _ | plain _ => leaf _ rfl (by simp)

/-- A failure occurs in itself, in what is around it, and in what it was joined into. -/
inductive Occurs (x : Failure) : Failure → Prop
  | self : Occurs x x
  | around {f cause : Failure} : f.inner? = some cause → Occurs x cause → Occurs x f
  | join {f : Failure} {fs : List Failure} : f ∈ fs → Occurs x f → Occurs x (joined fs)

theorem occurs_of_leaf {x f : Failure} (hinner : f.inner? = none) (hjoin : ∀ fs, f ≠ joined fs) :
    Occurs x f ↔ x = f := by
  constructor
  · intro h
    cases h with
    | self => rfl
    | around h => cases hinner.symm.trans h
    | join => exact absurd rfl (hjoin _)
  · rintro rfl
    exact .self

/-- In a wrapper occurs what occurs in its cause. -/
theorem occurs_around {x f cause : Failure} (hinner : f.inner? = some cause) :
    Occurs x f ↔ x = f ∨ Occurs x cause := by
  constructor
  · intro h
    cases h with
    | self => exact .inl rfl
    | around hother h =>
      cases hinner.symm.trans hother
      exact .inr h
    | join => cases hinner
  · rintro (rfl | h)
    · exact .self
    · exact .around hinner h

/-- In a join occurs what occurs in one of its causes. -/
theorem occurs_joined {x : Failure} {fs : List Failure} :
    Occurs x (joined fs) ↔ x = joined fs ∨ ∃ f ∈ fs, Occurs x f := by
  constructor
  · intro h
    cases h with
    | self => exact .inl rfl
    | around hinner => cases hinner
    | join hf h => exact .inr ⟨_, hf, h⟩
  · rintro (rfl | ⟨f, hf, h⟩)
    · exact .self
    · exact .join hf h

/-! ## Searches

A search goes through wrappers and into joins, and stops at the first failure that it picks. -/

section Searches

variable {α : Type} {pick : Failure → Option α}

theorem find?_of_leaf {f : Failure} (hinner : f.inner? = none) (hjoin : ∀ fs, f ≠ joined fs) :
    f.find? pick = pick f := by
  cases f with
  | token | parse | segment | plain => rfl
  | located | sourced | file | wrapped => cases hinner
  | joined fs => exact absurd rfl (hjoin fs)

/-- A search looks at the wrapper first. -/
theorem find?_around {f cause : Failure} (hinner : f.inner? = some cause) :
    f.find? pick = (pick f).or (cause.find? pick) := by
  cases f with
  | located | sourced | file | wrapped =>
    cases hinner
    rfl
  | token | parse | segment | plain | joined => cases hinner

theorem isSome_findIn?_iff {fs : List Failure} :
    (findIn? pick fs).isSome ↔ ∃ f ∈ fs, (f.find? pick).isSome := by
  induction fs with
  | nil => simp [findIn?]
  | cons f rest ih => simp [findIn?, ih]

/-- A search meets everything that occurs. -/
theorem isSome_find?_iff {f : Failure} :
    (f.find? pick).isSome ↔ ∃ x, Occurs x f ∧ (pick x).isSome := by
  induction f using induct with
  | leaf f hinner hjoin => simp [find?_of_leaf hinner hjoin, occurs_of_leaf hinner hjoin]
  | around f cause hinner ih =>
    rw [find?_around hinner, Option.isSome_or, Bool.or_eq_true, ih]
    simp [occurs_around hinner, or_and_right, exists_or]
  | join fs ih =>
    rw [find?, Option.isSome_or, Bool.or_eq_true, isSome_findIn?_iff]
    constructor
    · rintro (h | ⟨f, hf, h⟩)
      · exact ⟨_, .self, h⟩
      · obtain ⟨x, hx, hpick⟩ := (ih f hf).mp h
        exact ⟨x, .join hf hx, hpick⟩
    · rintro ⟨x, hx, hpick⟩
      rcases occurs_joined.mp hx with rfl | ⟨f, hf, hx⟩
      · exact .inl hpick
      · exact .inr ⟨f, hf, (ih f hf).mpr ⟨x, hx, hpick⟩⟩

end Searches

/-! ## Classes

A class is found by a search, and a search finds something exactly if something that it picks
occurs. -/

/-- The class that a cause has by itself, whatever is inside it. -/
def kind? : Failure → Option Code
  | token _ | segment _ _ => some .lexical
  | parse _ _ => some .syntactic
  | file _ _ _ => some .io
  | plain _ | located _ _ | sourced _ _ _ | wrapped _ _ | joined _ => none

/-- A cause of the class occurs. -/
def Has (f : Failure) (c : Code) : Prop := ∃ x, Occurs x f ∧ x.kind? = some c

/-- A search that picks the causes of a class finds one exactly if one occurs. -/
theorem isSome_find?_iff_has {α : Type} {pick : Failure → Option α} {f : Failure} {c : Code}
    (hpick : ∀ x, (pick x).isSome ↔ x.kind? = some c) : (f.find? pick).isSome ↔ f.Has c := by
  rw [isSome_find?_iff]
  apply exists_congr
  intro x
  rw [hpick]

theorem hasSyntactic_iff {f : Failure} : f.parse?.isSome ↔ f.Has .syntactic := by
  apply isSome_find?_iff_has
  intro x
  cases x <;> simp [kind?]

theorem hasIo_iff {f : Failure} : f.hasFile = true ↔ f.Has .io := by
  apply isSome_find?_iff_has
  intro x
  cases x <;> simp [kind?]

/-- Two kinds of causes are lexical, and each is searched for by itself. -/
theorem hasLexical_iff {f : Failure} :
    (f.hasToken || f.hasSegment) = true ↔ f.Has .lexical := by
  rw [Bool.or_eq_true, hasToken, hasSegment, isSome_find?_iff, isSome_find?_iff, ← exists_or]
  apply exists_congr
  intro x
  rw [← and_or_left]
  apply and_congr_right
  intro _
  cases x <;> simp [kind?]

/-- Lexical causes go before syntactic ones, and those before files. -/
theorem code_cases (f : Failure) :
    (f.Has .lexical ∧ f.code = .lexical) ∨
    (¬f.Has .lexical ∧ f.Has .syntactic ∧ f.code = .syntactic) ∨
    (¬f.Has .lexical ∧ ¬f.Has .syntactic ∧ f.Has .io ∧ f.code = .io) ∨
    (¬f.Has .lexical ∧ ¬f.Has .syntactic ∧ ¬f.Has .io ∧ f.code = .unknown) := by
  rw [← hasLexical_iff, ← hasSyntactic_iff, ← hasIo_iff]
  unfold code
  split
  · next hlexical => exact .inl ⟨hlexical, rfl⟩
  · next hlexical =>
    split
    · next hsyntactic => exact .inr (.inl ⟨hlexical, hsyntactic, rfl⟩)
    · next hsyntactic =>
      split
      · next hio => exact .inr (.inr (.inl ⟨hlexical, hsyntactic, hio, rfl⟩))
      · next hio => exact .inr (.inr (.inr ⟨hlexical, hsyntactic, hio, rfl⟩))

/-- Failures with causes of the same classes have the same class. -/
theorem code_congr {f g : Failure} (h : ∀ c, f.Has c ↔ g.Has c) : f.code = g.code := by
  have hf := code_cases f
  have hg := code_cases g
  simp only [h] at hf
  grind

/-! ## What makes no difference

Wrappers that have no class of their own can be left out, and what is joined may come in any
order. -/

theorem has_around {f cause : Failure} {c : Code} (hinner : f.inner? = some cause) :
    f.Has c ↔ f.kind? = some c ∨ cause.Has c := by
  simp [Has, occurs_around hinner, or_and_right, exists_or]

/-- A remark has no class of its own. -/
theorem has_remark {f cause : Failure} {c : Code} (hinner : f.inner? = some cause)
    (hkind : f.kind? = none) : f.Has c ↔ cause.Has c := by
  simp [has_around hinner, hkind]

theorem has_joined {fs : List Failure} {c : Code} : (joined fs).Has c ↔ ∃ f ∈ fs, f.Has c := by
  constructor
  · rintro ⟨x, hx, hkind⟩
    rcases occurs_joined.mp hx with rfl | ⟨f, hf, hx⟩
    · cases hkind
    · exact ⟨f, hf, x, hx, hkind⟩
  · rintro ⟨f, hf, x, hx, hkind⟩
    exact ⟨x, .join hf hx, hkind⟩

/-- The failures have the same causes, up to what was said on the way up and the order in which
failures were joined. -/
inductive Alike : Failure → Failure → Prop
  | refl (f : Failure) : Alike f f
  | symm {f g : Failure} : Alike f g → Alike g f
  | trans {f g h : Failure} : Alike f g → Alike g h → Alike f h
  | located (f : Failure) (loc : Location) : Alike (located f loc) f
  | sourced (f : Failure) (loc : Location) (path : Bytes) : Alike (sourced f loc path) f
  | wrapped (message : Bytes) (f : Failure) : Alike (wrapped message f) f
  | order {fs gs : List Failure} : fs.Perm gs → Alike (joined fs) (joined gs)
  | inFile {f g : Failure} (verb path : Bytes) : Alike f g →
      Alike (file verb path f) (file verb path g)
  | inJoin {f g : Failure} (before after : List Failure) : Alike f g →
      Alike (joined (before ++ f :: after)) (joined (before ++ g :: after))

/-- Failures that are alike have causes of the same classes. -/
theorem Alike.has_iff {f g : Failure} (h : Alike f g) (c : Code) : f.Has c ↔ g.Has c := by
  induction h with
  | refl f => rfl
  | symm _ ih => exact ih.symm
  | trans _ _ ihf ihg => exact ihf.trans ihg
  | located | sourced | wrapped => exact has_remark rfl rfl
  | order hperm => simp [has_joined, hperm.mem_iff]
  | @inFile f g verb path _ ih =>
    rw [@has_around (file verb path f) f c rfl, @has_around (file verb path g) g c rfl, ih]
    rfl
  | inJoin before after _ ih => simp [has_joined, or_and_right, exists_or, ih]

/-! ## Causes in a row

Without joins there is one chain of causes, and the innermost that has a class decides. -/

/-- The failure and what is inside it, from the outside in, up to where failures were joined. -/
def chain : Failure → List Failure
  | located cause loc => located cause loc :: cause.chain
  | sourced cause loc path => sourced cause loc path :: cause.chain
  | file verb path cause => file verb path cause :: cause.chain
  | wrapped message cause => wrapped message cause :: cause.chain
  | token message => [token message]
  | parse message atEnd => [parse message atEnd]
  | segment offset char => [segment offset char]
  | plain message => [plain message]
  | joined fs => [joined fs]

theorem chain_around {f cause : Failure} (hinner : f.inner? = some cause) :
    f.chain = f :: cause.chain := by
  cases f with
  | located | sourced | file | wrapped =>
    cases hinner
    rfl
  | token | parse | segment | plain | joined => cases hinner

theorem kind?_ne_unknown (f : Failure) : f.kind? ≠ some .unknown := by
  cases f <;> simp [kind?]

/-- Only what was being done with a file has a class of its own and something inside. -/
theorem code_around {f cause : Failure} (hinner : f.inner? = some cause) :
    f.code = if cause.code = .unknown then f.kind?.getD .unknown else cause.code := by
  have hkind : f.kind? = none ∨ f.kind? = some .io := by
    cases f <;> simp [kind?, inner?] at hinner ⊢
  have hcode := code_cases f
  have hcause := code_cases cause
  simp only [has_around hinner] at hcode
  rcases hkind with hkind | hkind
  all_goals
    simp only [hkind] at hcode ⊢
    grind

/-- Without joined failures the class is that of the innermost cause that has one by itself. -/
theorem code_eq_innermost {f : Failure} (h : ∀ fs, ¬Occurs (joined fs) f) :
    f.code = (f.chain.reverse.findSome? kind?).getD .unknown := by
  induction f using induct with
  | leaf f hinner hjoin =>
    cases f with
    | token | parse | segment | plain => rfl
    | located | sourced | file | wrapped => cases hinner
    | joined fs => exact absurd rfl (hjoin fs)
  | around f cause hinner ih =>
    have hcause : ∀ fs, ¬Occurs (joined fs) cause := fun fs hfs => h fs (.around hinner hfs)
    rw [code_around hinner, ih hcause, chain_around hinner, List.reverse_cons,
      List.findSome?_append]
    rcases hfound : cause.chain.reverse.findSome? kind? with _ | c
    · cases hkind : f.kind? <;> simp [hkind]
    · have hc : c ≠ .unknown := by
        obtain ⟨x, -, hx⟩ := List.exists_of_findSome?_eq_some hfound
        rintro rfl
        exact kind?_ne_unknown x hx
      simp [hc]
  | join fs => exact absurd .self (h fs)

/-- The class of a failure is told from the causes that occur in it: lexical if one is, else
syntactic if one is, else that of files if one is. It stays the same under what is said on the way
up and whatever the order of what is joined. In a row of causes it is that of the innermost one
that has a class by itself. -/
theorem code_of_causes (f : Failure) :
    (f.code = .lexical ↔ f.Has .lexical) ∧
    (f.code = .syntactic ↔ ¬f.Has .lexical ∧ f.Has .syntactic) ∧
    (f.code = .io ↔ ¬f.Has .lexical ∧ ¬f.Has .syntactic ∧ f.Has .io) ∧
    (f.code = .unknown ↔ ¬f.Has .lexical ∧ ¬f.Has .syntactic ∧ ¬f.Has .io) ∧
    (∀ g, Alike f g → f.code = g.code) ∧
    ((∀ fs, ¬Occurs (joined fs) f) →
      f.code = (f.chain.reverse.findSome? kind?).getD .unknown) := by
  have hcode := code_cases f
  refine ⟨?_, ?_, ?_, ?_, fun g h => code_congr h.has_iff, code_eq_innermost⟩
  all_goals grind

/-- A file that could not be opened while it was being read. -/
def unopened : Failure := wrapped (Text.utf8 "read a") (file (Text.utf8 "open") (Text.utf8 "a")
  (plain (Text.utf8 "no such file or directory")))

/-- A source that ended too early. -/
def ended : Failure := parse (Text.utf8 "unexpected end of input") true

theorem not_occurs_unopened (fs : List Failure) : ¬Occurs (joined fs) unopened := by
  intro h
  rcases (occurs_around rfl).mp h with h | h
  · cases h
  · rcases (occurs_around rfl).mp h with h | h
    · cases h
    · cases (occurs_of_leaf rfl (by simp)).mp h

theorem alike_unopened_ended :
    Alike (joined [unopened, located ended ⟨2, 0⟩]) (joined [ended, unopened]) :=
  .trans (.inJoin [unopened] [] (.located ended ⟨2, 0⟩)) (.order (.swap ended unopened []))

/-- Joined, the end of the source counts, in either place; alone, the file does. -/
theorem code_of_causes_unopened :
    Alike (joined [unopened, located ended ⟨2, 0⟩]) (joined [ended, unopened]) ∧
      (joined [unopened, located ended ⟨2, 0⟩]).code = (joined [ended, unopened]).code ∧
      (joined [ended, unopened]).code = .syntactic ∧
      (∀ fs, ¬Occurs (joined fs) unopened) ∧ unopened.code = .io := by
  obtain ⟨-, -, -, -, halike, -⟩ := code_of_causes (joined [unopened, located ended ⟨2, 0⟩])
  obtain ⟨-, -, -, -, -, hinnermost⟩ := code_of_causes unopened
  exact ⟨alike_unopened_ended, halike _ alike_unopened_ended, by decide, not_occurs_unopened,
    hinnermost not_occurs_unopened⟩

end LetFn.Failure
