import LetFn.Proofs.Snippet

/-!
# How a line is cut

`Cuts offset front snippets rest` says how a line `front ++ rest` is made up: in front there are
gaps of white space and runs that do not go on, each run with its snippet, and the rest is not cut
any more, because a comment begins there, or a byte stands there that is not ASCII, or nothing is
left. Every line is made up in such a way (`exists_cuts`), and segmentation finds it
(`Cuts.segmentFrom_eq`). So to know the snippets of a line one need not run the search: it is enough
to see how the line is made up.

Lines are put together piece by piece. Where cutting stopped, anything may follow
(`Cuts.append_of_stopped`); a line that is cut to its end can go on with what it does not run into
(`Cuts.append_apart`), so in any case after white space (`Cuts.append_gap`).
-/

namespace LetFn.Snippet

open Category Text

/-- The text consists of white space. -/
def Blank (s : Bytes) : Prop := ∀ b ∈ s, isBlank b = true

instance (s : Bytes) : Decidable (Blank s) :=
  inferInstanceAs (Decidable (∀ b ∈ s, isBlank b = true))

/-- No snippet begins here nor further on: a comment begins, or a byte stands that is not ASCII. -/
def Stops (s : Bytes) : Prop := utf8 "//" <+: s ∨ ∃ b ∈ s.head?, isAscii b = false

/-- The line `front ++ rest`, which stands at `offset`, has the snippets in front, and the rest is
not cut. -/
inductive Cuts : Nat → Bytes → List Snippet → Bytes → Prop
  | stop {offset : Nat} {gap rest : Bytes} (hgap : Blank gap) (hrest : rest = [] ∨ Stops rest) :
      Cuts offset gap [] rest
  | snippet {offset : Nat} {gap text front rest : Bytes} {more : List Snippet} (hgap : Blank gap)
      (htext : isRun text = true) (hsep : Separates text (front ++ rest))
      (hfront : Cuts (offset + gap.length + text.length) front more rest) :
      Cuts offset (gap ++ (text ++ front)) (⟨text, offset + gap.length⟩ :: more) rest

/-- The fault of a line of which `rest`, which stands at `offset`, is not cut. -/
def faultAt? (offset : Nat) : Bytes → Option SegmentFault
  | [] => none
  | b :: rest => if isAscii b then none else some ⟨offset, leadingChar (b :: rest)⟩

/-- A fault is about a byte that is not ASCII. -/
theorem exists_of_faultAt? {offset : Nat} {rest : Bytes} {fault : SegmentFault}
    (h : faultAt? offset rest = some fault) :
    ∃ b tail, rest = b :: tail ∧ isAscii b = false ∧
      fault = ⟨offset, leadingChar (b :: tail)⟩ := by
  rcases rest with _ | ⟨b, tail⟩
  · cases h
  rcases hb : isAscii b with _ | _
  · rw [faultAt?, hb] at h
    cases h
    exact ⟨b, tail, rfl, hb, rfl⟩
  · rw [faultAt?, hb] at h
    cases h

/-! ## White space and comments

A line is cut where a comment begins or a foreign byte stands; in front of that, snippets stand with
white space between them. -/

theorem Blank.nil : Blank [] := List.forall_mem_nil _

theorem Blank.append {s t : Bytes} (hs : Blank s) (ht : Blank t) : Blank (s ++ t) :=
  List.forall_mem_append.mpr ⟨hs, ht⟩

/-- What is skipped in front of a run is white space. -/
theorem blank_takeWhile (s : Bytes) : Blank (s.takeWhile isBlank) := fun _ => List.mem_takeWhile_imp

/-- A byte that is not ASCII is no white space. -/
theorem isBlank_of_not_isAscii {b : UInt8} (h : isAscii b = false) : isBlank b = false := by
  rcases hblank : isBlank b with _ | _
  · rfl
  · rw [isAscii_of_isBlank hblank] at h
    cases h

theorem utf8_slashes : utf8 "//" = ['/'.toUInt8, '/'.toUInt8] := by decide

/-- Where cutting stops, it stops whatever follows. -/
theorem Stops.append {s : Bytes} (h : Stops s) (more : Bytes) : Stops (s ++ more) := by
  rcases h with hslashes | ⟨b, hb, hascii⟩
  · exact .inl (hslashes.trans (List.prefix_append s more))
  · obtain ⟨rest, rfl⟩ := List.head?_eq_some_iff.mp hb
    exact .inr ⟨b, rfl, hascii⟩

/-- A run of which two slashes are the beginning is the beginning of a comment. -/
theorem stops_of_opensComment {run : Bytes} (h : opensComment run = true) (rest : Bytes) :
    Stops (run ++ rest) := by
  rw [opensComment, beq_iff_eq] at h
  exact .inl (h ▸ (List.take_prefix 2 run).trans (List.prefix_append run rest))

/-! ## Every line is cut

By induction on the length: take the gap in front, and the run behind it if there is one. -/

/-- Where cutting does not stop, a run is next. -/
theorem exists_run {b : UInt8} {tail : Bytes} (hblank : isBlank b = false)
    (hgoes : ¬Stops (b :: tail)) :
    ∃ run line, b :: tail = b :: run ++ line ∧ isRun (b :: run) = true ∧
      Separates (b :: run) line := by
  have htail := List.takeWhile_append_dropWhile (p := continues b) (l := tail)
  -- The first byte is ASCII and opens no comment, since cutting would stop there.
  have hascii : isAscii b = true := by
    by_contra hascii
    exact hgoes (.inr ⟨b, rfl, by simpa using hascii⟩)
  have hcomment : opensComment (b :: tail.takeWhile (continues b)) = false := by
    by_contra hcomment
    refine hgoes ?_
    rw [← htail]
    exact stops_of_opensComment (by simpa using hcomment) _
  refine ⟨tail.takeWhile (continues b), tail.dropWhile (continues b), ?_, ?_, ?_⟩
  · rw [List.cons_append, htail]
  · simp [isRun, hblank, hascii, hcomment, -List.all_eq_true, List.all_takeWhile]
  · rintro _ ⟨⟩ c hc
    have hhead := List.head?_dropWhile_not (continues b) tail
    rw [Option.mem_def.mp hc] at hhead
    simpa using hhead

/-- A line begins with white space, if only with none. -/
theorem exists_gap (line : Bytes) :
    ∃ gap tail, line = gap ++ tail ∧ Blank gap ∧ ∀ b ∈ tail.head?, isBlank b = false := by
  refine ⟨_, _, List.takeWhile_append_dropWhile.symm, blank_takeWhile line, fun b hb => ?_⟩
  have hhead := List.head?_dropWhile_not isBlank line
  rw [Option.mem_def.mp hb] at hhead
  simpa using hhead

/-- Every line is cut in some way. -/
theorem exists_cuts (offset : Nat) (line : Bytes) :
    ∃ front snippets rest, line = front ++ rest ∧ Cuts offset front snippets rest := by
  induction hlength : line.length using Nat.strong_induction_on generalizing offset line with
  | _ n ih =>
    obtain ⟨gap, tail, rfl, hgap, htail⟩ := exists_gap line
    rcases tail with _ | ⟨b, tail⟩
    · exact ⟨gap, [], [], rfl, .stop hgap (.inl rfl)⟩
    by_cases hstops : Stops (b :: tail)
    · exact ⟨gap, [], b :: tail, rfl, .stop hgap (.inr hstops)⟩
    -- A run is next, and what follows it is shorter.
    obtain ⟨run, line, hline, hrun, hsep⟩ := exists_run (htail b rfl) hstops
    have hshorter : line.length < n := by
      rw [← hlength, hline]
      simp only [List.length_append, List.length_cons]
      omega
    obtain ⟨front, more, rest, rfl, hfront⟩ :=
      ih line.length hshorter (offset + gap.length + (b :: run).length) line rfl
    exact ⟨_, _, rest, by rw [hline]; simp, .snippet hgap hrun hsep hfront⟩

/-! ## Texts that do not run into each other

A run goes on with bytes of its category only, so two texts run into each other only if the bytes at
the seam are of one category, and not white space. -/

/-- The text does not run into what follows it. -/
def Apart (s rest : Bytes) : Prop :=
  ∀ b ∈ s.getLast?, ∀ c ∈ rest.head?, isBlank b = true ∨ Category.of c ≠ Category.of b

theorem Apart.blank {b : UInt8} (hb : isBlank b = true) (rest : Bytes) : Apart [b] rest := by
  rintro _ ⟨⟩ c -
  exact .inl hb

/-- What a text runs into is up to its end. -/
theorem Apart.of_append {pre s rest : Bytes} (h : Apart (pre ++ s) rest) : Apart s rest := by
  intro b hb
  apply h b
  rw [List.getLast?_append, Option.mem_def.mp hb]
  rfl

/-- And up to what comes first behind it. -/
theorem Apart.of_append_right {s a rest : Bytes} (h : Apart s (a ++ rest)) : Apart s a := by
  intro b hb c hc
  apply h b hb c
  rw [List.head?_append, Option.mem_def.mp hc]
  rfl

/-- White space keeps a text apart from what follows. -/
theorem Apart.of_blank {c : UInt8} (hc : isBlank c = true) (s rest : Bytes) :
    Apart s (c :: rest) := by
  rintro b - _ ⟨⟩
  rcases hb : isBlank b with _ | _
  · refine .inr fun hof => ?_
    rw [Category.of_eq_space_iff.mpr hc] at hof
    rw [Category.of_eq_space_iff.mp hof.symm] at hb
    cases hb
  · exact .inl rfl

/-- A run that does not run into what follows is separated from it. -/
theorem Apart.separates {text rest : Bytes} (h : Apart text rest) (htext : isRun text = true) :
    Separates text rest := by
  intro b hb c hc
  obtain ⟨a, ha⟩ : ∃ a, text.getLast? = some a :=
    ⟨_, List.getLast?_eq_some_getLast (ne_nil_of_isRun htext)⟩
  have hmem : a ∈ text := List.mem_of_getLast? ha
  obtain ⟨run, rfl⟩ := List.head?_eq_some_iff.mp hb
  have hof : Category.of c ≠ Category.of b := by
    rw [← of_eq_of_isRun htext a hmem]
    refine (h a ha c hc).resolve_left ?_
    rw [isBlank_of_mem_isRun htext a hmem]
    exact Bool.false_ne_true
  simp [continues, hof]

/-! ## Segmentation cuts

The search for snippets goes the way the cuts go. -/

/-- Segmentation goes over white space. -/
theorem segmentFrom_gap {gap : Bytes} (hgap : Blank gap) (offset : Nat) (line : Bytes) :
    segmentFrom offset (gap ++ line) = segmentFrom (offset + gap.length) line := by
  induction gap generalizing offset with
  | nil => rfl
  | cons b gap ih =>
    obtain ⟨hb, hgap⟩ := List.forall_mem_cons.mp hgap
    rw [List.cons_append, segmentFrom_blank hb, ih hgap, List.length_cons]
    congr 1
    omega

/-- A comment has no snippets and no fault. -/
theorem segmentFrom_comment (offset : Nat) (bytes : Bytes) :
    segmentFrom offset (utf8 "//" ++ bytes) = ([], none) := by
  have hslash : isBlank '/'.toUInt8 = false ∧ isAscii '/'.toUInt8 = true ∧
      continues '/'.toUInt8 '/'.toUInt8 = true := by decide
  apply segmentFrom_nothing
  simp [scan, utf8_slashes, opensComment, hslash]

/-- Segmentation ends where cutting stops. -/
theorem segmentFrom_stops {rest : Bytes} (h : rest = [] ∨ Stops rest) (offset : Nat) :
    segmentFrom offset rest = ([], faultAt? offset rest) := by
  rcases h with rfl | ⟨bytes, rfl⟩ | ⟨b, hb, hascii⟩
  · exact segmentFrom_nothing rfl
  · rw [segmentFrom_comment, utf8_slashes, List.cons_append, faultAt?, if_pos (by decide)]
  · obtain ⟨more, rfl⟩ := List.head?_eq_some_iff.mp hb
    have hscan : scan offset (b :: more) = .fault ⟨offset, leadingChar (b :: more)⟩ := by
      simp [scan, isBlank_of_not_isAscii hascii, hascii]
    rw [segmentFrom_fault hscan, faultAt?, hascii]
    rfl

namespace Cuts

variable {offset : Nat} {front rest : Bytes} {snippets : List Snippet}

/-- Segmentation finds the snippets, and fails where cutting stopped. -/
theorem segmentFrom_eq (h : Cuts offset front snippets rest) :
    segmentFrom offset (front ++ rest) = (snippets, faultAt? (offset + front.length) rest) := by
  induction h with
  | stop hgap hrest => rw [segmentFrom_gap hgap, segmentFrom_stops hrest]
  | @snippet offset gap text front rest more hgap htext hsep hfront ih =>
    have hend : offset + gap.length + text.length + front.length =
        offset + (gap ++ (text ++ front)).length := by
      simp only [List.length_append, Nat.add_assoc]
    rw [List.append_assoc, List.append_assoc, segmentFrom_gap hgap,
      segmentFrom_snippet (scan_run htext hsep _), Snippet.stop, ih, hend]

/-! ## Putting lines together

These are the rules for lines that are pasted from pieces. -/

/-- Elsewhere a line is cut into the same texts. -/
theorem shift (h : Cuts offset front snippets rest) (offset' : Nat) :
    ∃ snippets', Cuts offset' front snippets' rest ∧
      snippets'.map Snippet.text = snippets.map Snippet.text := by
  induction h generalizing offset' with
  | stop hgap hrest => exact ⟨[], .stop hgap hrest, rfl⟩
  | @snippet offset gap text front rest more hgap htext hsep hfront ih =>
    obtain ⟨more', hfront', hmore⟩ := ih (offset' + gap.length + text.length)
    exact ⟨_, .snippet hgap htext hsep hfront', by simp [hmore]⟩

/-- White space may stand in front. -/
theorem indent {gap : Bytes} (hgap : Blank gap)
    (h : Cuts (offset + gap.length) front snippets rest) :
    Cuts offset (gap ++ front) snippets rest := by
  cases h with
  | stop hgap' hrest => exact .stop (hgap.append hgap') hrest
  | @snippet _ gap' text front rest more hgap' htext hsep hfront =>
    have hoffset : offset + gap.length + gap'.length = offset + (gap ++ gap').length := by
      rw [List.length_append, Nat.add_assoc]
    rw [hoffset] at hfront ⊢
    rw [← List.append_assoc]
    exact .snippet (hgap.append hgap') htext hsep hfront

/-- What follows where cutting stopped makes no difference. -/
theorem append_of_stopped (h : Cuts offset front snippets rest) (hrest : rest ≠ []) (more : Bytes) :
    Cuts offset front snippets (rest ++ more) := by
  induction h with
  | stop hgap hstops => exact .stop hgap (.inr ((hstops.resolve_left hrest).append more))
  | @snippet offset gap text front rest snippets hgap htext hsep hfront ih =>
    -- What the run is separated from is the same, as something was left.
    refine .snippet hgap htext (fun b hb c hc => hsep b hb c ?_) (ih hrest)
    have hsome : (front ++ rest).head?.isSome := by
      rw [List.isSome_head?]
      exact List.append_ne_nil_of_right_ne_nil front hrest
    rwa [← List.append_assoc, List.head?_append, Option.or_of_isSome hsome] at hc

/-- A line that is cut to its end goes on with what it does not run into. -/
theorem append_apart {front' rest' : Bytes} {snippets' : List Snippet}
    (h : Cuts offset front snippets []) (hapart : Apart front (front' ++ rest'))
    (hnext : Cuts (offset + front.length) front' snippets' rest') :
    Cuts offset (front ++ front') (snippets ++ snippets') rest' := by
  generalize hrest : ([] : Bytes) = rest at h
  induction h with
  | stop hgap hstops => exact hnext.indent hgap
  | @snippet offset gap text front rest snippets hgap htext hsep hfront ih =>
    subst hrest
    have hoffset : offset + (gap ++ (text ++ front)).length =
        offset + gap.length + text.length + front.length := by
      simp only [List.length_append, Nat.add_assoc]
    rw [hoffset] at hnext
    have hbehind := hapart.of_append
    rw [List.append_assoc, List.append_assoc]
    refine .snippet hgap htext ?_ (ih hbehind.of_append hnext rfl)
    rcases front with _ | ⟨c, front⟩
    · -- The run is at the end of the line, so it meets what follows.
      rw [List.append_nil] at hbehind
      exact hbehind.separates htext
    · exact hsep

/-- In particular it goes on after white space. -/
theorem append_gap {gap front' rest' : Bytes} {snippets' : List Snippet}
    (h : Cuts offset front snippets []) (hne : gap ≠ []) (hgap : Blank gap)
    (hnext : Cuts (offset + front.length + gap.length) front' snippets' rest') :
    Cuts offset (front ++ (gap ++ front')) (snippets ++ snippets') rest' := by
  obtain ⟨b, more, rfl⟩ := List.exists_cons_of_ne_nil hne
  exact h.append_apart (.of_blank (hgap b List.mem_cons_self) _ _) (hnext.indent hgap)

end Cuts

end LetFn.Snippet
