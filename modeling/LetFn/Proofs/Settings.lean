import LetFn.Settings.File

/-!
# Valid settings

Settings are valid if every choice is one of the allowed words and the frame width is not negative;
exactly then nothing is wrong with them (`problems_eq_nil_iff`). Defaults are valid, so filling them
in gives valid settings exactly if what was given is valid (`isValid_withDefaults_iff`). Settings
are loaded from a file exactly if it can be read, makes sense to the decoder, and gives such
settings (`loadAt_eq_ok_iff`). All of this holds for every decoder: what a decoder makes of a file
decides which settings the file gives, and nothing more.
-/

namespace LetFn.Settings

/-! ## Validity

A setting with a choice of words has one of them, and the width is positive. Before defaults are
filled in, a setting may also be empty. -/

/-- Every choice is one of the allowed words, and the frame width is not negative. -/
structure IsValid (s : Settings) : Prop where
  allowed : ∀ c : Choice, c.value s ∈ c.allowed
  width : 0 ≤ s.frameWidth

/-- Every choice that is given is one of the allowed words, and the frame width is not negative. -/
structure IsValidWhereGiven (s : Settings) : Prop where
  allowed : ∀ c : Choice, c.value s = [] ∨ c.value s ∈ c.allowed
  width : 0 ≤ s.frameWidth

theorem Choice.mem_all (c : Choice) : c ∈ all := by
  cases c <;> decide

theorem problems_eq_nil_iff {s : Settings} : s.problems = [] ↔ s.IsValid := by
  have hchoices : Choice.all.filter (fun c => !c.allowed.contains (c.value s)) = [] ↔
      ∀ c : Choice, c.value s ∈ c.allowed := by
    simp [List.filter_eq_nil_iff, Choice.mem_all]
  have hwidth : (if s.frameWidth < 0 then [Problem.negativeWidth s.frameWidth] else []) = [] ↔
      0 ≤ s.frameWidth := by
    simp
  rw [problems, List.append_eq_nil_iff, List.map_eq_nil_iff, hchoices, hwidth]
  exact ⟨fun h => ⟨h.1, h.2⟩, fun h => ⟨h.allowed, h.width⟩⟩

/-- Settings pass as they are if they are valid, and else all that is wrong with them is said. -/
theorem validate_of_isValid {s : Settings} (h : s.IsValid) : s.validate = .ok s := by
  rw [validate, problems_eq_nil_iff.mpr h]
  rfl

theorem validate_of_not_isValid {s : Settings} (h : ¬s.IsValid) :
    s.validate = .error s.problems := by
  rw [validate, if_neg]
  rw [List.isEmpty_iff]
  exact mt problems_eq_nil_iff.mp h

/-! ## Defaults -/

/-- The word that is chosen when none is given. -/
def Choice.fallback : Choice → Bytes
  | color => Text.utf8 "auto"
  | outputFormat => Text.utf8 "text"
  | logLevel => Text.utf8 "warn"
  | logFormat => Text.utf8 "text"

theorem Choice.fallback_mem_allowed (c : Choice) : c.fallback ∈ c.allowed := by
  cases c <;> decide

theorem orElse_eq (s : Bytes) (other : String) :
    orElse s other = if s = [] then Text.utf8 other else s := by
  cases s <;> rfl

theorem Choice.value_withDefaults (c : Choice) (s : Settings) :
    c.value s.withDefaults = if c.value s = [] then c.fallback else c.value s := by
  cases c <;> exact orElse_eq _ _

theorem frameWidth_withDefaults (s : Settings) :
    s.withDefaults.frameWidth = if s.frameWidth = 0 then 30 else s.frameWidth := rfl

theorem isValid_withDefaults_iff {s : Settings} : s.withDefaults.IsValid ↔ s.IsValidWhereGiven := by
  have hchoice (c : Choice) : c.value s.withDefaults ∈ c.allowed ↔
      c.value s = [] ∨ c.value s ∈ c.allowed := by
    rw [c.value_withDefaults]
    split
    · next h => simp [h, c.fallback_mem_allowed]
    · next h => simp [h]
  have hwidth : 0 ≤ s.withDefaults.frameWidth ↔ 0 ≤ s.frameWidth := by
    rw [frameWidth_withDefaults]
    split <;> omega
  constructor
  · intro h
    exact ⟨fun c => (hchoice c).mp (h.allowed c), hwidth.mp h.width⟩
  · intro h
    exact ⟨fun c => (hchoice c).mpr (h.allowed c), hwidth.mpr h.width⟩

theorem isValidWhereGiven_unset : unset.IsValidWhereGiven :=
  ⟨fun c => .inl (by cases c <;> rfl), Int.le_refl 0⟩

theorem isValid_default : default.IsValid := isValid_withDefaults_iff.mpr isValidWhereGiven_unset

/-! ## Files

A file is read, decoded and checked; the decoder is a parameter, and nothing is asked of it. -/

section Files

variable {decode : Decoder} {path content : Bytes} {s given : Settings}

/-- Contents give settings if the decoder finds valid ones; the defaults are filled in. -/
theorem ofContent_eq_ok_iff :
    ofContent decode path content = .ok s ↔
      ∃ given, decode (Format.ofPath path) content = .ok given ∧
        given.IsValidWhereGiven ∧ given.withDefaults = s := by
  rw [ofContent]
  rcases decode (Format.ofPath path) content with detail | given
  · simp
  · show given.withDefaults.validate.mapError (LoadFault.invalid path) = .ok s ↔ _
    by_cases h : given.IsValidWhereGiven
    · rw [validate_of_isValid (isValid_withDefaults_iff.mpr h)]
      show Except.ok given.withDefaults = .ok s ↔ _
      simp [h]
    · rw [validate_of_not_isValid (mt isValid_withDefaults_iff.mp h)]
      show Except.error _ = .ok s ↔ _
      simp [h]

/-- A file gives settings if it can be read and its contents do. -/
theorem loadAt_eq_ok_iff {disk : Disk} :
    loadAt decode disk path = .ok s ↔ ∃ content given, disk.read path = .ok content ∧
      decode (Format.ofPath path) content = .ok given ∧
      given.IsValidWhereGiven ∧ given.withDefaults = s := by
  rw [loadAt]
  rcases disk.read path with error | content
  · simp
  · simp [ofContent_eq_ok_iff]

/-- Settings that are not valid are refused with all that is wrong with them. -/
theorem loadAt_of_not_valid {disk : Disk} (hread : disk.read path = .ok content)
    (hdecode : decode (Format.ofPath path) content = .ok given)
    (hvalid : ¬given.IsValidWhereGiven) :
    loadAt decode disk path = .error (.invalid path given.withDefaults.problems) := by
  rw [loadAt, hread]
  show ofContent decode path content = _
  rw [ofContent, hdecode]
  show given.withDefaults.validate.mapError (LoadFault.invalid path) = _
  rw [validate_of_not_isValid (mt isValid_withDefaults_iff.mp hvalid)]
  rfl

end Files

/-! ## Decoders that know a few files -/

/-- The decoder that knows some TOML files by what is in them, and no other file. -/
def Decoder.knowing (files : List (Bytes × Settings)) : Decoder
  | .toml, content =>
    match files.lookup content with
    | some s => .ok s
    | none => .error (Text.utf8 "toml: unknown document")
  | .yaml, _ => .error (Text.utf8 "yaml: unknown document")

theorem Decoder.knowing_toml {files : List (Bytes × Settings)} {content : Bytes} {s : Settings}
    (h : files.lookup content = some s) : knowing files .toml content = .ok s := by
  rw [knowing, h]

end LetFn.Settings
