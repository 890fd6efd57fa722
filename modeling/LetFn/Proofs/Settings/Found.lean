import LetFn.Disk.Copy
import LetFn.Proofs.Settings
import LetFn.Proofs.Source

/-!
# The settings file that is found

When the environment names no file, the settings come from the first place where something is. The
path of that place is given back as it is, but the file is looked up by it a second time, and then
a dollar sign in it is taken for a reference. So what is loaded is what was found exactly if
references leave the places alone (`loadFound_reads_place_iff`), as they do unless the home
directory has a dollar sign in its name. With one, another file may be loaded
(`loadFound_reads_other_home`).

How files are decoded plays no part in this, so the theorems are about every decoder. In one
direction a decoder has to be got around: if every file that is found is also the one that is
loaded, then references leave the places alone. For that a disk is taken that holds one file only
(`loneFile`). Whatever the decoder makes of that file, the fault is not that it cannot be read.
-/

namespace LetFn

/-! ## Bytes of clean paths -/

theorem Text.not_mem_splitAt {sep b : UInt8} {s : Bytes} (h : b ∉ s) :
    ∀ part ∈ splitAt sep s, b ∉ part := by
  induction s with
  | nil => simp [splitAt, splitAt.go]
  | cons c rest ih =>
    rw [List.mem_cons, not_or] at h
    by_cases hc : c = sep
    · rw [hc, splitAt_sep, List.forall_mem_cons]
      exact ⟨List.not_mem_nil, ih h.2⟩
    · rw [splitAt_cons hc]
      rcases hrest : splitAt sep rest with _ | ⟨part, parts⟩
      · exact absurd hrest (splitAt_ne_nil rest)
      · have hparts := ih h.2
        rw [hrest, List.forall_mem_cons] at hparts
        rw [List.modifyHead_cons, List.forall_mem_cons, List.mem_cons, not_or]
        exact ⟨⟨h.1, hparts.1⟩, hparts.2⟩

theorem Text.not_mem_join {sep b : UInt8} {parts : List Bytes} (hsep : b ≠ sep)
    (h : ∀ part ∈ parts, b ∉ part) : b ∉ join [sep] parts := by
  induction parts with
  | nil => simp [join]
  | cons part rest ih =>
    rw [List.forall_mem_cons] at h
    rcases rest with _ | ⟨next, rest⟩
    · simpa [join] using h.1
    · rw [join_cons_cons, List.mem_append, List.mem_cons]
      simp [h.1, hsep, ih h.2]

namespace Path

variable {b : UInt8}

/-- Cleaning brings nothing new into the elements but elements that lead up. -/
theorem not_mem_push {absolute : Bool} {done : List Bytes} {element : Bytes} (hup : b ∉ up)
    (hdone : ∀ e ∈ done, b ∉ e) (helement : b ∉ element) :
    ∀ e ∈ push absolute done element, b ∉ e := by
  unfold push
  split
  · exact hdone
  · split
    · cases done with
      | nil => cases absolute <;> simp [hup]
      | cons last before =>
        rw [List.forall_mem_cons] at hdone
        dsimp only
        split
        · simpa [hup] using hdone
        · exact hdone.2
    · simpa [helement] using hdone

theorem not_mem_foldl_push {absolute : Bool} {elements done : List Bytes} (hup : b ∉ up)
    (hdone : ∀ e ∈ done, b ∉ e) (helements : ∀ e ∈ elements, b ∉ e) :
    ∀ e ∈ elements.foldl (push absolute) done, b ∉ e := by
  induction elements generalizing done with
  | nil => exact hdone
  | cons element elements ih =>
    rw [List.forall_mem_cons] at helements
    exact ih (not_mem_push hup hdone helements.1) helements.2

/-- A clean path has no bytes but those of the path, slashes and dots. -/
theorem not_mem_clean {path : Bytes} (hslash : b ≠ slash) (hup : b ∉ up) (h : b ∉ path) :
    b ∉ clean path := by
  have hkept : b ∉ ofElements ((elements path).foldl (push (isAbsolute path)) []).reverse := by
    apply Text.not_mem_join hslash
    intro e he
    exact not_mem_foldl_push hup (List.forall_mem_nil _) (Text.not_mem_splitAt h) e
      (List.mem_reverse.mp he)
  have hhere : b ∉ here := fun hb => hup (List.mem_append_left here hb)
  unfold clean
  dsimp only
  split
  · rw [List.mem_cons, not_or]
    exact ⟨hslash, hkept⟩
  · split
    · exact hhere
    · exact hkept

theorem not_mem_join {parts : List Bytes} (hslash : b ≠ slash) (hup : b ∉ up)
    (h : ∀ part ∈ parts, b ∉ part) : b ∉ join parts := by
  have hfilter : ∀ part ∈ parts.filter (!·.isEmpty), b ∉ part := fun part hpart =>
    h part (List.mem_filter.mp hpart).1
  unfold join
  split
  · exact List.not_mem_nil
  · exact not_mem_clean hslash hup (Text.not_mem_join hslash hfilter)

end Path

namespace Settings

open Environment (dollar)

variable {decode : Decoder} {env : Environment} {disk : Disk} {path : Bytes}

/-! ## The first place -/

/-- Something is at the path, and nothing is at the places in front of it. -/
def IsFirst (env : Environment) (disk : Disk) (path : Bytes) : Prop :=
  ∃ before after, places env = before ++ path :: after ∧
    (∀ place ∈ before, disk.has place = false) ∧ disk.has path = true

/-- The search ends at the first place where something is. -/
theorem find?_eq_some_iff (hnamed : env.get pathVariable = []) :
    find? env disk = some path ↔ IsFirst env disk path := by
  have hempty : (env.get pathVariable).isEmpty = true := by rw [hnamed, List.isEmpty_nil]
  rw [find?, if_pos hempty, List.find?_eq_some_iff_append, IsFirst]
  constructor
  · rintro ⟨hhas, before, after, hplaces, hbefore⟩
    exact ⟨before, after, hplaces, by simpa using hbefore, hhas⟩
  · rintro ⟨before, after, hplaces, hbefore, hhas⟩
    exact ⟨hhas, before, after, hplaces, by simpa using hbefore⟩

/-- The first place is given back as it is, and the file is read that it refers to. -/
theorem loadFound_of_isFirst (hnamed : env.get pathVariable = []) (h : IsFirst env disk path) :
    loadFound decode env disk = (loadAt decode disk (env.expand path), path) := by
  rw [loadFound, (find?_eq_some_iff hnamed).mpr h]
  rfl

/-- Where nothing is found, the defaults are the settings, and there is no path. -/
theorem loadFound_of_nothing (hnamed : env.get pathVariable = [])
    (h : ∀ place ∈ places env, disk.has place = false) :
    loadFound decode env disk = (.ok default, []) := by
  have hnone : find? env disk = none := by
    rw [Option.eq_none_iff_forall_ne_some]
    intro path hpath
    obtain ⟨before, after, hplaces, -, hhas⟩ := (find?_eq_some_iff hnamed).mp hpath
    rw [h path (by simp [hplaces])] at hhas
    cases hhas
  rw [loadFound, hnone]

/-! ## References in places

The place that was found is expanded once more when it is loaded. That changes nothing as long as
expanding keeps the place; a disk with a lone file at the place shows that nothing less will do. -/

/-- The place in the home directory. -/
def homePlace (env : Environment) : Bytes :=
  Path.join (home env :: [".config", "lumen", "config.toml"].map Text.utf8)

/-- The place in the home directory has the bytes of that in it, and no place has a dollar sign of
its own. -/
theorem expand_place {place : Bytes} (hplace : place ∈ places env)
    (hhome : place = homePlace env → dollar ∉ home env) : env.expand place = place := by
  apply Environment.expand_eq_self
  rw [places, List.mem_append] at hplace
  rcases hplace with hplace | hplace
  · clear hhome
    revert place
    decide
  · split at hplace
    · cases hplace
    · rw [List.mem_singleton] at hplace
      rw [hplace]
      apply Path.not_mem_join (by decide) (by decide)
      rw [List.forall_mem_cons]
      exact ⟨hhome hplace, by decide⟩

/-- The disk with one file, which is empty. -/
def loneFile (path : Bytes) : Disk where
  read place := if place = path then .ok [] else .error ⟨.opening, .notFound⟩
  has place := place == path
  canonical place := place

theorem read_loneFile (path place : Bytes) : (loneFile path).read place =
    if place = path then .ok [] else .error ⟨.opening, .notFound⟩ := rfl

/-- A file that is alone on the disk is found at any place. -/
theorem isFirst_loneFile (hnamed : env.get pathVariable = []) (h : path ∈ places env) :
    IsFirst env (loneFile path) path := by
  rw [← find?_eq_some_iff hnamed, find?, hnamed, List.isEmpty_nil, if_pos rfl]
  rcases hfind : (places env).find? (loneFile path).has with _ | place
  · exact absurd (beq_self_eq_true path) (List.find?_eq_none.mp hfind path h)
  · have hhas : (loneFile path).has place = true := List.find?_some hfind
    rw [beq_iff_eq.mp hhas]

/-- What can be read is not found to be unreadable later on, whatever the decoder says. -/
theorem ofContent_ne_unreadable (path content place : Bytes) (e : FileError) :
    ofContent decode path content ≠ .error (.unreadable place e) := by
  rw [ofContent]
  split
  · intro h
    cases h
  · next s _ =>
    intro h
    rcases hvalidate : s.withDefaults.validate with problems | s
    all_goals
      rw [hvalidate] at h
      cases h

/-- If a place refers to another path, a file that is found there may not be there when it is
read. -/
theorem expand_eq_of_loneFile (hnamed : env.get pathVariable = [])
    (h : loadFound decode env (loneFile path) = (loadAt decode (loneFile path) path, path))
    (hplace : path ∈ places env) : env.expand path = path := by
  by_contra hexpand
  rw [loadFound_of_isFirst hnamed (isFirst_loneFile hnamed hplace), Prod.mk.injEq] at h
  have hother : loadAt decode (loneFile path) (env.expand path) =
      .error (.unreadable (env.expand path) ⟨.opening, .notFound⟩) := by
    rw [loadAt, read_loneFile, if_neg hexpand]
  have hsame : loadAt decode (loneFile path) path = ofContent decode path [] := by
    rw [loadAt, read_loneFile, if_pos rfl]
  rw [hother, hsame] at h
  exact ofContent_ne_unreadable path [] _ _ h.1.symm

/-- Without a file that the environment names, the first place where something is says where the
settings come from, and without any the settings are the defaults. One file alone is read. It is
the one at that very place, whatever is on the disk, exactly if references leave the places alone.
They leave those in the working directory alone, and that in a home directory without a dollar sign
in its name. This is so for every decoder. -/
theorem loadFound_reads_place_iff (decode : Decoder) (hnamed : env.get pathVariable = []) :
    (∀ disk, (∀ place ∈ places env, disk.has place = false) →
      loadFound decode env disk = (.ok default, [])) ∧
    (∀ disk path, IsFirst env disk path →
      loadFound decode env disk = (loadAt decode disk (env.expand path), path) ∧
      ∀ other : Disk, other.has = disk.has →
        other.read (env.expand path) = disk.read (env.expand path) →
        loadFound decode env other = loadFound decode env disk) ∧
    ((∀ disk path, IsFirst env disk path →
        loadFound decode env disk = (loadAt decode disk path, path)) ↔
      ∀ place ∈ places env, env.expand place = place) ∧
    (∀ place ∈ places env, (place = homePlace env → dollar ∉ home env) →
      env.expand place = place) := by
  refine ⟨fun disk => loadFound_of_nothing hnamed, ?_, ⟨?_, ?_⟩, fun place => expand_place⟩
  · intro disk path hfirst
    refine ⟨loadFound_of_isFirst hnamed hfirst, ?_⟩
    -- Another disk has something at the same places, and the same at the place that is read.
    intro other hhas hread
    have hother : IsFirst env other path := by rwa [IsFirst, hhas]
    rw [loadFound_of_isFirst hnamed hother, loadFound_of_isFirst hnamed hfirst, loadAt, hread]
    rfl
  -- To see that a place is left alone, take the disk on which it is the only file.
  · intro h place hplace
    exact expand_eq_of_loneFile hnamed (h _ _ (isFirst_loneFile hnamed hplace)) hplace
  · intro h disk path hfirst
    have hplace : path ∈ places env := by
      obtain ⟨before, after, hplaces, -, -⟩ := hfirst
      simp [hplaces]
    rw [loadFound_of_isFirst hnamed hfirst, h path hplace]

/-! ## Two home directories

One home has a name with `$`, the other is what that name expands to, and both have settings. -/

/-- The environment of a user whose home directory has an ordinary name. -/
def plainHome : Environment := ⟨[(Text.utf8 "HOME", Text.utf8 "/case/u")]⟩

/-- The place in that home directory. -/
def plainPlace : Bytes := Text.utf8 "/case/u/.config/lumen/config.toml"

/-- The environment of a user whose home directory ends in `$X`, where `X` stands for nothing. -/
def dollarHome : Environment := ⟨[(Text.utf8 "HOME", Text.utf8 "/case/u$X")]⟩

/-- The place in that home directory. -/
def dollarPlace : Bytes := Text.utf8 "/case/u$X/.config/lumen/config.toml"

/-- What the user with the ordinary home directory has set. -/
def debugFile : Bytes := Text.utf8 "[log]\nlevel = \"debug\"\n"

/-- What the other user has set. -/
def jsonFile : Bytes := Text.utf8 "[output]\nformat = \"json\"\n"

/-- The disk with the settings of both. -/
def twoHomes : Disk :=
  .ofCopies [⟨dollarPlace, .ok jsonFile, dollarPlace⟩, ⟨plainPlace, .ok debugFile, plainPlace⟩]

/-- What the two files set. -/
def twoSettings : Decoder :=
  .knowing [(debugFile, { unset with logLevel := Text.utf8 "debug" }),
    (jsonFile, { unset with outputFormat := Text.utf8 "json" })]

theorem isFirst_plainPlace : IsFirst plainHome twoHomes plainPlace := by
  rw [← find?_eq_some_iff (by decide)]
  decide +kernel

theorem isFirst_dollarPlace : IsFirst dollarHome twoHomes dollarPlace := by
  rw [← find?_eq_some_iff (by decide)]
  decide +kernel

theorem loadAt_plainPlace :
    loadAt twoSettings twoHomes plainPlace =
      .ok { default with logLevel := Text.utf8 "debug" } := by
  have hread : twoHomes.read plainPlace = .ok debugFile := rfl
  have hformat : Format.ofPath plainPlace = .toml := by decide +kernel
  rw [loadAt_eq_ok_iff, hformat]
  refine ⟨debugFile, { unset with logLevel := Text.utf8 "debug" }, hread,
    Decoder.knowing_toml (by decide), ⟨?_, Int.le_refl 0⟩, rfl⟩
  intro c
  cases c <;> decide

theorem loadAt_dollarPlace :
    loadAt twoSettings twoHomes dollarPlace =
      .ok { default with outputFormat := Text.utf8 "json" } := by
  have hread : twoHomes.read dollarPlace = .ok jsonFile := rfl
  have hformat : Format.ofPath dollarPlace = .toml := by decide +kernel
  rw [loadAt_eq_ok_iff, hformat]
  refine ⟨jsonFile, { unset with outputFormat := Text.utf8 "json" }, hread,
    Decoder.knowing_toml (by decide), ⟨?_, Int.le_refl 0⟩, rfl⟩
  intro c
  cases c <;> decide

/-- In a home directory with an ordinary name the settings are those that were found. -/
theorem loadFound_reads_plainPlace :
    plainHome.get pathVariable = [] ∧ IsFirst plainHome twoHomes plainPlace ∧
      loadFound twoSettings plainHome twoHomes =
        (.ok { default with logLevel := Text.utf8 "debug" }, plainPlace) := by
  have hnamed : plainHome.get pathVariable = [] := by decide
  obtain ⟨-, -, hreads, hplaces⟩ := loadFound_reads_place_iff twoSettings hnamed
  have hhome : dollar ∉ home plainHome := by decide
  have hplain := hreads.mpr fun place hplace => hplaces place hplace fun _ => hhome
  refine ⟨hnamed, isFirst_plainPlace, ?_⟩
  rw [hplain twoHomes plainPlace isFirst_plainPlace, loadAt_plainPlace]

/-- With a dollar sign in the name the settings are those of another user. -/
theorem loadFound_reads_other_home :
    dollarHome.get pathVariable = [] ∧ IsFirst dollarHome twoHomes dollarPlace ∧
      loadFound twoSettings dollarHome twoHomes =
        (.ok { default with logLevel := Text.utf8 "debug" }, dollarPlace) ∧
      loadAt twoSettings twoHomes dollarPlace =
        .ok { default with outputFormat := Text.utf8 "json" } := by
  have hnamed : dollarHome.get pathVariable = [] := by decide
  have hexpand : dollarHome.expand dollarPlace = plainPlace := by decide +kernel
  refine ⟨hnamed, isFirst_dollarPlace, ?_, loadAt_dollarPlace⟩
  rw [loadFound_of_isFirst hnamed isFirst_dollarPlace, hexpand, loadAt_plainPlace]

end Settings

end LetFn
