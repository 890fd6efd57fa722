import LetFn.Command.Setup
import LetFn.Disk.Copy
import LetFn.Proofs.Settings

/-!
# Where settings come from

A setting is what a flag says, else what the settings file gives, else its default (`effective`).
The file is the one that a flag names, else the one that the environment names, else the first that
is found, else none. A run is set up with these settings exactly if what the file gives is valid by
itself and the settings are valid with the flags, too (`make_effective`). The log takes every level
and every format that settings can have, so opening it never fails.

What a file gives is up to the decoder (`Gives`), which may be any function from contents to
settings. The proofs follow the steps of `Setup.make`: what is loaded (`loadSettings_of_gives`),
what the flags make of it (`override_withDefaults`), and how each step can end (`make_cases`).
-/

namespace LetFn

/-! ## Loggers for valid settings -/

/-- The log knows the words that settings allow. -/
theorem Log.Logger.exists_make {s : Settings} (h : s.IsValid) (stamp run : Bytes) :
    ∃ logger, make s.logLevel s.logFormat stamp run = .ok logger := by
  have hlevels : ∀ name ∈ Settings.Choice.logLevel.allowed, (Level.ofName? name).isSome := by
    decide +kernel
  have hforms : ∀ name ∈ Settings.Choice.logFormat.allowed, (Form.ofName? name).isSome := by
    decide +kernel
  obtain ⟨level, hlevel⟩ := Option.isSome_iff_exists.mp (hlevels _ (h.allowed .logLevel))
  obtain ⟨form, hform⟩ := Option.isSome_iff_exists.mp (hforms _ (h.allowed .logFormat))
  change Level.ofName? s.logLevel = some level at hlevel
  change Form.ofName? s.logFormat = some form at hform
  rw [make, hlevel, hform]
  exact ⟨_, rfl⟩

namespace Command

open Settings (Decoder Format)

/-! ## The settings file

A file is looked for in one place only: where a flag says, else where the environment says, else at
the first place that exists. Only the last kind of path can be missing; `Gives` relates a world and
the flags to what the file has set, and `effective` lays flags over it. -/

/-- The path of the settings file: what the flag says, if that is not empty, else what the
environment names, if that is not empty, else the first place where something is. -/
def settingsPath? (w : World) (g : Given) : Option Bytes :=
  let flag := (g.value? .config).getD []
  let named := w.env.get Settings.pathVariable
  if flag ≠ [] then some flag
  else if named ≠ [] then some named
  else (Settings.places w.env).find? w.disk.has

/-- The settings that the file gives. A path refers to the variables of the environment. Without a
file nothing is given. -/
inductive Gives (decode : Decoder) (w : World) (g : Given) : Settings → Prop
  | file {path content : Bytes} {given : Settings} : settingsPath? w g = some path →
      w.disk.read (w.env.expand path) = .ok content →
      decode (Format.ofPath (w.env.expand path)) content = .ok given → Gives decode w g given
  | nothing : settingsPath? w g = none → Gives decode w g .unset

/-- There is one file, and it gives one thing. -/
theorem Gives.unique {decode : Decoder} {w : World} {g : Given} {given given' : Settings}
    (h : Gives decode w g given) (h' : Gives decode w g given') : given = given' := by
  cases h with
  | file hpath hread hdecode =>
    cases h' with
    | file hpath' hread' hdecode' =>
      cases hpath.symm.trans hpath'
      cases hread.symm.trans hread'
      exact Except.ok.inj (hdecode.symm.trans hdecode')
    | nothing hpath' => cases hpath.symm.trans hpath'
  | nothing hpath =>
    cases h' with
    | file hpath' => cases hpath.symm.trans hpath'
    | nothing => rfl

/-- A setting is what a flag says, else what the file gives, else the default. -/
def effective (g : Given) (given : Settings) : Settings where
  color := (g.value? .color).getD (if given.color = [] then Text.utf8 "auto" else given.color)
  frameWidth := if given.frameWidth = 0 then 30 else given.frameWidth
  outputFormat := if given.outputFormat = [] then Text.utf8 "text" else given.outputFormat
  logLevel :=
    if g.isOn .verbose then Text.utf8 "debug"
    else (g.value? .logLevel).getD
      (if given.logLevel = [] then Text.utf8 "warn" else given.logLevel)
  logFormat := if given.logFormat = [] then Text.utf8 "text" else given.logFormat

variable {decode : Decoder} {w : World} {g : Given}

/-- To fill in the defaults and let the flags take precedence gives the effective settings. -/
theorem override_withDefaults (g : Given) (given : Settings) :
    override g given.withDefaults = effective g given := by
  unfold override effective Settings.withDefaults
  simp only [Settings.orElse_eq]
  split <;> rfl

/-- The file is the one that is loaded, and without a file the settings are the defaults. -/
theorem loadSettings_eq (decode : Decoder) (w : World) (g : Given) :
    loadSettings decode w g =
      match settingsPath? w g with
      | some path => (Settings.load decode w.env w.disk path, path)
      | none => (.ok .default, []) := by
  unfold loadSettings settingsPath? Settings.loadFound Settings.find?
  cases (g.value? .config).getD [] with
  | cons b flag => rfl
  | nil => cases w.env.get Settings.pathVariable <;> rfl

/-- Settings are loaded if the file gives valid ones. -/
theorem loadSettings_of_gives {given : Settings} (h : Gives decode w g given)
    (hvalid : given.IsValidWhereGiven) : (loadSettings decode w g).1 = .ok given.withDefaults := by
  cases h with
  | file hpath hread hdecode =>
    rw [loadSettings_eq, hpath]
    exact Settings.loadAt_eq_ok_iff.mpr ⟨_, given, hread, hdecode, hvalid, rfl⟩
  | nothing hpath =>
    rw [loadSettings_eq, hpath]
    rfl

/-- What is loaded was given, and is valid. -/
theorem gives_of_loadSettings {s : Settings} (h : (loadSettings decode w g).1 = .ok s) :
    ∃ given, Gives decode w g given ∧ given.IsValidWhereGiven ∧ given.withDefaults = s := by
  rcases hpath : settingsPath? w g with _ | path
  · rw [loadSettings_eq, hpath] at h
    cases h
    exact ⟨.unset, .nothing hpath, Settings.isValidWhereGiven_unset, rfl⟩
  · rw [loadSettings_eq, hpath] at h
    obtain ⟨content, given, hread, hdecode, hvalid, rfl⟩ := Settings.loadAt_eq_ok_iff.mp h
    exact ⟨given, .file hpath hread hdecode, hvalid, rfl⟩

/-- What the file gives is refused if it is not valid. -/
theorem loadSettings_of_not_valid {given : Settings} (h : Gives decode w g given)
    (hvalid : ¬given.IsValidWhereGiven) : ∃ path, settingsPath? w g = some path ∧
      (loadSettings decode w g).1 =
        .error (.invalid (w.env.expand path) given.withDefaults.problems) := by
  cases h with
  | @file path content given hpath hread hdecode =>
    refine ⟨path, hpath, ?_⟩
    rw [loadSettings_eq, hpath]
    exact Settings.loadAt_of_not_valid hread hdecode hvalid
  | nothing => exact absurd Settings.isValidWhereGiven_unset hvalid

/-! ## Setups

The settings are checked as the file gives them, and once more with the flags laid over; the logger
never refuses what passed. `make_cases` lists the ends, and the theorem puts them in one
equivalence. -/

/-- A fault of the file ends the setup. -/
theorem make_of_refused {f : Settings.LoadFault} (h : (loadSettings decode w g).1 = .error f) :
    Setup.make decode w g = .error (.file f) := by
  unfold Setup.make
  rcases hload : loadSettings decode w g with ⟨loaded, path⟩
  rw [hload] at h
  subst h
  rfl

/-- What is wrong with the flags ends it, too. -/
theorem make_of_not_isValid {s : Settings} (h : (loadSettings decode w g).1 = .ok s)
    (hvalid : ¬(override g s).IsValid) :
    Setup.make decode w g = .error (.settings (override g s).problems) := by
  unfold Setup.make
  rcases hload : loadSettings decode w g with ⟨loaded, path⟩
  rw [hload] at h
  subst h
  show ((override g s).validate.mapError Fault.settings >>= _) = _
  rw [Settings.validate_of_not_isValid hvalid]
  rfl

/-- Nothing else does: for valid settings there is a logger. -/
theorem make_of_isValid {s : Settings} (h : (loadSettings decode w g).1 = .ok s)
    (hvalid : (override g s).IsValid) : ∃ logger record,
      Setup.make decode w g = .ok (⟨override g s, logger⟩, record) ∧
      Log.Logger.make (override g s).logLevel (override g s).logFormat w.stamp w.run =
        .ok logger := by
  obtain ⟨logger, hlogger⟩ := Log.Logger.exists_make hvalid w.stamp w.run
  unfold Setup.make
  rcases hload : loadSettings decode w g with ⟨loaded, path⟩
  rw [hload] at h
  subst h
  refine ⟨logger, if path.isEmpty then logger.debug "using default config" []
    else logger.debug "loaded config" [(Text.utf8 "path", .text path)], ?_, hlogger⟩
  show ((override g s).validate.mapError Fault.settings >>= _) = _
  rw [Settings.validate_of_isValid hvalid]
  show ((Log.Logger.make (override g s).logLevel (override g s).logFormat w.stamp w.run).mapError
    Fault.log >>= _) = _
  rw [hlogger]
  rfl

/-- A setup for what the file gives. -/
structure MakesFor (decode : Decoder) (w : World) (g : Given) (given : Settings) (setup : Setup) :
    Prop where
  gives : Gives decode w g given
  valid_given : given.IsValidWhereGiven
  settings : setup.settings = effective g given
  valid : setup.settings.IsValid
  log : Log.Logger.make setup.settings.logLevel setup.settings.logFormat w.stamp w.run =
    .ok setup.log

/-- The run is set up if the file and the flags are valid. -/
theorem make_of_gives {given : Settings} (h : Gives decode w g given)
    (hgiven : given.IsValidWhereGiven)
    (hvalid : (effective g given).IsValid) :
    ∃ setup record, Setup.make decode w g = .ok (setup, record) ∧
      MakesFor decode w g given setup := by
  rw [← override_withDefaults] at hvalid
  obtain ⟨logger, record, hmake, hlogger⟩ := make_of_isValid (loadSettings_of_gives h hgiven) hvalid
  exact ⟨_, record, hmake, h, hgiven, override_withDefaults g given, hvalid, hlogger⟩

/-- The file can be at fault, or the settings with the flags; else the run is set up. -/
theorem make_cases (decode : Decoder) (w : World) (g : Given) :
    (∃ f, Setup.make decode w g = .error (.file f)) ∨
    (∃ problems, Setup.make decode w g = .error (.settings problems)) ∨
    ∃ given setup record, Setup.make decode w g = .ok (setup, record) ∧
      MakesFor decode w g given setup := by
  rcases hload : (loadSettings decode w g).1 with f | s
  · exact .inl ⟨f, make_of_refused hload⟩
  · obtain ⟨given, hgives, hgiven, rfl⟩ := gives_of_loadSettings hload
    by_cases hvalid : (effective g given).IsValid
    · exact .inr (.inr ⟨given, make_of_gives hgives hgiven hvalid⟩)
    · rw [← override_withDefaults] at hvalid
      exact .inr (.inl ⟨_, make_of_not_isValid hload hvalid⟩)

/-- A setup that was made is one for what the file gives. -/
theorem makesFor_of_make {setup : Setup} {record : Bytes}
    (h : Setup.make decode w g = .ok (setup, record)) :
    ∃ given, MakesFor decode w g given setup := by
  obtain ⟨f, hmake⟩ | ⟨problems, hmake⟩ | ⟨given, setup', record', hmake, hmakes⟩ :=
    make_cases decode w g
  · cases h.symm.trans hmake
  · cases h.symm.trans hmake
  · cases h.symm.trans hmake
    exact ⟨given, hmakes⟩

/-- A width of zero is none, so a width that is not negative comes out positive. -/
theorem frameWidth_effective_pos {given : Settings} (h : given.IsValidWhereGiven) :
    0 < (effective g given).frameWidth := by
  have hwidth := h.width
  show 0 < if given.frameWidth = 0 then 30 else given.frameWidth
  split <;> omega

/-- A run is set up exactly if the settings file can be read and makes sense, what it gives is
valid, and the settings are valid with the flags. Then a setting is what a flag says, else what the
file gives, else its default, the settings pass every check, and the log is opened with them. What
is not valid in the file is refused whatever the flags say, and the log is never what fails. The
decoder may be any. -/
theorem make_effective (decode : Decoder) (w : World) (g : Given) :
    ((∃ made, Setup.make decode w g = .ok made) ↔
      ∃ given, Gives decode w g given ∧ given.IsValidWhereGiven ∧ (effective g given).IsValid) ∧
    (∀ setup record, Setup.make decode w g = .ok (setup, record) →
      ∃ given, Gives decode w g given ∧ setup.settings = effective g given ∧
        0 < setup.settings.frameWidth ∧ setup.settings.validate = .ok setup.settings ∧
        Log.Logger.make setup.settings.logLevel setup.settings.logFormat w.stamp w.run =
          .ok setup.log) ∧
    (∀ given, Gives decode w g given → ¬given.IsValidWhereGiven →
      ∃ path, settingsPath? w g = some path ∧ Setup.make decode w g =
        .error (.file (.invalid (w.env.expand path) given.withDefaults.problems))) ∧
    (∀ f, Setup.make decode w g ≠ .error (.log f)) := by
  refine ⟨⟨?_, ?_⟩, ?_, ?_, ?_⟩
  · rintro ⟨⟨setup, record⟩, hmake⟩
    obtain ⟨given, h⟩ := makesFor_of_make hmake
    exact ⟨given, h.gives, h.valid_given, h.settings ▸ h.valid⟩
  · rintro ⟨given, hgives, hgiven, hvalid⟩
    obtain ⟨setup, record, hmake, -⟩ := make_of_gives hgives hgiven hvalid
    exact ⟨_, hmake⟩
  -- What was made was made from settings of some file.
  · intro setup record hmake
    obtain ⟨given, h⟩ := makesFor_of_make hmake
    refine ⟨given, h.gives, h.settings, ?_, Settings.validate_of_isValid h.valid, h.log⟩
    rw [h.settings]
    exact frameWidth_effective_pos h.valid_given
  · intro given hgives hgiven
    obtain ⟨path, hpath, hload⟩ := loadSettings_of_not_valid hgives hgiven
    exact ⟨path, hpath, make_of_refused hload⟩
  -- A log fails for an unknown level or format only, and checked settings have neither.
  · intro f hmake
    obtain ⟨f, hother⟩ | ⟨problems, hother⟩ | ⟨given, setup, record, hother, -⟩ :=
      make_cases decode w g
    · cases hmake.symm.trans hother
    · cases hmake.symm.trans hother
    · cases hmake.symm.trans hother

/-- An environment that names a settings file by way of a variable. -/
def namingEnvironment : Environment :=
  ⟨[(Settings.pathVariable, Text.utf8 "$D.toml"), (Text.utf8 "D", Text.utf8 "own")]⟩

/-- The path that the name stands for. -/
def ownPath : Bytes := Text.utf8 "own.toml"

/-- A world in which that file has some content. -/
def namingWorld (content : Bytes) : World where
  env := namingEnvironment
  disk := .ofCopies [⟨ownPath, .ok content, ownPath⟩]
  stamp := []
  run := []
  terminal := false
  styles := fun _ text => text

/-- Flags for the color and the log. -/
def someFlags : Given :=
  ⟨[(.color, Text.utf8 "always"), (.logLevel, Text.utf8 "info"), (.verbose, Given.on)], []⟩

theorem expand_ownPath : namingEnvironment.expand (Text.utf8 "$D.toml") = ownPath := by
  decide +kernel

theorem settingsPath?_namingWorld (content : Bytes) :
    settingsPath? (namingWorld content) someFlags = some (Text.utf8 "$D.toml") := rfl

/-- Settings for the color, the frame width and the log. -/
def fullFile : Bytes :=
  Text.utf8 "[diagnostics]\ncolor = \"never\"\nframe_width = 12\n[log]\nlevel = \"error\"\n"

/-- What they are. -/
def fullSettings : Settings :=
  { Settings.unset with
    color := Text.utf8 "never", frameWidth := 12, logLevel := Text.utf8 "error" }

/-- A level that there is not. -/
def badFile : Bytes := Text.utf8 "[log]\nlevel = \"loud\"\n"

/-- What the file gives nevertheless. -/
def badSettings : Settings := { Settings.unset with logLevel := Text.utf8 "loud" }

/-- What the two files set. -/
def namedSettings : Decoder := .knowing [(fullFile, fullSettings), (badFile, badSettings)]

theorem gives_namingWorld {content : Bytes} {given : Settings}
    (h : namedSettings .toml content = .ok given) :
    Gives namedSettings (namingWorld content) someFlags given := by
  have hformat : Format.ofPath ownPath = .toml := by decide +kernel
  have hread : (namingWorld content).disk.read ownPath = .ok content := rfl
  refine @Gives.file _ _ _ _ content _ (settingsPath?_namingWorld content) ?_ ?_
  · rw [← hread]
    exact congrArg _ expand_ownPath
  · show namedSettings (Format.ofPath (namingEnvironment.expand (Text.utf8 "$D.toml"))) content = _
    rw [expand_ownPath, hformat]
    exact h

/-- The flags decide on the color and the level, the file on the width. A bad level in the file is
refused, though the flags have another one. -/
theorem make_effective_someFlags :
    (∃ setup record, Setup.make namedSettings (namingWorld fullFile) someFlags = .ok (setup, record) ∧
      setup.settings = ⟨Text.utf8 "always", 12, Text.utf8 "text", Text.utf8 "debug",
        Text.utf8 "text"⟩) ∧
    Setup.make namedSettings (namingWorld badFile) someFlags =
      .error (.file (.invalid ownPath [.notAllowed .logLevel (Text.utf8 "loud")])) := by
  have hfull : Gives namedSettings (namingWorld fullFile) someFlags fullSettings :=
    gives_namingWorld (Decoder.knowing_toml (by decide))
  have hbadFile : Gives namedSettings (namingWorld badFile) someFlags badSettings :=
    gives_namingWorld (Decoder.knowing_toml (by decide))
  have hgiven : fullSettings.IsValidWhereGiven := by
    refine ⟨fun c => ?_, by decide⟩
    cases c <;> decide
  have hvalid : (effective someFlags fullSettings).IsValid := by
    refine ⟨fun c => ?_, by decide⟩
    cases c <;> decide
  have hbad : ¬badSettings.IsValidWhereGiven := fun h => absurd (h.allowed .logLevel) (by decide)
  obtain ⟨hmakes, hsettings, -, -⟩ := make_effective namedSettings (namingWorld fullFile) someFlags
  obtain ⟨-, -, hrefuses, -⟩ := make_effective namedSettings (namingWorld badFile) someFlags
  constructor
  · obtain ⟨⟨setup, record⟩, hmake⟩ := hmakes.mpr ⟨fullSettings, hfull, hgiven, hvalid⟩
    obtain ⟨given, hgives, heffective, -⟩ := hsettings setup record hmake
    rw [hgives.unique hfull] at heffective
    exact ⟨setup, record, hmake, heffective⟩
  · obtain ⟨path, hpath, hmake⟩ := hrefuses badSettings hbadFile hbad
    have hname := Option.some.inj (hpath.symm.trans (settingsPath?_namingWorld badFile))
    have hexpand : (namingWorld badFile).env.expand (Text.utf8 "$D.toml") = ownPath := expand_ownPath
    have hproblems : badSettings.withDefaults.problems =
        [.notAllowed .logLevel (Text.utf8 "loud")] := by decide
    rw [hmake, hname, hexpand, hproblems]

end Command

end LetFn
