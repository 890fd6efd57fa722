import LetFn.Text.Quoted

/-!
# Flags on a command line

Flags may stand anywhere among the words of a command line, until `--` ends them. A flag has a long
name behind two dashes, and some have a letter behind one. A switch is on when it is there, unless
a value says otherwise; the other flags take a value, behind an equals sign or as the next word.
Letters can share a dash. Of several values for a flag the last one counts.
-/

namespace LetFn.Command

/-! ### Flags -/

/-- A flag of some command. -/
inductive Flag where
  | config
  | color
  | logLevel
  | verbose
  | help
  | path
  | format
  | check
  deriving DecidableEq, Repr

namespace Flag

/-- The long name. -/
def name : Flag → Bytes
  | config => Text.utf8 "config"
  | color => Text.utf8 "color"
  | logLevel => Text.utf8 "log-level"
  | verbose => Text.utf8 "verbose"
  | help => Text.utf8 "help"
  | path => Text.utf8 "path"
  | format => Text.utf8 "format"
  | check => Text.utf8 "check"

/-- The letter, if the flag has one. -/
def letter? : Flag → Option UInt8
  | verbose => some 0x76
  | help => some 0x68
  | path => some 0x70
  | _ => none

/-- The flag is on or off and needs no value. -/
def isSwitch : Flag → Bool
  | verbose | help | check => true
  | _ => false

/-- The flag as messages show it. -/
def usage (f : Flag) : Bytes :=
  (match f.letter? with
    | some letter => Text.utf8 "-" ++ [letter] ++ Text.utf8 ", "
    | none => []) ++ Text.utf8 "--" ++ f.name

/-- The flags that every command has. -/
def common : List Flag := [config, color, logLevel, verbose]

/-- The flag with a long name. -/
def named? (known : List Flag) (name : Bytes) : Option Flag := known.find? (·.name == name)

/-- The flag with a letter. -/
def lettered? (known : List Flag) (letter : UInt8) : Option Flag :=
  known.find? (·.letter? == some letter)

end Flag

/-! ### Faults -/

/-- What is wrong with the flags. -/
inductive FlagFault where
  | badName (word : Bytes)
  | unknownName (name : Bytes)
  | unknownLetter (letter : UInt8) (letters : Bytes)
  | nameNeedsValue (word : Bytes)
  | letterNeedsValue (letter : UInt8) (letters : Bytes)
  | notTruth (flag : Flag) (value : Bytes)
  deriving DecidableEq, Repr

/-- A letter between single quotes, and the letters it is among. -/
def FlagFault.letterText (letter : UInt8) (letters : Bytes) : Bytes :=
  Text.quoteChar (Char.ofNat letter.toNat) ++ Text.utf8 " in -" ++ letters

/-- What the fault says. -/
def FlagFault.message : FlagFault → Bytes
  | badName word => Text.utf8 "bad flag syntax: " ++ word
  | unknownName name => Text.utf8 "unknown flag: --" ++ name
  | unknownLetter letter letters =>
    Text.utf8 "unknown shorthand flag: " ++ letterText letter letters
  | nameNeedsValue word => Text.utf8 "flag needs an argument: " ++ word
  | letterNeedsValue letter letters =>
    Text.utf8 "flag needs an argument: " ++ letterText letter letters
  | notTruth flag value =>
    Text.utf8 "invalid argument " ++ Text.quote value ++ Text.utf8 " for " ++
      Text.quote flag.usage ++ Text.utf8 " flag: strconv.ParseBool: parsing " ++
      Text.quote value ++ Text.utf8 ": invalid syntax"

/-! ### Reading flags -/

/-- The flags with their values, the last one first, and the other words, in order. -/
structure Given where
  values : List (Flag × Bytes)
  words : List Bytes
  deriving DecidableEq, Repr

namespace Given

/-- Nothing is given. -/
def none : Given := ⟨[], []⟩

/-- With one more word. -/
def addWord (g : Given) (word : Bytes) : Given := { g with words := g.words ++ [word] }

/-- The value of a flag, if it is given. -/
def value? (g : Given) (f : Flag) : Option Bytes := g.values.lookup f

/-- The truth value that a word stands for. -/
def truth? (word : Bytes) : Option Bool :=
  if (["1", "t", "T", "TRUE", "true", "True"].map Text.utf8).contains word then some true
  else if (["0", "f", "F", "FALSE", "false", "False"].map Text.utf8).contains word then some false
  else Option.none

/-- A switch is on. -/
def isOn (g : Given) (f : Flag) : Bool := ((g.value? f).bind truth?).getD false

/-- With a value for a flag, which has to be a truth value for a switch. -/
def set (g : Given) (f : Flag) (value : Bytes) : Except FlagFault Given :=
  if f.isSwitch && (truth? value).isNone then .error (.notTruth f value)
  else .ok { g with values := (f, value) :: g.values }

/-- The dash. -/
def dash : UInt8 := 0x2D

/-- The equals sign. -/
def equals : UInt8 := 0x3D

/-- The value of a switch that is given without one. -/
def on : Bytes := Text.utf8 "true"

/-- Reads a long flag, with the word after it at hand: whether that is used, too. -/
def readName (known : List Flag) (g : Given) (word : Bytes) (next : Option Bytes) :
    Except FlagFault (Given × Bool) :=
  let text := word.drop 2
  let name := text.takeWhile (· != equals)
  if name.isEmpty || name.head? == some dash then .error (.badName word)
  else
    match Flag.named? known name with
    | Option.none => .error (.unknownName name)
    | some f =>
      if name.length < text.length then do
        return (← g.set f (text.drop (name.length + 1)), false)
      else if f.isSwitch then do return (← g.set f on, false)
      else
        match next with
        | some value => do return (← g.set f value, true)
        | Option.none => .error (.nameNeedsValue word)

/-- What test frameworks pass along begins like this, and is left alone. -/
def testMark : Bytes := Text.utf8 "test."

/-- Reads letters behind one dash, with the word after them at hand: whether that is used, too. -/
def readLetters (known : List Flag) (g : Given) (next : Option Bytes) :
    Bytes → Except FlagFault (Given × Bool)
  | [] => .ok (g, false)
  | letter :: rest =>
    if testMark.isPrefixOf (letter :: rest) then .ok (g, false)
    else
      match Flag.lettered? known letter with
      | Option.none => .error (.unknownLetter letter (letter :: rest))
      | some f =>
        -- An equals sign with nothing behind it does not end the letters.
        if rest.head? == some equals && 1 < rest.length then do
          return (← g.set f (rest.drop 1), false)
        else if f.isSwitch then do
          (← g.set f on).readLetters known next rest
        else if !rest.isEmpty then do return (← g.set f rest, false)
        else
          match next with
          | some value => do return (← g.set f value, true)
          | Option.none => .error (.letterNeedsValue letter (letter :: rest))

/-- Reads the words of a command line, the words before them taken in. -/
def readAll (known : List Flag) (g : Given) : List Bytes → Except FlagFault Given
  | [] => .ok g
  | word :: rest =>
    if word == [dash, dash] then .ok { g with words := g.words ++ rest }
    else if word.head? != some dash || word.length == 1 then readAll known (g.addWord word) rest
    else do
      let (g, usesNext) ←
        if word[1]? == some dash then g.readName known word rest.head?
        else g.readLetters known rest.head? (word.drop 1)
      if usesNext then
        match rest with
        | _ :: rest => readAll known g rest
        | [] => .ok g
      else readAll known g rest

/-- Reads the words of a command line. -/
def read (known : List Flag) (words : List Bytes) : Except FlagFault Given :=
  readAll known none words

end Given

end LetFn.Command
