import LetFn.Command.Run

/-!
# What a command looks at

Before a command can run, the variables and the files that it may ask for have to be at hand. The
lists here may name more than a run will use, but never less.
-/

namespace LetFn.Command

/-- The variables that are asked for by name. -/
def ownVariables : List Bytes := [Settings.pathVariable, Text.utf8 "HOME"]

/-- The paths at which settings may be, with names of variables in them. -/
def Request.settingsPaths (r : Request) (env : Environment) : List Bytes :=
  (r.given.value? .config).toList ++ [env.get Settings.pathVariable] ++ Settings.places env

/-- The variables that the paths of settings refer to. -/
def Request.variables (r : Request) (env : Environment) : List Bytes :=
  (r.settingsPaths env).flatMap Environment.names

/-- The files that a run may ask for. -/
def Request.files (r : Request) (env : Environment) : List Bytes :=
  Settings.places env ++ (r.settingsPaths env).map env.expand ++ (r.given.value? .path).toList ++
    r.given.words ++ [Repl.History.path (Settings.home env)]

end LetFn.Command
