import ServiceQuery.CommandLine.Run

/-!
# The command line program

Reads the files that the arguments name and prints the outcome.
-/

open ServiceQuery ServiceQuery.CommandLine

/-- What is found under the name of a file. -/
def readEntry (path : String) : IO FileEntry := do
  try
    let content ← IO.FS.readFile path
    pure (.text content)
  catch error =>
    match error with
    | .noFileOrDirectory _ _ _ => pure .absent
    | other => pure (.unreadable (toString other))

/-- The configuration file of the user. -/
def userConfig : IO (Option String) := do
  let home ← IO.getEnv "HOME"
  let base ←
    match ← IO.getEnv "XDG_CONFIG_HOME" with
    | some directory =>
      if directory.startsWith "/" then pure (some directory)
      else pure (home.map (· ++ "/.config"))
    | none => pure (home.map (· ++ "/.config"))
  pure (base.map (· ++ "/odataq/config.toml"))

/-- Runs the command line. -/
def main (arguments : List String) : IO UInt32 := do
  let environment : Environment :=
    { configFile := ← IO.getEnv "ODATAQ_CONFIG", userConfig := ← userConfig }
  let wanted :=
    match Arguments.parse environment.configFile arguments with
    | .ok parsed => paths environment parsed
    | .error _ => []
  let entries ← wanted.mapM fun path => do pure (path, ← readEntry path)
  let outcome := run (fun path => (entries.lookup path).getD .absent) environment arguments
  IO.print outcome.output
  IO.eprint outcome.errors
  pure (UInt32.ofNat outcome.exit)
