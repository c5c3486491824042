import BoundSql.CommandLine.Run

/-!
# The program

Reads what the command line names, and prints what `CommandLine.run` says.
-/

open BoundSql CommandLine

/-- What can be read, if it can. -/
def attempt (read : IO String) : IO (Option String) := do
  try
    return some (← read)
  catch _ => return none

/-- The texts of files. -/
def readTexts (paths : List String) : IO (List (String × Option String)) :=
  paths.mapM fun (path : String) => do return (path, ← attempt (IO.FS.readFile path))

/-- Runs a command line. -/
def main (args : List String) : IO UInt32 := do
  let environment : Environment :=
    { dialect := ← IO.getEnv "BOUNDSQL_DIALECT", maxLength := ← IO.getEnv "BOUNDSQL_MAX_STATEMENT_LEN" }
  let some request := Request.read? environment args
    | do
      IO.eprintln "usage: boundsql [OPTIONS] (parse | params | render | check | split) [FILE]"
      return 2
  let texts ← readTexts request.files
  let input ←
    if request.readsInput then attempt (do (← IO.getStdin).readToEnd) else pure none
  let world : World :=
    { program := "boundsql", environment, input, file := fun path => (texts.lookup path).join }
  match request.print world with
  | .ok text =>
    IO.print text
    return 0
  | .error f =>
    IO.eprintln f.report
    return 1
