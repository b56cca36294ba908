import TierCalc.Console.Run

/-!
# The program

Runs the command that the arguments ask for: its output goes to the standard output, the reason for a failure to the
standard error.
-/

open TierCalc

/-- What is left of a stream. -/
partial def readRest (stream : IO.FS.Stream) (done : String) : IO String := do
  let line ← stream.getLine
  if line.isEmpty then return done else readRest stream (done ++ line)

/-- The variables of the environment that settings may come from. -/
def readEnvironment : IO (List (String × String)) := do
  let names := ("addr" :: Command.globalFlags.map (·.name)).map Settings.variableName
  let found ← names.mapM fun name => return (name, (← IO.getEnv name).getD "")
  return found

def main (args : List String) : IO UInt32 := do
  let input ← if Command.readsInput args then readRest (← IO.getStdin) "" else pure ""
  let outcome := Command.run { args := args, input := input, environment := ← readEnvironment }
  (← IO.getStdout).write ⟨outcome.output.toArray⟩
  match outcome.failure? with
  | none => return 0
  | some e =>
      (← IO.getStderr).putStrLn e.message
      return 1
