/-
# Starting a node

The program starts a node with the options and the environment it is given, announces it, and ends
when its input does.
-/
import SharedLog.CommandLine

namespace SharedLog

/-- The environment of the process, as far as settings come from it. -/
def processEnvironment : IO Environment := do
  let pairs ← Config.variables.filterMapM fun name => do
    return (← IO.getEnv name).map fun value => (name, value.toUTF8)
  return fun name => pairs.lookup name

/-- Waits until the input ends. -/
partial def awaitEnd (input : IO.FS.Stream) : IO Unit := do
  unless (← input.getLine).isEmpty do awaitEnd input

end SharedLog

open SharedLog

/-- Starts a node and keeps it until the input ends. -/
def main (arguments : List String) : IO UInt32 := do
  let env ← processEnvironment
  match (StartOptions.ofArguments arguments).bind (·.configure env) with
  | .error e =>
    IO.eprintln s!"error: {e.message}"
    return 2
  | .ok config =>
    match config.validate with
    | .error e =>
      IO.eprintln s!"Error: {e.message}"
      return 1
    | .ok () =>
      match Node.ofConfig config with
      | .error e =>
        IO.eprintln s!"Error: {e.message}"
        return 1
      | .ok node =>
        IO.println (node.announcement config)
        awaitEnd (← IO.getStdin)
        IO.println "Shutdown signal received"
        return 0
