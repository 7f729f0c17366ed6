import NativeGlue.Command.Inspect

/-!
The tool as a whole: a command line runs on a workspace and ends with an exit code. Reported
failures are shown on the error output and give the code 2.
-/

namespace NativeGlue.Tool

open Text Command

inductive Ending where
  | exit (code : Nat)
  | usage (usage : Usage)
  deriving DecidableEq, Repr

def dispatch : Invocation → Action Nat
  | .generate options => Generate.run options
  | .generateFile options => Generate.runFile options
  | .parse options => Inspect.segments options
  | .listTargets config => Inspect.listTargets config
  | .validateConfig root config => Inspect.validate root config

/-- Show a reported failure; a fatal one goes on. -/
def showFailure : Failure → Action Nat
  | .reported failure => do
    Action.complain ("jnigen error: ".toList ++ failure.message)
    return 2
  | .fatal condition => Action.fatal condition

def run (args : List Text) : Action Ending := do
  match invocation args with
  | .error usage => return .usage usage
  | .ok i => return .exit (← tryCatch (dispatch i) showFailure)

end NativeGlue.Tool
