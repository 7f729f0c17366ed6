import NativeGlue.Config.Target
import NativeGlue.Files.Workspace
import NativeGlue.Json.Printer
import NativeGlue.Json.Reader

/-!
JSON files: configurations, which are checked when they are loaded, and reports.
-/

namespace NativeGlue.Document

open Text Json

def load (p : Path) : Action Members := do
  let t ← Action.readTextOr (.unreadableJson p.text) p
  match Json.parse t with
  | .ok (.obj members) => return members
  | .ok _ => Action.report (.jsonNotAnObject p.text)
  | .error stop =>
    match stop.cause with
    | .integerTooLong => Action.fatal .integerTooLong
    | .tooDeep => Action.fatal .tooDeep
    | _ => Action.report (.badJson p.text (stop.message t))

def loadConfig (p : Path) : Action Members := do
  Action.liftConfig (Config.check (.obj (← load p)))

def write (p : Path) (v : Value) : Action Unit := Action.writeText p (v.document ++ ['\n'])

end NativeGlue.Document
