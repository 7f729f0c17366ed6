import NativeGlue.Command.Arguments
import NativeGlue.Diff.Unified
import NativeGlue.Files.Workspace

/-!
Generated files. A file is written only if its text changes; checking and dry runs only say what
would happen.
-/

namespace NativeGlue.Artifact

open Text Command

inductive Status where
  | unchanged | updated | pending | drifted
  deriving DecidableEq, Repr

def Status.label : Status → Text
  | unchanged => "unchanged".toList
  | updated => "updated".toList
  | pending => "would_write".toList
  | drifted => "drift".toList

/-- What becomes of a text that differs from the file's. -/
def changeStatus (mode : WriteMode) : Status :=
  if mode.check then .drifted else if mode.dryRun then .pending else .updated

def currentText (p : Path) : Action Text := do
  if ← Action.isPresent p then Action.readText p else return []

/-- Bring a file to a text, as far as the mode allows, and show the difference. -/
def update (p : Path) (content : Text) (mode : WriteMode) : Action (Status × Text) := do
  let old ← currentText p
  if old = content then return (.unchanged, [])
  else
    let difference :=
      Diff.unified old content ("a/".toList ++ p.text) ("b/".toList ++ p.text)
    let status := changeStatus mode
    if status = .updated then Action.writeText p content
    return (status, difference)

end NativeGlue.Artifact
