import NativeGlue.Files.Workspace
import NativeGlue.Text.ShellWord

/-!
External commands. A command runs in a directory of the workspace; what it writes is captured as
text, and one that fails is reported with what it complained about. What the command does there is
up to the programs of the workspace.
-/

namespace NativeGlue.External

open Text

/-- How a command that ran ended. -/
structure Finished where
  code : Int
  output : Text
  errors : Text

/-- The directory in which a command starts, or why there is none. -/
def startDirectory (w : Workspace) (directory : Path) : Except FileFault Location := do
  let place ← w.apply directory Tree.walk
  match w.tree.find? place with
  | some (.directory _) => return place
  | some _ => .error .notDirectory
  | none => .error .missing

/-- Why a command cannot be started, or the directory in which it can. -/
def startable (w : Workspace) (directory : Path) (program : Text) :
    Except FileError Location :=
  match startDirectory w directory with
  | .error fault => .error ⟨fault, directory.text⟩
  | .ok place =>
    match w.programs.refusal? w.tree place program with
    | some fault => .error ⟨fault, program⟩
    | none => .ok place

def capturedText (bytes : Bytes) : Action Text :=
  match decode? bytes with
  | some t => return unifyLineEnds t
  | none => Action.fatal .notText

/-- What a failed command has to say: its errors, or else its output. -/
def details (f : Finished) : Text :=
  let errors := trim f.errors
  let output := trim f.output
  if !errors.isEmpty then errors
  else if !output.isEmpty then output
  else "<no output>".toList

/-- Run a command to its end. -/
def run (command : List Text) (directory : Path) : Action Finished := do
  let shown := quoteCommand command
  match command with
  | [] => Action.fatal .noCommand
  | program :: _ =>
    if command.any fun word => word.any isUnencodable then Action.fatal .notEncodable
    if command.any fun word => word.contains '\x00' then Action.fatal .nulInPath
    let w ← get
    match startable w directory program with
    | .error error => Action.report (.cannotRun shown error)
    | .ok place =>
      let ended := w.programs.execute w.tree place command
      set { w with tree := ended.tree }
      let output ← capturedText ended.output
      let errors ← capturedText ended.errors
      let finished : Finished := ⟨ended.code, output, errors⟩
      if ended.code = 0 then return finished
      else Action.report (.commandFailed shown ended.code (details finished))

/-- Fill one slot in a word. -/
def fillSlot (word : Text) (slot : Text × Text) : Text :=
  replace ('{' :: slot.1 ++ ['}']) slot.2 word

/-- Fill the slots of a command one after another, each also where an earlier value brought it
in. Words that end up empty are left out. -/
def fill (template : List Text) (slots : List (Text × Text)) : List Text :=
  (template.map fun word => slots.foldl fillSlot word).filter (!·.isEmpty)

end NativeGlue.External
