import NativeGlue.Files.Workspace
import NativeGlue.Text.Wildcard

/-!
The source files below a directory. Links to directories are not entered, and what version
control keeps is passed over.
-/

namespace NativeGlue.Sources

open Text

def versionControlNames : List Text := [".svn".toList, ".git".toList, ".hg".toList]

def isSourceName (parts : List Text) : Bool :=
  parts.getLast?.any fun name => endsWith ".java".toList name

/-- Whether a file is wanted: some include matches, if there are any, and no exclude does. -/
def isSelected (includes excludes : List Text) (parts : List Text) : Bool :=
  let t := join ['/'] parts
  !parts.any versionControlNames.contains &&
    (includes.isEmpty || Wildcard.isMatchOfAny includes t) &&
    !Wildcard.isMatchOfAny excludes t

/-- The paths of all candidates as seen from the directory, in order. -/
def candidates (tree : Tree) (place : Location) : List (List Text) :=
  let found := (tree.treesBelow place).map fun e => e.1.drop place.length
  (found.filter isSourceName).mergeSort Path.partsLe

def find (root : Path) (includes excludes : List Text) : Action (List Path) := do
  if ← Action.isDirectory root then
    let w ← get
    match w.tree.walk (w.startOf root) root.parts with
    | .error _ => return []
    | .ok place =>
      let selected := (candidates w.tree place).filter (isSelected includes excludes)
      (selected.map fun parts => root.under ⟨0, parts⟩).filterM Action.isFile
  else Action.report (.noSourceDirectory root.text)

/-- The qualified name of the class in a file below a directory. -/
def className (root source : Path) : Action Text := do
  let source ← Action.resolve source
  let root ← Action.resolve root
  match source.relativeTo? root with
  | none => Action.fatal .outside
  | some p =>
    match p.className? with
    | some name => return name
    | none => Action.fatal .noFileName

end NativeGlue.Sources
