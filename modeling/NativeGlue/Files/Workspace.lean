import NativeGlue.Failure
import NativeGlue.Files.Programs
import NativeGlue.Files.Resolution
import NativeGlue.Text.Encoding
import NativeGlue.Text.Lines

/-!
A workspace is a file tree, the directory in which a command runs, what the command has printed,
and the programs of the machine. An action reads and changes a workspace and may fail; what it has
done by then stays done.
-/

namespace NativeGlue

open Text

structure Workspace where
  tree : Tree
  directory : Location
  output : Text
  errors : Text
  [programs : Programs]

abbrev Action := ExceptT Failure (StateM Workspace)

namespace Workspace

/-- A workspace at the root of a tree, on a machine without programs. -/
def ofTree (tree : Tree) : Workspace :=
  { tree := tree, directory := [], output := [], errors := [], programs := .none }

/-- A workspace in which nothing but the root exists. -/
def empty : Workspace := ofTree .empty

/-- Where the walk along a path starts. -/
def startOf (w : Workspace) (p : Path) : Location := if p.isAbsolute then [] else w.directory

/-- Apply an operation on paths to the tree, unless the path is too long for any. -/
def apply {α : Type} (w : Workspace) (p : Path)
    (operation : Tree → Location → List Text → Except FileFault α) : Except FileFault α :=
  if p.isTooLong then .error .nameTooLong else operation w.tree (w.startOf p) p.parts

def hasNul (p : Path) : Bool := p.parts.any fun part => part.contains '\x00'

/-- Whether a path holds characters that have no bytes in a name. -/
def isUnnamable (p : Path) : Bool := p.parts.any fun part => part.any isUnencodable

/-- The tree to which a path leads. There is none where no file can have such a path. -/
def lookup (w : Workspace) (p : Path) : Except FileFault Tree :=
  if hasNul p || isUnnamable p then .error .missing else w.apply p Tree.lookup

end Workspace

namespace Action

def fatal {α : Type} (condition : Fatal) : Action α := throw (.fatal condition)

def report {α : Type} (failure : Reported) : Action α := throw (.reported failure)

def liftConfig {α : Type} : Except Config.Fault α → Action α
  | .ok a => return a
  | .error fault => report (.config fault)

/-- Write a line on the output. -/
def say (line : Text) : Action Unit :=
  modify fun w => { w with output := w.output ++ line ++ ['\n'] }

/-- Write a line on the error output. -/
def complain (line : Text) : Action Unit :=
  modify fun w => { w with errors := w.errors ++ line ++ ['\n'] }

/-- Refuse paths that no file can have. -/
def refuseUnusable (p : Path) : Action Unit :=
  if Workspace.isUnnamable p then fatal .notEncodable
  else if Workspace.hasNul p then fatal .nulInPath
  else pure ()

/-- Apply an operation on paths to the tree. -/
def onTree {α : Type} (p : Path)
    (operation : Tree → Location → List Text → Except FileFault α) :
    Action (Except FileFault α) := do
  refuseUnusable p
  return (← get).apply p operation

/-- Change the tree by an operation on paths. -/
def changeTree (p : Path) (operation : Tree → Location → List Text → Except FileFault Tree) :
    Action Unit := do
  match ← onTree p operation with
  | .ok tree => modify fun w => { w with tree := tree }
  | .error fault => fatal (.file fault)

/-- The absolute path without links, dots and repeated slashes that names the same place. A path
that only leads around in links is refused. -/
def resolve (p : Path) : Action Path := do
  refuseUnusable p
  let w ← get
  let resolved := w.tree.resolve w.directory p
  if w.lookup resolved matches .error .linkLoop then fatal .linkLoop else return resolved

/-- The path that a switch gives. -/
def givenPath : Option Text → Action Path
  | some t => return Path.ofText t
  | none => fatal .noPath

/-- Look for what is at a path. Nothing is found where the path leads nowhere. -/
def find? (p : Path) : Action (Option Tree) := do
  match (← get).lookup p with
  | .ok tree => return some tree
  | .error .nameTooLong => fatal (.file .nameTooLong)
  | .error _ => return none

def isPresent (p : Path) : Action Bool := return (← find? p).isSome

def isDirectory (p : Path) : Action Bool := return (← find? p).any Tree.isDirectory

def isFile (p : Path) : Action Bool := return (← find? p).any Tree.isFile

/-- The contents of a text file with line ends unified, or why the file cannot be opened. -/
def readTextOr (onError : FileError → Reported) (p : Path) : Action Text := do
  match ← onTree p Tree.readFile with
  | .error fault => report (onError ⟨fault, p.text⟩)
  | .ok bytes =>
    match decode? bytes with
    | some t => return unifyLineEnds t
    | none => fatal .notText

def readText (p : Path) : Action Text := readTextOr (.unreadable p.text) p

/-- Make a directory that may exist already; the one above it must exist. -/
def makeDirectory (p : Path) : Action Unit := do
  match ← onTree p Tree.makeDirectory with
  | .ok tree => modify fun w => { w with tree := tree }
  | .error fault => if ← isDirectory p then pure () else fatal (.file fault)

/-- How many directories may be missing along a path. -/
def mostMissing : Nat := 985

/-- Make the directory of the first components and those above it, as far as they are missing.
Those after them are `missing` many. -/
def makeDirectoriesTo (slashes : Nat) (parts : List Text) : Nat → Nat → Action Unit
  | _, 0 => makeDirectory ⟨slashes, []⟩
  | missing, count + 1 => do
    let p : Path := ⟨slashes, parts.take (count + 1)⟩
    match ← onTree p Tree.makeDirectory with
    | .error .missing =>
      if mostMissing ≤ missing then fatal .tooDeep
      makeDirectoriesTo slashes parts (missing + 1) count
      makeDirectory p
    | _ => makeDirectory p

def makeDirectories (p : Path) : Action Unit :=
  makeDirectoriesTo p.slashes p.parts 0 p.parts.length

def writeBytes (p : Path) (bytes : Bytes) : Action Unit :=
  changeTree p fun tree here names => tree.writeFile here names bytes

/-- Write a text file, whose directory is made if it is missing. -/
def writeText (p : Path) (t : Text) : Action Unit := do
  makeDirectories p.parent
  writeBytes p (encode t)

/-- Make a link; its target must be a path. -/
def makeLink (p : Path) (target : Text) : Action Unit :=
  changeTree p fun tree here names =>
    if target.isEmpty then .error .missing
    else if Path.isTooLongText target then .error .nameTooLong
    else tree.makeLink here names target

/-- The text of a path as seen from a directory: relative where it lies below it. Nothing lies below
a path that no directory can have. -/
def relativeText (p base : Path) : Action Text := do
  let p ← resolve p
  if Workspace.isUnnamable base || Workspace.hasNul base then return p.text
  else
    let base ← resolve base
    return ((p.relativeTo? base).getD p).text

/-- Run an action on a workspace. -/
def perform {α : Type} (action : Action α) (w : Workspace) : Except Failure α × Workspace :=
  action.run.run w

end Action

end NativeGlue
