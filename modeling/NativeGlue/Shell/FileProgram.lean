import NativeGlue.Shell.Copy

/-!
The programs that show, make and remove files and directories, and those that only have a
status.
-/

namespace NativeGlue.Shell

open Text

namespace FileProgram

def showOptions : OptionTable := [.short "unbuffered" "u"]

def showOne (path : Text) : Run Nat := do
  if path = ['-'] then
    let _ ← Run.write 1 (← Run.readAll 0)
    return 0
  else
    match ← Run.readFile path with
    | .ok t =>
      let _ ← Run.write 1 t
      return 0
    | .error fault =>
      Program.say (shownBare path ++ ": ".toList ++ fault.description)
      return 1

/-- Write files one after another; the input where there are no operands. -/
def cat (args : List Text) : Run Nat := do
  let a ← showOptions.read args
  Program.forOperands showOne (if a.operands.isEmpty then [['-']] else a.operands)

def directoryOptions : OptionTable :=
  [.optional "context" "Z", .valued "mode" "m", .flag "parents" "p", .flag "verbose" "v"]

def makeOne (tells : Bool) (path : Text) : Run Nat := do
  match ← Run.changeTree path Tree.makeDirectory with
  | .ok () =>
    if tells then
      let _ ← Run.write 1 ("mkdir: created directory ".toList ++ shownName path ++ ['\n'])
    return 0
  | .error fault => Program.refuse "cannot create directory" path fault

/-- The paths along a path. -/
def along (path : Text) : List Text :=
  let parts := (Path.ofText path).parts
  let lead : Text := if path.head? = some '/' then ['/'] else []
  (List.range parts.length).map fun n => lead ++ join ['/'] (parts.take (n + 1))

/-- Make the directories along a path that are missing. -/
def makeAlong (tells : Bool) (path : Text) : Run Nat := do
  let stops := along path
  let one (status : Nat) (stop : Text) : Run Nat := do
    if status != 0 || (← Run.isDirectory stop) then return status
    else if stops.getLast? != some stop && (← Run.find? stop).isSome then
      Program.refuse "cannot create directory" stop .notDirectory
    else makeOne tells stop
  if stops.isEmpty && path.isEmpty then makeOne tells path else stops.foldlM one 0

def mkdir (args : List Text) : Run Nat := do
  let a ← directoryOptions.read args
  let tells := a.has "verbose"
  if a.operands.isEmpty then Program.misuse "missing operand".toList
  else
    Program.forOperands (if a.has "parents" then makeAlong tells else makeOne tells) a.operands

def touchOptions : OptionTable :=
  [.valued "time" "", .flag "no-create" "c", .valued "date" "d", .valued "reference" "r",
    .flag "no-dereference" "h", .short "access" "af", .short "modification" "m",
    ⟨"stamp", [], "t", .always⟩]

def touchOne (isMade : Bool) (path : Text) : Run Nat := do
  match ← Run.onTree path Tree.lookup with
  | .ok _ => return 0
  | .error fault =>
    if path.getLast? = some '/' then Program.refuse "setting times of" path fault
    else if !isMade then return 0
    else
      match ← Run.changeTree path fun tree here names => tree.writeFile here names [] with
      | .ok () => return 0
      | .error fault => Program.refuse "cannot touch" path fault

/-- Make files that are not there. Times are not kept. -/
def touch (args : List Text) : Run Nat := do
  let a ← touchOptions.read args
  if a.operands.isEmpty then Program.misuse "missing file operand".toList
  else Program.forOperands (touchOne (!a.has "no-create")) a.operands

def removeOptions : OptionTable :=
  [.flag "force" "f", .optional "interactive" "", .flag "one-file-system" "",
    .flag "no-preserve-root" "", .optional "preserve-root" "", .flag "recursive" "rR",
    .flag "dir" "d", .flag "verbose" "v"]

/-- Remove what a path leads to. Without options directories stay. -/
def removeOne (a : ProgramArguments) (path : Text) : Run Nat := do
  let refuse (fault : FileFault) : Run Nat := Program.refuse "cannot remove" path fault
  let erase (kind : String) (place : Location) : Run Nat := do
    modify fun s => { s with tree := s.tree.erase place }
    if a.has "verbose" then
      let _ ← Run.write 1 ("removed ".toList ++ kind.toList ++ shownName path ++ ['\n'])
    return 0
  let name := FileName.last path
  match ← Found.look (path.getLast? = some '/') path with
  | .ok ⟨place, .directory inside⟩ =>
    if !(a.has "recursive" || a.has "dir") then refuse .isDirectory
    else if name = ['.'] || name = ['.', '.'] then
      Program.say ("refusing to remove '.' or '..' directory: skipping ".toList ++
        shownName path)
      return 1
    else if a.has "recursive" || inside.isEmpty then erase "directory " place
    else
      Program.say ("cannot remove ".toList ++ shownName path ++ ": Directory not empty".toList)
      return 1
  | .ok ⟨place, _⟩ =>
    if path.getLast? = some '/' then refuse .notDirectory else erase "" place
  | .error fault => if a.has "force" then return 0 else refuse fault

def remove (args : List Text) : Run Nat := do
  let a ← removeOptions.read args
  if a.operands.isEmpty && !a.has "force" then Program.misuse "missing operand".toList
  else Program.forOperands (removeOne a) a.operands

/-- Write arguments as they stand. -/
def echo (args : List Text) : Run Nat := do
  let isOpen := args.head? == some "-n".toList
  let shown := join [' '] (if isOpen then args.tail else args)
  let _ ← Run.write 1 (if isOpen then shown else shown ++ ['\n'])
  return 0

/-- Programs by name. -/
def table : List (String × (List Text → Run Nat)) :=
  [("echo", echo), ("cat", cat), ("cp", Copy.run), ("mkdir", mkdir), ("touch", touch),
    ("rm", remove), ("true", fun _ => return 0), ("false", fun _ => return 1),
    ("sleep", fun _ => return 0)]

def find? (name : Text) : Option (List Text → Run Nat) :=
  (table.find? fun entry => entry.1.toList == name).map (·.2)

end FileProgram

end NativeGlue.Shell
