import NativeGlue.Shell.Alias
import NativeGlue.Shell.Condition
import NativeGlue.Shell.Control
import NativeGlue.Shell.FileProgram
import NativeGlue.Shell.Limits
import NativeGlue.Shell.ScriptReader

/-!
What the name of a command stands for: a function, a builtin, or a program in one of the
directories that are searched. 
-/

namespace NativeGlue.Shell

open Text

inductive Meaning where
  | function (body : Command)
  | builtin
  | program (path : Text)
  | unknown (fault : FileFault)

namespace Lookup

/-- Builtins that run no commands of their own. -/
def builtins : List (String × (List Text → Run Nat)) :=
  [(":", fun _ => return 0), ("true", fun _ => return 0), ("false", fun _ => return 1),
    ("echo", Output.echo), ("printf", Output.printf), ("test", Condition.builtin),
    ("[", Condition.bracket), ("exit", Control.exit), ("return", Control.finish),
    ("break", Control.leave), ("continue", Control.again), ("cd", Control.changeDirectory),
    ("chdir", Control.changeDirectory), ("pwd", Control.showDirectory), ("umask", Limits.mask),
    ("kill", Control.kill), ("trap", Control.trap), ("export", Variables.exportBuiltin),
    ("readonly", Variables.readOnlyBuiltin), ("local", Variables.localBuiltin),
    ("unset", Variables.unset), ("set", Variables.set), ("shift", Variables.shift),
    ("getopts", Variables.getopts), ("read", Variables.read),
    ("times", fun _ => Run.emit "0m0.00s 0m0.00s\n0m0.00s 0m0.00s\n".toList),
    ("jobs", Job.list), ("wait", Job.wait), ("ulimit", Limits.limit), ("alias", Alias.make),
    ("unalias", Alias.remove), ("bg", Job.resume), ("fg", Job.resume)]

def builtin? (name : Text) : Option (List Text → Run Nat) :=
  (builtins.find? fun entry => entry.1.toList == name).map (·.2)

/-- Builtins that run commands or look for them. -/
def commandBuiltins : List String :=
  ["eval", ".", "exec", "command", "type", "hash"]

def isBuiltin (name : Text) : Bool :=
  (builtin? name).isSome || commandBuiltins.contains (String.ofList name)

def isSpecial (name : Text) : Bool := specialBuiltins.contains (String.ofList name)

/-- Builtins whose arguments may be assignments. -/
def takesAssignments (name : Text) : Bool :=
  ["export", "readonly", "local"].contains (String.ofList name)

def isShell (program : Text) : Bool := program == "dash".toList

/-- The directories of programs. -/
def programDirectories : List Text := ["/usr/bin".toList, "/bin".toList]

/-- The name of the program to which a path leads. -/
def programAt? (path : Text) : Run (Option Text) := do
  match ← Run.find? path with
  | some (.program name) => return some name
  | _ => return none

/-- Why a path cannot be run, if it does not lead to a program. -/
def refusal? (path : Text) : Run (Option FileFault) := do
  match ← Run.onTree path Tree.lookup with
  | .ok (.program _) => return none
  | .ok _ => return some .denied
  | .error fault => return some fault

/-- The path of a program whose name is looked for in directories. What cannot be run there is
passed over. -/
def search (name : Text) : List Text → FileFault → Run (Except FileFault Text)
  | [], fault => return .error fault
  | d :: directories, fault => do
    let path := if d.isEmpty then name else d ++ '/' :: name
    match ← refusal? path with
    | none => return .ok path
    | some found =>
      let fault :=
        if found = .denied then .denied
        else if found = .missing || found = .notDirectory then fault else found
      search name directories fault

def searchedDirectories : Run (List Text) := do
  return ((← Run.value? "PATH".toList).getD []).splitOn ':'

/-- The path of a program that is looked for where the shell is told to. -/
def find (name : Text) : Run (Except FileFault Text) := do
  let result ← search name (← searchedDirectories) .missing
  if result matches .ok _ then
    modify fun s => { s with tracked := name :: s.tracked.filter (· != name) }
  return result

/-- The function or builtin of a name. -/
def within? (skipsFunctions : Bool) (name : Text) : Run (Option Meaning) := do
  let functions := (← get).functions
  match if skipsFunctions then none else functions.lookup name with
  | some body => return some (.function body)
  | none => return if isBuiltin name then some .builtin else none

/-- What a name stands for. A path is not looked at before it is run. -/
def meaning (name : Text) : Run Meaning := do
  if name.contains '/' then return .program name
  else
    match ← within? false name with
    | some m => return m
    | none =>
      match ← find name with
      | .ok path => return .program path
      | .error fault => return .unknown fault

/-- How a fault is told where a program was looked for. -/
def faultText : FileFault → Text
  | .missing => "not found".toList
  | .notDirectory => "not found".toList
  | fault => fault.description

def notFound : Nat := 127

/-- Tell what a name stands for, in full or only by a name or path. -/
def describe (inFull : Bool) (name : Text) : Run Nat := do
  let line (full brief : Text) : Run Nat :=
    Run.emit ((if inFull then name ++ " is ".toList ++ full else brief) ++ ['\n'])
  let isTracked := (← get).tracked.contains name
  let unknown : Run Nat := do
    if inFull then
      let _ ← Run.emit (name ++ ": not found\n".toList)
    return notFound
  if (keyword? name).isSome then return ← line "a shell keyword".toList name
  match (← get).aliases.lookup name with
  | some value => line ("an alias for ".toList ++ value) (Alias.definition name value)
  | none =>
    match ← meaning name with
    | .function _ => line "a shell function".toList name
    | .builtin =>
      line ((if isSpecial name then "a special shell builtin" else "a shell builtin").toList) name
    | .program path =>
      let isThere := (← Run.find? path).isSome
      let lead := if isTracked then "a tracked alias for ".toList else []
      if isThere then line (lead ++ path) path else unknown
    | .unknown _ => unknown

def type (names : List Text) : Run Nat := do
  return (← names.mapM (describe true)).foldl max 0

/-- Look for commands and complain about those that are not found. Without arguments the programs
that were found before are listed. -/
def hash (args : List Text) : Run Nat := do
  let (options, names) ← Run.readOptions "r" "" args
  if !options.isEmpty then modify fun s => { s with tracked := [] }
  if args.isEmpty then
    let paths ← (Text.sort (← get).tracked).mapM fun name => do
      return ((← find name).toOption.getD []) ++ ['\n']
    let _ ← Run.emit paths.flatten
  let statuses ← names.mapM fun name => do
    match ← meaning name with
    | .unknown fault => Run.warnWith 1 (name ++ ": ".toList ++ faultText fault)
    | _ => return 0
  return statuses.foldl max 0

end Lookup

end NativeGlue.Shell
