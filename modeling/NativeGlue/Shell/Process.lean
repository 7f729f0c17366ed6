import NativeGlue.Files.Programs
import NativeGlue.Shell.Run

/-!
Running a program in a directory of a tree to its end. It has no input, and what it writes is
collected.
-/

namespace NativeGlue.Shell

open Text

def standardPath : Text :=
  "/usr/local/sbin:/usr/local/bin:/usr/sbin:/usr/bin:/sbin:/bin".toList

def firstProcess : Nat := 4242

/-- The state in which a program starts: its streams lead to three channels. -/
def State.start (tree : Tree) (directory : Location) (name : Text) : State :=
  let exported (t : String) (value : Text) : Text × Variable :=
    (t.toList, ⟨some value, true, false⟩)
  { tree := tree
    channels := [(0, .source [] false), (1, .buffer [] none), (2, .buffer [] none)]
    nextChannel := 3, lastProcess := firstProcess, touched := [], directory := directory
    place := spread (Path.absolute directory).text
    bindings := [exported "HOME" "/root".toList, exported "PATH" standardPath]
    functions := [], aliases := [], documents := [], nextDocument := 0, locals := []
    name := name, arguments := [], status := 0, options := []
    streams := [(0, 0), (1, 1), (2, 2)], traps := [], signals := [], beforeTrap := none, jobs := []
    background := none, tracked := [], line := 0, command := none
    process := firstProcess, parent := firstProcess - 1, loops := 0, substituted := 0, letters := 0
    mask := 18, limits := [] }

namespace State

/-- What was written to a channel. -/
def written (s : State) (id : Nat) : Bytes :=
  match s.channels.lookup id with
  | some (.buffer pieces _) => toBytes pieces.reverse.flatten
  | _ => []

end State

/-- Where the program is that a word names, or why it cannot be started. -/
def locate (name : Text) : Run (Except FileFault Text) := do
  if name.contains '/' then
    match ← Lookup.refusal? name with
    | none => return .ok name
    | some fault => return .error fault
  else Lookup.find name

/-- Why the program that a word names cannot be started in a directory, if it cannot. -/
def refusal? (tree : Tree) (directory : Location) (name : Text) : Option FileFault :=
  let name := spread name
  match ((locate name).run.run (State.start tree directory name)).1 with
  | .ok (.error fault) => some fault
  | _ => none

/-- Run the program that a word names. -/
def program (name : Text) (args : List Text) : Run Nat := do
  match ← locate name with
  | .error _ => return Lookup.notFound
  | .ok path =>
    let program := (← Lookup.programAt? path).getD []
    modify fun s => { s with tracked := [] }
    if Lookup.isShell program then runShell (evalWithin deepestCommand) args
    else lastStatus ((FileProgram.find? program).elim (return Lookup.notFound) fun run => run args)

/-- Run a program in a directory of a tree. -/
def execute (tree : Tree) (directory : Location) (words : List Text) : Ended :=
  let name := spread (words.head?.getD [])
  let (result, s) :=
    (program name (words.tail.map spread)).run.run (State.start tree directory name)
  let code : Int :=
    match result with
    | .ok status => status
    | .error (.killed _ signal) => -signal
    | .error _ => 0
  ⟨code, s.written 1, s.written 2, s.tree⟩

end NativeGlue.Shell
