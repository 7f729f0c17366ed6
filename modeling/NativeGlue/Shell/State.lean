import NativeGlue.Files.Tree
import NativeGlue.Shell.Pattern
import NativeGlue.Shell.Script
import NativeGlue.Text.Encoding

/-!
What running commands see and change. Processes share the file tree and the channels to which
their streams lead; variables, functions, arguments and the directory are a shell's own, and a
subshell works on a copy of them.
-/

namespace NativeGlue.Shell

open Text

/-- What a stream leads to: text that is collected, text that is still to be read, a file at an
offset, or nothing. -/
inductive Channel where
  /-- The pieces that were written, the last first. In a pipe there is only so much room left. -/
  | buffer (pieces : List Text) (room : Option Nat)
  /-- A pipe from which nobody reads any more. -/
  | broken (pieces : List Text)
  /-- If the text was cut, there would be more to read after it. -/
  | source (rest : Text) (isCut : Bool)
  | file (place : Location) (offset : Nat) (appends : Bool)
  | null

structure Shared where
  tree : Tree
  channels : List (Nat × Channel)
  nextChannel : Nat
  lastProcess : Nat
  /-- Where files were written. -/
  touched : List Location

structure Variable where
  value : Option Text
  isExported : Bool
  isReadOnly : Bool

/-- A command that ran in the background. -/
structure Job where
  number : Nat
  process : Nat
  status : Nat
  isWaited : Bool

structure State extends Shared where
  directory : Location
  /-- The path by which the directory was reached. -/
  place : Text
  bindings : List (Text × Variable)
  functions : List (Text × Command)
  aliases : List (Text × Text)
  documents : List (Nat × Word)
  nextDocument : Nat
  /-- The variables that each running function has made local, with what they were before. -/
  locals : List (List (Text × Option Variable))
  name : Text
  arguments : List Text
  status : Nat
  options : List Char
  streams : List (Nat × Nat)
  traps : List (Nat × Text)
  /-- Signals that came and whose traps did not run yet. -/
  signals : List Nat
  /-- The status before the trap that runs. -/
  beforeTrap : Option Nat
  /-- Commands that ran in the background, the last first. -/
  jobs : List Job
  /-- The process of the last of them. -/
  background : Option Nat
  /-- The programs that were found in directories that are searched. -/
  tracked : List Text
  line : Nat
  /-- The builtin that runs, which complaints mention. -/
  command : Option Text
  process : Nat
  parent : Nat
  loops : Nat
  /-- The status of the last command whose output was put into a word. -/
  substituted : Nat
  /-- How far the letters of an argument have been read as options. -/
  letters : Nat
  mask : Nat
  /-- The soft and the hard limits that were set, by letters. -/
  limits : List (Char × Option Nat × Option Nat)

/-- What ends the run of a command early. -/
inductive Interrupt where
  | exit (status : Nat)
  /-- A fault that ends the shell unless a builtin without special rank met it. -/
  | fault (status : Nat)
  | leave (loops : Nat)
  | again (loops : Nat)
  | finish (status : Nat)
  | killed (process signal : Nat)
  /-- The process wrote to a pipe from which nobody reads. -/
  | brokenPipe
  /-- More is read from a channel than was written to the pipe behind it so far. -/
  | starved (channel : Nat)

abbrev Run := ExceptT Interrupt (StateM State)

def streamNames : List (String × Nat) :=
  [("/dev/stdin", 0), ("/dev/stdout", 1), ("/dev/stderr", 2)]

/-- The stream for which a path stands. Streams are no part of the tree. -/
def streamAt? (path : Text) : Option Nat :=
  match dropStart? "/dev/fd/".toList path with
  | some [c] => if c.isDigit then some (c.toNat - 48) else none
  | _ => (streamNames.find? fun entry => entry.1.toList == path).map (·.2)

def startOf (directory : Location) (path : Text) : Location :=
  if path.head? = some '/' then [] else directory

namespace Run

/-- Apply an operation on paths to the tree. A path is a byte text, and an empty one leads
nowhere. -/
def onTree {α : Type} (path : Text)
    (operation : Tree → Location → List Text → Except FileFault α) :
    Run (Except FileFault α) := do
  let s ← get
  if path.isEmpty then return .error .missing
  else if Path.longest < path.length then return .error .nameTooLong
  else return operation s.tree (startOf s.directory path) (Path.splitSlashes (gather path))

/-- Like `onTree`, for operations that change the tree. -/
def changeTree (path : Text)
    (operation : Tree → Location → List Text → Except FileFault Tree) :
    Run (Except FileFault Unit) := do
  match ← onTree path operation with
  | .ok tree =>
    modify fun s => { s with tree := tree }
    return .ok ()
  | .error fault => return .error fault

def find? (path : Text) : Run (Option Tree) := do return (← onTree path Tree.lookup).toOption

def isDirectory (path : Text) : Run Bool := do return (← find? path).any Tree.isDirectory

def isFile (path : Text) : Run Bool := do return (← find? path).any Tree.isFile

/-- The location of the directory to which a path leads. -/
def directoryAt? (path : Text) : Run (Option Location) := do
  let s ← get
  match ← onTree path Tree.walk with
  | .ok place => return if (s.tree.find? place).any Tree.isDirectory then some place else none
  | .error _ => return none

/-- The names in a directory, in the order in which they were made. -/
def namesAt (place : Location) : Run (List Text) := do
  match (← get).tree.find? place with
  | some (.directory inside) => return inside.map fun e => spread e.1
  | _ => return []

def openChannel (channel : Channel) : Run Nat := do
  let s ← get
  set { s with
    channels := (s.nextChannel, channel) :: s.channels
    nextChannel := s.nextChannel + 1 }
  return s.nextChannel

def setChannel (id : Nat) (channel : Channel) : Run Unit :=
  modify fun s =>
    { s with channels := s.channels.map fun e => if e.1 = id then (id, channel) else e }

/-- The channel to which a stream leads, if the stream is open. -/
def channelAt? (fd : Nat) : Run (Option (Nat × Channel)) := do
  let s ← get
  return (s.streams.lookup fd).bind fun id => (s.channels.lookup id).map fun c => (id, c)

def fileText (tree : Tree) (place : Location) : Text :=
  ((tree.find? place).bind Tree.bytes?).elim [] ofBytes

/-- A text with another written over it from an offset on. -/
def overwrite (old new : Text) (offset : Nat) : Text :=
  old.take offset ++ List.replicate (offset - old.length) '\x00' ++ new ++
    old.drop (offset + new.length)

/-- The signal that ends a process which writes to a pipe that nobody reads. -/
def pipeSignal : Nat := 13

/-- Fail to write to a pipe. Unless a trap is set that ends the process. -/
def refusePipe : Run Bool := do
  match (← get).traps.lookup pipeSignal with
  | none => throw .brokenPipe
  | some [] => return false
  | some _ =>
    modify fun s => { s with signals := pipeSignal :: s.signals }
    return false

/-- Write to a channel, and tell whether that went well. -/
def writeTo (id : Nat) (t : Text) : Run Bool := do
  let s ← get
  match s.channels.lookup id with
  | some (.buffer pieces none) =>
    setChannel id (.buffer (t :: pieces) none)
    return true
  | some (.buffer pieces (some room)) =>
    if t.length ≤ room then
      setChannel id (.buffer (t :: pieces) (some (room - t.length)))
      return true
    else
      setChannel id (.broken pieces)
      refusePipe
  | some (.broken _) => refusePipe
  | some (.file place offset appends) =>
    let old := fileText s.tree place
    let offset := if appends then old.length else offset
    set { s with
      tree := s.tree.put place (.file (toBytes (overwrite old t offset)))
      touched := place :: s.touched }
    setChannel id (.file place (offset + t.length) appends)
    return true
  | _ => return true

/-- Write to a stream, and tell whether it is open and takes the text. -/
def write (fd : Nat) (t : Text) : Run Bool := do
  match (← get).streams.lookup fd with
  | none => return false
  | some id => writeTo id t

/-- What is still to be read from a stream, if it is open. -/
def unread? (fd : Nat) : Run (Option Text) := do
  match ← channelAt? fd with
  | none => return none
  | some (_, .source rest _) => return some rest
  | some (_, .file place offset _) => return some ((fileText (← get).tree place).drop offset)
  | some _ => return some []

/-- Count some characters of a stream as read. -/
def advance (fd count : Nat) : Run Unit := do
  match ← channelAt? fd with
  | some (id, .source rest isCut) => setChannel id (.source (rest.drop count) isCut)
  | some (id, .file place offset appends) => setChannel id (.file place (offset + count) appends)
  | _ => pure ()

/-- Come to the end of what a stream leads to. Where there would be more, that has to be made
first. -/
def reachEnd (fd : Nat) : Run Unit := do
  match ← channelAt? fd with
  | some (id, .source _ true) => throw (.starved id)
  | _ => pure ()

/-- Read a stream to its end. -/
def readAll (fd : Nat) : Run Text := do
  let t := (← unread? fd).getD []
  reachEnd fd
  advance fd t.length
  return t

/-- The contents of a file as a byte text. -/
def readFile (path : Text) : Run (Except FileFault Text) := do
  match streamAt? path with
  | some fd =>
    reachEnd fd
    return (← unread? fd).elim (.error .missing) .ok
  | none => return (← onTree path Tree.readFile).map ofBytes

/-- A complaint of the shell, which starts with its name and the line. -/
def warn (message : Text) : Run Unit := do
  let s ← get
  let builtin := s.command.elim [] fun c => c ++ ": ".toList
  let _ ← write 2
    (s.name ++ ": ".toList ++ ofNat s.line ++ ": ".toList ++ builtin ++ message ++ ['\n'])

/-- Complain and give up. -/
def failWith {α : Type} (status : Nat) (message : Text) : Run α := do
  warn message
  throw (.fault status)

def fail {α : Type} (message : Text) : Run α := failWith 2 message

/-- Complain and go on with a status. -/
def warnWith (status : Nat) (message : Text) : Run Nat := do
  warn message
  return status

/-- Write a line on the error stream as it stands. -/
def say (line : Text) : Run Unit := do
  let _ ← write 2 (line ++ ['\n'])

def hasOption (letter : Char) : Run Bool := do return (← get).options.contains letter

def binding? (name : Text) : Run (Option Variable) := do
  return (← get).bindings.lookup name

def value? (name : Text) : Run (Option Text) := do return (← binding? name).bind (·.value)

def putVariable (name : Text) (v : Option Variable) : Run Unit :=
  modify fun s =>
    let others := s.bindings.filter fun e => e.1 != name
    { s with bindings := v.elim others fun v => others ++ [(name, v)] }

def refuseReadOnly (name : Text) (v : Option Variable) : Run Unit :=
  if v.any (·.isReadOnly) then fail (name ++ ": is read only".toList) else pure ()

/-- Give a variable a value. -/
def assign (name value : Text) : Run Unit := do
  let old ← binding? name
  refuseReadOnly name old
  let isExported := (old.any (·.isExported)) || (← hasOption 'a')
  putVariable name (some ⟨some value, isExported, false⟩)
  if name == "OPTIND".toList then modify fun s => { s with letters := 0 }
  if name == "PATH".toList then modify fun s => { s with tracked := [] }

/-- Remove a variable. -/
def unassign (name : Text) : Run Unit := do
  refuseReadOnly name (← binding? name)
  putVariable name none

/-- Set flags of a variable, which need not have a value. -/
def flag (name : Text) (change : Variable → Variable) : Run Unit := do
  putVariable name (some (change ((← binding? name).getD ⟨none, false, false⟩)))

/-- The characters that separate fields where nothing else is said. -/
def standardSeparators : Text := " \t\n".toList

/-- The characters that separate fields. -/
def separators : Run Text := do return (← value? "IFS".toList).getD standardSeparators

/-- Run an action whose changes, except those of what processes share, are undone. -/
def confined {α : Type} (action : Run α) : Run α := fun s =>
  let (result, after) := action s
  (result, { s with toShared := after.toShared })

end Run

end NativeGlue.Shell
