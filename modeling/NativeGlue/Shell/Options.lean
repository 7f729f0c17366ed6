import NativeGlue.Shell.Quoting
import NativeGlue.Shell.State

/-!
Options of programs. They may stand anywhere before a double minus sign, letters may share an
argument, and a long name may be cut short as long as only one option has such a name. A program
ends at the first argument that it cannot read.
-/

namespace NativeGlue.Shell

open Text

/-- Whether a value follows an option. A value that may be left out stands in the same argument. -/
inductive ValueRule where
  | never
  | maybe
  | always
  deriving DecidableEq, Repr

structure ProgramOption where
  name : String
  longNames : List String
  letters : String
  rule : ValueRule

namespace ProgramOption

/-- An option without a value. -/
def flag (name letters : String) : ProgramOption := ⟨name, [name], letters, .never⟩

/-- An option whose value may be left out. -/
def optional (name letters : String) : ProgramOption := ⟨name, [name], letters, .maybe⟩

/-- An option with a value. -/
def valued (name letters : String) : ProgramOption := ⟨name, [name], letters, .always⟩

/-- An option that has no long name. -/
def short (name letters : String) : ProgramOption := ⟨name, [], letters, .never⟩

end ProgramOption

/-- The options that a program knows. -/
abbrev OptionTable := List ProgramOption

/-- An option that was given, and its value. -/
abbrev GivenOption := String × Option Text

/-- Arguments that have been read: options by name with their values, and operands. -/
structure ProgramArguments where
  options : List GivenOption
  operands : List Text

namespace ProgramArguments

def has (a : ProgramArguments) (name : String) : Bool := a.options.any fun o => o.1 == name

/-- The one of some options that was given last. -/
def last? (a : ProgramArguments) (names : List String) : Option GivenOption :=
  a.options.reverse.find? fun o => names.contains o.1

/-- The value that was given last. -/
def value? (a : ProgramArguments) (name : String) : Option Text :=
  (a.options.filterMap fun o => if o.1 == name then o.2 else none).getLast?

end ProgramArguments

/-- A byte text that names a file, as complaints show it. -/
def shownName (path : Text) : Text := spread (quoteName (gather path))

/-- Likewise, but in quotes only where they are needed. -/
def shownBare (path : Text) : Text := if needsQuotes (gather path) then shownName path else path

namespace Program

/-- Write a complaint, which starts with the name by which the program runs. -/
def say (message : Text) : Run Unit := do Run.say ((← get).name ++ ": ".toList ++ message)

/-- Complain and end the program. -/
def stop {α : Type} (message : Text) : Run α := do
  say message
  throw (.exit 1)

/-- Complain about the arguments and end the program. -/
def misuse {α : Type} (message : Text) : Run α := do
  stop (message ++ "\nTry '".toList ++ (← get).name ++ " --help' for more information.".toList)

/-- Complain that something cannot be done with a file. -/
def refuse (deed : String) (path : Text) (fault : FileFault) : Run Nat := do
  say (deed.toList ++ ' ' :: shownName path ++ ": ".toList ++ fault.description)
  return 1

/-- Treat operands one after another. The status is the worst of theirs. -/
def forOperands (one : Text → Run Nat) (operands : List Text) : Run Nat := do
  return (← operands.mapM one).foldl max 0

end Program

namespace OptionTable

open Program

/-- Options that every program has. Each of them ends it. -/
def common : OptionTable := [.flag "help" "", .flag "version" ""]

variable (table : OptionTable)

/-- Options with the given long name, or else those with long names that start with it. -/
def named (name : Text) : List (String × ProgramOption) :=
  let all := (table ++ common).flatMap fun o => o.longNames.map fun n => (n, o)
  let fitting := all.filter fun e => name.isPrefixOf e.1.toList
  let exact := fitting.filter fun e => e.1.toList == name
  if exact.isEmpty then fitting else exact

/-- The option that is meant by a long name, which is given back in full. -/
def meant (name t : Text) : Run (String × ProgramOption) := do
  match table.named name with
  | [] => misuse ("unrecognized option '--".toList ++ t ++ ['\''])
  | (full, o) :: others =>
    let others := others.filter fun e => e.2.name != o.name
    if others.isEmpty then return (full, o)
    else
      let possible :=
        (full :: others.map (·.1)).flatMap fun n => " '--".toList ++ n.toList ++ ['\'']
      misuse ("option '--".toList ++ name ++ "' is ambiguous; possibilities:".toList ++ possible)

def readLong (t : Text) (rest : List Text) : Run (GivenOption × List Text) := do
  let (name, value) :=
    match cut? ['='] t with
    | some (name, value) => (name, some value)
    | none => (t, none)
  let (full, o) ← table.meant name t
  match o.rule, value, rest with
  | .never, some _, _ =>
    misuse ("option '--".toList ++ full.toList ++ "' doesn't allow an argument".toList)
  | .always, none, [] =>
    misuse ("option '--".toList ++ full.toList ++ "' requires an argument".toList)
  | .always, none, v :: rest => return ((o.name, some v), rest)
  | _, v, _ =>
    if common.any fun c => c.name == o.name then throw (.exit 0) else return ((o.name, v), rest)

section

variable (check : List GivenOption → GivenOption → Run Unit)

/-- Take an option, which is checked against those before it. -/
def take (a : ProgramArguments) (o : GivenOption) : Run ProgramArguments := do
  check a.options o
  return { a with options := a.options ++ [o] }

/-- Read the letters of an argument. -/
def readLetters (a : ProgramArguments) : Text → List Text → Run (ProgramArguments × List Text)
  | [], rest => return (a, rest)
  | c :: letters, rest => do
    match table.find? fun o => o.letters.toList.contains c with
    | none => misuse ("invalid option -- '".toList ++ [c, '\''])
    | some o =>
      if o.rule = .always then
        match if letters.isEmpty then rest else letters :: rest with
        | [] => misuse ("option requires an argument -- '".toList ++ [c, '\''])
        | value :: rest => return (← take check a (o.name, some value), rest)
      else readLetters (← take check a (o.name, none)) letters rest

def readFrom : Nat → ProgramArguments → List Text → Run ProgramArguments
  | 0, a, _ => return a
  | _, a, [] => return a
  | fuel + 1, a, t :: rest => do
    match t with
    | ['-', '-'] => return { a with operands := a.operands ++ rest }
    | '-' :: '-' :: long =>
      let (option, rest) ← table.readLong long rest
      readFrom fuel (← take check a option) rest
    | '-' :: c :: letters =>
      let (a, rest) ← table.readLetters check a (c :: letters) rest
      readFrom fuel a rest
    | _ => readFrom fuel { a with operands := a.operands ++ [t] } rest

/-- Read the arguments of a program that checks each option when it meets it. -/
def readChecked (args : List Text) : Run ProgramArguments :=
  table.readFrom check (args.length + 1) ⟨[], []⟩ args

end

/-- Read the arguments of the program. -/
def read (args : List Text) : Run ProgramArguments := table.readChecked (fun _ _ => pure ()) args

end OptionTable

end NativeGlue.Shell
