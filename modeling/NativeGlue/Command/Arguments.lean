import NativeGlue.Text.Word

/-!
The command line: a subcommand and its switches. A switch may be shortened to any beginning that
no other switch shares, and its value follows it or an equals sign. Of a switch given twice the
later value counts. A divider given as a value leaves the switch without one.
-/

namespace NativeGlue.Command

open Text

/-- The command line asks for help, or cannot be understood. -/
inductive Usage where
  | help
  | wrong
  deriving DecidableEq, Repr

def Usage.exitCode : Usage → Nat
  | help => 0
  | wrong => 2

inductive SwitchKind where
  | help | flag | value
  deriving DecidableEq, Repr

structure Switch where
  name : Text
  kind : SwitchKind
  isRequired : Bool
  deriving DecidableEq, Repr

namespace Switch

def value (name : String) : Switch := ⟨name.toList, .value, false⟩
def required (name : String) : Switch := ⟨name.toList, .value, true⟩
def flag (name : String) : Switch := ⟨name.toList, .flag, false⟩

def shortHelp : Text := "-h".toList

/-- Every subcommand, and the tool itself, can be asked for help. -/
def helpSwitches : List Switch := [⟨shortHelp, .help, false⟩, ⟨"--help".toList, .help, false⟩]

end Switch

inductive Token where
  | operand (t : Text)
  | divider
  | switch (s : Switch) (explicit : Option Text)
  /-- The short help switch with more letters after it. -/
  | cluster (rest : Text)
  | unknown (t : Text)
  deriving DecidableEq, Repr

/-- A minus sign and digits, with a point before the last of them at most. -/
def isNegativeNumber (t : Text) : Bool :=
  match t with
  | '-' :: rest =>
    let digits := if rest.getLast? = some '\n' then rest.dropLast else rest
    let whole := digits.takeWhile isDecimalDigit
    match digits.dropWhile isDecimalDigit with
    | [] => !whole.isEmpty
    | '.' :: places => !places.isEmpty && places.all isDecimalDigit
    | _ => false
  | _ => false

/-- An argument before its first equals sign and what follows the sign. -/
def splitExplicit (t : Text) : Text × Option Text :=
  match cut? ['='] t with
  | some (name, explicit) => (name, some explicit)
  | none => (t, none)

/-- An argument that begins like a switch but is not the name of one. -/
def readUnnamed (t : Text) (candidates : List Token) : Except Usage Token :=
  match candidates with
  | [token] => .ok token
  | _ :: _ :: _ => .error .wrong
  | [] =>
    if isNegativeNumber t || t.contains ' ' then .ok (.operand t) else .ok (.unknown t)

def longCandidates (switches : List Switch) (t : Text) : List Token :=
  let (start, explicit) := splitExplicit t
  (switches.filter fun s => start.isPrefixOf s.name).map fun s => .switch s explicit

def shortCandidates (switches : List Switch) (t : Text) : List Token :=
  switches.filterMap fun s =>
    if s.name = t.take 2 then some (.cluster (t.drop 2))
    else if t.isPrefixOf s.name then some (.switch s none)
    else none

def named? (switches : List Switch) (name : Text) : Option Switch :=
  switches.find? fun s => s.name == name

/-- What one argument is. -/
def readArgument (switches : List Switch) (t : Text) : Except Usage Token :=
  match t with
  | '-' :: second :: _ =>
    let (name, explicit) := splitExplicit t
    match named? switches t, if explicit.isSome then named? switches name else none with
    | some s, _ => .ok (.switch s none)
    | none, some s => .ok (.switch s explicit)
    | none, none =>
      readUnnamed t
        (if second = '-' then longCandidates switches t else shortCandidates switches t)
  | _ => .ok (.operand t)

/-- What all arguments are. After a divider there are only operands. -/
def readArguments (switches : List Switch) : List Text → Except Usage (List Token)
  | [] => .ok []
  | t :: rest =>
    if t = ['-', '-'] then .ok (.divider :: rest.map .operand)
    else do
      let token ← readArgument switches t
      let tokens ← readArguments switches rest
      return token :: tokens

/-- The text after the short help switch asks for help if it repeats the letter of that switch. -/
def clusterUsage (rest : Text) : Usage :=
  if !rest.isEmpty && rest.all (· == 'h') then .help else .wrong

/-- The switches given, with the values of those that have one. -/
abbrev Given := List (Text × Option Text)

/-- What the tokens give. Whatever is left over makes the command line wrong, but only after the
rest of it was read. -/
structure Collected where
  given : Given
  hasExtras : Bool

def Collected.add (c : Collected) (name : Text) (value : Option Text) : Collected :=
  { c with given := c.given ++ [(name, value)] }

/-- The value given with an equals sign. -/
def explicitValue (t : Text) : Option Text := if t = ['-', '-'] then none else some t

def collect (c : Collected) : List Token → Except Usage Collected
  | [] => .ok c
  | .cluster rest :: _ => .error (clusterUsage rest)
  | .switch ⟨name, .value, _⟩ none :: .operand v :: tokens => collect (c.add name (some v)) tokens
  | .switch s explicit :: tokens =>
    match s.kind, explicit with
    | .help, none => .error .help
    | .help, some v => .error (if s.name = Switch.shortHelp then clusterUsage v else .wrong)
    | .flag, none => collect (c.add s.name none) tokens
    | .value, some v => collect (c.add s.name (explicitValue v)) tokens
    | _, _ => .error .wrong
  | _ :: tokens => collect { c with hasExtras := true } tokens

def collectAll (switches : List Switch) (args : List Text) : Except Usage Collected := do
  let switches := Switch.helpSwitches ++ switches
  let c ← collect ⟨[], false⟩ (← readArguments switches args)
  let isMissing (s : Switch) : Bool := s.isRequired && !c.given.any fun g => g.1 == s.name
  if switches.any isMissing then .error .wrong else return c

namespace Given

def find? (given : Given) (name : String) : Option (Option Text) :=
  (given.reverse.find? fun g => g.1 == name.toList).map (·.2)

def value? (given : Given) (name : String) : Option Text := (given.find? name).join

/-- A value that counts only if it is not empty. -/
def filled? (given : Given) (name : String) : Option Text :=
  (given.value? name).bind fun t => if t.isEmpty then none else some t

def has (given : Given) (name : String) : Bool := (given.find? name).isSome

end Given

structure WriteMode where
  dryRun : Bool
  check : Bool
  deriving DecidableEq, Repr

structure GenerateOptions where
  root : Text
  config : Option Text
  target : Option Text
  runHeaderCommand : Bool
  mode : WriteMode
  printDiff : Bool
  report : Option Text
  deriving DecidableEq, Repr

structure GenerateFileOptions where
  source : Option Text
  header : Option Text
  output : Option Text
  includeName : Option Text
  mode : WriteMode
  printDiff : Bool
  deriving DecidableEq, Repr

structure ParseOptions where
  source : Option Text
  header : Option Text
  output : Option Text
  deriving DecidableEq, Repr

inductive Invocation where
  | generate (options : GenerateOptions)
  | generateFile (options : GenerateFileOptions)
  | parse (options : ParseOptions)
  | listTargets (config : Option Text)
  | validateConfig (root : Text) (config : Option Text)
  deriving DecidableEq, Repr

structure Subcommand where
  name : Text
  switches : List Switch
  build : Given → Invocation

def rootOf (given : Given) : Text := (given.filled? "--repo-root").getD ['.']

def modeOf (given : Given) : WriteMode := ⟨given.has "--dry-run", given.has "--check"⟩

def subcommands : List Subcommand :=
  [⟨"generate".toList,
      [.value "--repo-root", .required "--config", .value "--target",
        .flag "--run-header-command", .flag "--dry-run", .flag "--check", .flag "--print-diff",
        .value "--report-json"],
      fun g => .generate
        ⟨rootOf g, g.value? "--config", g.filled? "--target", g.has "--run-header-command",
          modeOf g, g.has "--print-diff", g.filled? "--report-json"⟩⟩,
    ⟨"generate-file".toList,
      [.required "--source", .required "--header", .required "--output",
        .value "--header-include", .flag "--dry-run", .flag "--check", .flag "--print-diff"],
      fun g => .generateFile
        ⟨g.value? "--source", g.value? "--header", g.value? "--output",
          g.filled? "--header-include", modeOf g, g.has "--print-diff"⟩⟩,
    ⟨"parse".toList, [.required "--source", .value "--header", .value "--output"],
      fun g => .parse ⟨g.value? "--source", g.filled? "--header", g.filled? "--output"⟩⟩,
    ⟨"list-targets".toList, [.required "--config"], fun g => .listTargets (g.value? "--config")⟩,
    ⟨"validate-config".toList, [.value "--repo-root", .required "--config"],
      fun g => .validateConfig (rootOf g) (g.value? "--config")⟩]

/-- One line that names the subcommands. -/
def usageLine : Text :=
  "usage: jnigen COMMAND [OPTION]..., where COMMAND is one of ".toList ++
    join ", ".toList (subcommands.map fun s => s.name)

def Subcommand.invocation (s : Subcommand) (hasExtras : Bool) (args : List Text) :
    Except Usage Invocation := do
  let c ← collectAll s.switches args
  if hasExtras || c.hasExtras then .error .wrong else return s.build c.given

/-- Read the arguments up to the subcommand, which is the first operand. -/
def invocationFrom (hasExtras : Bool) : List Text → Except Usage Invocation
  | [] => .error .wrong
  | t :: rest =>
    if t = ['-', '-'] then .error .wrong
    else
      match readArgument Switch.helpSwitches t with
      | .error usage => .error usage
      | .ok (.operand name) =>
        match subcommands.find? fun s => s.name == name with
        | some s => s.invocation hasExtras rest
        | none => .error .wrong
      | .ok (.switch _ none) => .error .help
      | .ok (.switch s (some v)) =>
        .error (if s.name = Switch.shortHelp then clusterUsage v else .wrong)
      | .ok (.cluster letters) => .error (clusterUsage letters)
      | .ok _ => invocationFrom true rest

def invocation (args : List Text) : Except Usage Invocation := invocationFrom false args

end NativeGlue.Command
