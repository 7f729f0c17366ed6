import NativeGlue.Shell.Lookup
import NativeGlue.Shell.Redirect

/-!
Running commands. Each form of command is run by means of an evaluator for the commands inside
it, and the evaluator of a depth uses that of the depth before. Subshells, the stages of a
pipeline and commands in the background run one after another on copies of the shell's state.
-/

namespace NativeGlue.Shell

open Text

/-- How commands are run. The flag tells that the status is tested, so that a failure does not
end the shell. -/
abbrev Evaluator := Bool → Command → Run Nat

/-- What the first words of a command ask for. -/
structure Request where
  /-- Builtins before the command that only say how it is found, with their options. -/
  lead : List Text
  fields : List Text
  /-- The words that are not expanded yet. -/
  words : List Word
  meaning : Option Meaning
  /-- Programs are looked for where they always are. -/
  isStandard : Bool
  /-- Its faults end the shell. -/
  isSpecial : Bool
  /-- Assignments before it last. -/
  isLasting : Bool

namespace Request

def name (r : Request) : Text := r.fields.head?.getD []

def isExec (r : Request) : Bool := r.meaning matches some .builtin && r.name == "exec".toList

end Request

section

variable (eval : Evaluator)

/-- Run the complete commands of a text one after another. A fault in the text is noticed when
it is reached. -/
def runFrom (tested isScript : Bool) : Nat → Nat → Reading → Run Nat
  | 0, status, _ => return status
  | fuel + 1, status, r => do
    let s ← get
    let start :=
      { r with documents := [], nextDocument := s.nextDocument, aliases := s.aliases }
    let (result, r) := Reader.completeCommand.run.run start
    modify fun s =>
      { s with documents := r.documents ++ s.documents, nextDocument := r.nextDocument }
    if isScript && s.options.contains 'v' then
      let _ ← Run.write 2 (start.rest.take (start.rest.length - r.rest.length))
    match result with
    | .error fault =>
      modify fun s => { s with line := r.line }
      Run.fail ("Syntax error: ".toList ++ fault.message)
    | .ok .endOfFile => return status
    | .ok (.commands none) => runFrom tested isScript fuel status r
    | .ok (.commands (some body)) => do
      let status ← eval tested body
      runFrom tested isScript fuel status r

def runText (tested isScript : Bool) (t : Text) : Run Nat :=
  runFrom eval tested isScript (t.length + 1 + Reader.aliasRoom) 0 (Reading.start t 0)

/-- Run an action that may be left with a status. -/
def untilFinish (action : Run Nat) : Run Nat := do
  try action
  catch
    | .finish status => return status
    | interrupt => throw interrupt

/-- The status with which a process ends that runs an action. -/
def lastStatus (action : Run Nat) : Run Nat := do
  try action
  catch
    | .exit status => return status
    | .fault status => return status
    | .finish status => return status
    | .leave _ => return 0
    | .again _ => return 0
    | interrupt => throw interrupt

/-- Run an action to the end of the process, and then the trap for that end. -/
def untilEnd (action : Run Nat) : Run Nat := do
  let status ← lastStatus action
  match (← get).traps.lookup 0 with
  | none => return status % 256
  | some trap => do
    modify fun s =>
      { s with status := status, beforeTrap := some status, traps := s.traps.filter (·.1 != 0) }
    let last ← lastStatus do
      let _ ← untilFinish (runText eval false false trap)
      return status
    return last % 256

/-- Run an action as a process that ends when it writes to a pipe that nobody reads. -/
def untilPipe (action : Run Nat) : Run Nat := do
  try action
  catch
    | .brokenPipe => return 128 + Run.pipeSignal
    | interrupt => throw interrupt

/-- Run an action in a subshell. Of the traps only those that ignore signals stay. -/
def isolate (action : Run Nat) : Run Nat :=
  Run.confined do
    modify fun s => { s with traps := s.traps.filter (·.2.isEmpty), signals := [], jobs := [] }
    untilPipe (untilEnd eval action)

/-- Run an action whose output is collected, and give that with the status. There may be only so
much room for it; the flag tells whether it was cut. -/
def collect (room : Option Nat) (action : Run Nat) : Run (Text × Bool × Nat) := do
  let id ← Run.openChannel (.buffer [] room)
  let status ← isolate eval do
    Run.connect 1 id
    action
  let channels := (← get).channels
  modify fun s => { s with channels := channels.filter (·.1 != id) }
  match channels.lookup id with
  | some (.buffer pieces _) => return (pieces.reverse.flatten, false, status)
  | some (.broken pieces) => return (pieces.reverse.flatten, true, status)
  | _ => return ([], false, status)

/-- The output of commands without null characters and the ends of lines at its end. -/
def capture (body : Option Command) : Run Text := do
  match body with
  | none => return []
  | some c =>
    let (t, _, status) ← collect eval none (eval false c)
    modify fun s => { s with substituted := status }
    return ((t.filter (· != '\x00')).reverse.dropWhile (· == '\n')).reverse

/-- Run the traps of the signals that came, in order of their numbers. -/
def runTraps : Run Unit := do
  let s ← get
  if s.signals.isEmpty then return ()
  else
    let before := s.beforeTrap
    set { s with signals := [], beforeTrap := some (before.getD s.status) }
    ((List.range Signal.count).filter s.signals.contains).forM fun signal => do
      let _ ← runText eval false false (((← get).traps.lookup signal).getD [])
      modify fun after => { after with status := s.status }
    modify fun after => { after with beforeTrap := before }

/-- The fields of the first word that makes any, and the words after it. -/
def firstFields : List Word → Run (List Text × List Word)
  | [] => return ([], [])
  | w :: rest => do
    let fields ← Run.expandFields (capture eval) w
    if fields.isEmpty then firstFields rest else return (fields, rest)

/-- Expand words until there is a field at a place, if there can be one. -/
def fieldsTo (place : Nat) (fields : List Text) (words : List Word) :
    Run (List Text × List Word) := do
  if place < fields.length then return (fields, words)
  else
    let (more, rest) ← firstFields eval words
    return (fields ++ more, rest)

/-- The place of the field for which the builtin that skips functions stands aside, if it does.
Its own options come before that. -/
def behindCommand : Nat → Nat → List Text → List Word → Run (Option Nat × List Text × List Word)
  | 0, _, fields, words => return (none, fields, words)
  | fuel + 1, place, fields, words => do
    let (fields, words) ← fieldsTo eval place fields words
    let present (place : Nat) (fields : List Text) : Option Nat :=
      if place < fields.length then some place else none
    match fields[place]? with
    | some ['-', '-'] => do
      let (fields, words) ← fieldsTo eval (place + 1) fields words
      return (present (place + 1) fields, fields, words)
    | some ('-' :: c :: letters) =>
      if (c :: letters).all (· == 'p') then behindCommand fuel (place + 1) fields words
      else return (none, fields, words)
    | _ => return (present place fields, fields, words)

/-- What the first fields of a command ask for. `first` tells of the builtin by which the
command was reached. -/
def request : Nat → Option Request → List Text → List Word → Run Request
  | fuel + 1, first, fields, words => do
    let name := fields.head?.getD []
    let meaning ← if fields.isEmpty then pure (some .builtin)
      else Lookup.within? first.isSome name
    let isSpecial := first.elim (meaning matches some .builtin && Lookup.isSpecial name)
      (·.isSpecial)
    let isLasting := fields.isEmpty || (first.isNone && isSpecial)
    let isStandard := first.any (·.isStandard)
    let lead := first.elim [] (·.lead)
    let r : Request := ⟨lead, fields, words, meaning, isStandard, isSpecial, isLasting⟩
    if meaning matches some .builtin && name == "command".toList then
      let (place, fields, words) ← behindCommand eval (fields.length + words.length + 1) 1 fields
        words
      match place with
      | none => return { r with fields := fields, words := words }
      | some n =>
        let lead := fields.take n
        let isStandard := r.isStandard || lead.tail.any (·.take 2 == ['-', 'p'])
        request fuel (some { r with lead := r.lead ++ lead, isStandard := isStandard })
          (fields.drop n) words
    else return r
  | 0, _, fields, words => return ⟨[], fields, words, none, false, false, false⟩

/-- Expand the words that are left. Where assignments are taken as arguments they are expanded
as such. -/
def expandRest (r : Request) : Run (List Text) := do
  let takes := r.meaning matches some .builtin && Lookup.takesAssignments r.name
  let rest ← r.words.mapM fun w => do
    if takes && w.assignment?.isSome then
      return [← Run.expandText (capture eval) .assignment w]
    else Run.expandFields (capture eval) w
  return r.fields ++ rest.flatten

/-- Make the assignments before a command, and tell them as they were made. -/
def assignAll (r : Request) (isExported : Bool) (assignments : List (Text × Word)) :
    Run (List Text) :=
  assignments.mapM fun (name, w) => do
    let value ← Run.expandText (capture eval) .assignment w
    let export' (v : Variable) : Variable := { v with isExported := true }
    if !r.isLasting then Variables.makeLocal export' (name ++ '=' :: value)
    else
      Run.assign name value
      if isExported then Run.flag name export'
    return name ++ '=' :: value

/-- Show a command that is about to run. -/
def trace (id : Option Nat) (shown : List Text) : Run Unit := do
  match id with
  | some id =>
    if (← Run.hasOption 'x') && !shown.isEmpty then
      let lead := (← Run.value? "PS4".toList).getD []
      let _ ← Run.writeTo id (lead ++ join [' '] shown ++ ['\n'])
  | none => pure ()

/-- Run a function. -/
def callFunction (tested : Bool) (body : Command) (args : List Text) : Run Nat := do
  let s ← get
  set { s with arguments := args, letters := 0, loops := 0 }
  try untilFinish (eval tested body)
  finally
    modify fun after =>
      { after with arguments := s.arguments, letters := s.letters, loops := s.loops }

/-- The file whose commands a shell runs in place: the argument if it is a path, or one that
is found in a directory for programs. -/
def scriptPath (t : Text) : Run Text := do
  if t.contains '/' then return t
  else
    let paths := (← Lookup.searchedDirectories).map fun d => if d.isEmpty then t else d ++ '/' :: t
    let found ← paths.filterM fun path => do Run.isFile path
    match found.head? with
    | some path => return path
    | none => Run.fail (t ++ ": not found".toList)

/-- The text of a script. A directory counts as an empty one. -/
def scriptText (path : Text) : Run Text := do
  match ← Run.readFile path with
  | .ok t => return t
  | .error .isDirectory => return []
  | .error fault =>
    Run.fail ("cannot open ".toList ++ path ++ ": ".toList ++ Run.faultText "No such file" fault)

/-- Run the commands of a file in the running shell. -/
def runFile (args : List Text) : Run Nat := do
  let (_, operands) ← Run.readOptions "" "" args
  match operands with
  | [] => return 0
  | t :: _ =>
    let path ← scriptPath t
    let script ← scriptText path
    modify fun s => { s with command := some path }
    untilFinish (runText eval false true script)

/-- The state in which another shell starts. -/
def State.another (s : State) : State :=
  let process := s.lastProcess + 1
  { s with
    lastProcess := process, process := process
    parent := s.process
    bindings := (s.bindings.filter fun e => e.2.isExported && e.2.value.isSome).map
      fun e => (e.1, { e.2 with isReadOnly := false })
    functions := [], aliases := [], documents := [], nextDocument := 0, locals := []
    arguments := [], status := 0, options := []
    traps := s.traps.filter (·.2.isEmpty), signals := [], beforeTrap := none
    jobs := [], background := none, tracked := [], line := 0, command := none
    loops := 0, substituted := 0, letters := 0 }

/-- Variables that every shell has from its start. -/
def setStandardVariables : Run Unit := do
  let s ← get
  [("PS1", "# "), ("PS2", "> "), ("PS4", "+ ")].forM fun (name, value) => do
    if (← Run.value? name.toList).isNone then Run.assign name.toList value.toList
  Run.assign "IFS".toList Run.standardSeparators
  Run.assign "OPTIND".toList ['1']
  Run.assign "PPID".toList (ofNat s.parent)
  let physical := spread (Path.absolute s.directory).text
  let old ← Run.value? "PWD".toList
  let isSame ← old.elim (pure false) fun t => do
    return t.head? = some '/' && (← Run.directoryAt? t) = some s.directory
  let place := if isSame then old.getD physical else physical
  Control.setExported "PWD".toList place
  modify fun s => { s with place := place }

/-- The options of a shell: whether a script follows among its arguments. -/
def shellOptions : Nat → Bool → List Text → Run (Bool × List Text)
  | 0, hasScript, args => return (hasScript, args)
  | _, hasScript, [] => return (hasScript, [])
  | fuel + 1, hasScript, t :: rest => do
    match t with
    | ['-'] => return (hasScript, rest)
    | ['-', '-'] => return (hasScript, rest)
    | '-' :: letters =>
      let rest ← Variables.setLetters true (letters.filter (· != 'c')) rest
      shellOptions fuel (hasScript || letters.contains 'c') rest
    | '+' :: letters =>
      let rest ← Variables.setLetters false (letters.filter (· != 'c')) rest
      shellOptions fuel (hasScript || letters.contains 'c') rest
    | _ => return (hasScript, t :: rest)

/-- Run the input as a script. -/
def runInput : Run Nat := do
  let t := (← Run.unread? 0).getD []
  Run.advance 0 t.length
  let status ← runText eval false true t
  Run.reachEnd 0
  return status

/-- Run a shell from its start to its end. -/
def runShell (args : List Text) : Run Nat :=
  untilEnd eval do
    setStandardVariables
    let (hasScript, operands) ← shellOptions (args.length + 1) false args
    let readsInput ← Run.hasOption 's'
    if hasScript then
      match operands with
      | [] => Run.fail "-c requires an argument".toList
      | script :: rest => do
        modify fun s => { s with name := rest.head?.getD s.name, arguments := rest.tail }
        let status ← runText eval false false script
        if readsInput then runInput eval else return status
    else
      match operands with
      | path :: rest =>
        if readsInput then
          modify fun s => { s with arguments := operands }
          runInput eval
        else
          let script ← scriptText path
          modify fun s => { s with name := path, arguments := rest }
          runText eval false true script
      | [] => runInput eval

/-- Run the program at a path under a name, as a process of its own. -/
def runProgram (path name : Text) (args : List Text) : Run Nat := untilPipe do
  match ← Lookup.programAt? path with
  | none => return Lookup.notFound
  | some program =>
    if Lookup.isShell program then
      let own := (← get).lastProcess + 1
      try
        Run.confined do
          modify fun s => { s.another with name := name }
          runShell eval args
      catch
        | .killed process signal =>
          if process = own then
            if let some notice := Signal.notice? signal then Run.say notice.toList
            return 128 + signal
          else throw (.killed process signal)
        | interrupt => throw interrupt
    else
      Run.confined do
        modify fun s => { s with name := name }
        lastStatus ((FileProgram.find? program).elim (return Lookup.notFound) fun run => run args)

/-- Where the program of a request is, or the status after a complaint that it is nowhere. -/
def locateProgram (isStandard : Bool) (name : Text) : Run (Except Nat Text) := do
  if name.contains '/' then
    match ← Lookup.refusal? name with
    | none => return .ok name
    | some fault =>
      Run.warn (name ++ ": ".toList ++ Lookup.faultText fault)
      return .error (if fault = .denied then 126 else Lookup.notFound)
  else
    match ← if isStandard then Lookup.search name Lookup.programDirectories .missing
      else Lookup.find name with
    | .ok path => return .ok path
    | .error fault =>
      Run.warn (name ++ ": ".toList ++ Lookup.faultText fault)
      return .error Lookup.notFound

/-- Let a program take the place of the shell. -/
def exec (args : List Text) : Run Nat := do
  let (_, operands) ← Run.readOptions "" "" args
  match operands with
  | [] => return 0
  | name :: args =>
    match ← locateProgram false name with
    | .error status => throw (.exit status)
    | .ok path =>
      let status ← runProgram eval path name args
      modify fun s => { s with traps := s.traps.filter (·.1 != 0) }
      throw (.exit status)

/-- What the builtin does that skips functions, where it is not followed by a command. -/
def describeCommands (args : List Text) : Run Nat := do
  let (options, names) ← Run.readOptions "pvV" "" args
  match options.reverse.find? (·.1 != 'p'), names with
  | some (letter, _), name :: _ => Lookup.describe (letter == 'V') name
  | _, _ => return 0

/-- Run a builtin. A fault ends the shell only if the builtin is special. -/
def runBuiltin (tested : Bool) (r : Request) (args : List Text) : Run Nat := do
  let before := (← get).command
  modify fun s => { s with command := some r.name }
  try
    match String.ofList r.name with
    | "eval" => if args.isEmpty then return 0 else runText eval tested false (join [' '] args)
    | "." => runFile eval args
    | "exec" => exec eval args
    | "command" => describeCommands args
    | "type" => Lookup.type args
    | "hash" => Lookup.hash args
    | _ => (Lookup.builtin? r.name).elim (return Lookup.notFound) fun run => run args
  catch
    | .fault status => if r.isSpecial then throw (.fault status) else return status
    | interrupt => throw interrupt
  finally
    modify fun s => { s with command := before }

/-- Run what a request asks for, with its arguments. -/
def answer (tested : Bool) (r : Request) (args : List Text) : Run Nat := do
  match r.meaning with
  | some (.function body) => callFunction eval tested body args
  | some .builtin =>
    if r.fields.isEmpty then return (← get).substituted else runBuiltin eval tested r args
  | _ =>
    match ← locateProgram r.isStandard r.name with
    | .ok path => runProgram eval path r.name args
    | .error status => return status

/-- Run a simple command. Its words are expanded first, then its redirections are made, then its
assignments. -/
def simple (tested : Bool) (line : Nat) (assignments : List (Text × Word)) (words : List Word)
    (redirections : List Redirection) : Run Nat := do
  modify fun s => { s with line := line, substituted := 0 }
  let (fields, words) ← firstFields eval words
  let r ← request eval (words.length + fields.length + 1) none fields words
  let fields ← expandRest eval r
  let isBare := r.isExec && fields.length ≤ 1
  let errors := (← get).streams.lookup 2
  let action : Run Nat := do
    let shown ← assignAll eval r (r.isExec && !isBare) assignments
    trace errors (shown ++ r.lead ++ fields)
    answer eval tested { r with fields := fields } fields.tail
  let action := if r.isLasting then action else Variables.withLocals action
  if isBare then
    let before := (← get).streams
    try Run.redirectForGood (capture eval) redirections
    catch interrupt =>
      modify fun s => { s with streams := before }
      match interrupt with
      | .fault status => if r.isSpecial then throw interrupt else return status
      | _ => throw interrupt
    action
  else
    match ← Run.redirected (capture eval) redirections action with
    | some status => return status
    | none => if r.isSpecial then throw (.fault 2) else return 2

/-- Run an action inside one more loop. -/
def inLoop (action : Run Nat) : Run Nat := do
  let before := (← get).loops
  modify fun s => { s with loops := before + 1 }
  try action finally modify fun s => { s with loops := before }

/-- Run a round of a loop, and tell whether the loop goes on. -/
def round (action : Run (Option Nat)) : Run (Option Nat × Bool) := do
  try
    let result ← action
    return (result, result.isSome)
  catch
    | .leave n => if n ≤ 1 then return (some 0, false) else throw (.leave (n - 1))
    | .again n => if n ≤ 1 then return (some 0, true) else throw (.again (n - 1))
    | interrupt => throw interrupt

/-- How often a loop is run at most. -/
def longestLoop : Nat := 1000000

def repeatFrom (tested untilTrue : Bool) (condition body : Command) : Nat → Nat → Run Nat
  | 0, status => return status
  | rounds + 1, status => do
    let (result, goesOn) ← round do
      let holds := (← eval true condition) = 0
      if holds != untilTrue then return some (← eval tested body) else return none
    let status := result.getD status
    if goesOn then repeatFrom tested untilTrue condition body rounds status else return status

def eachFrom (tested : Bool) (name : Text) (body : Command) : Nat → List Text → Run Nat
  | status, [] => return status
  | _, value :: rest => do
    Run.assign name value
    let (result, goesOn) ← round do return some (← eval tested body)
    let status := result.getD 0
    if goesOn then eachFrom tested name body status rest else return status

/-- The body of the first case with a pattern that matches. -/
def chosenCase (t : Text) : List (List Word × Option Command) → Run (Option Command)
  | [] => return none
  | (patterns, body) :: rest => do
    let fits ← patterns.anyM fun w => do
      return Pattern.isMatch (← Run.expandPattern (capture eval) w) t
    if fits then return body else chosenCase t rest

/-- Make an attempt with as much room as it needs: one that has too little is undone. -/
def withRoom (attempt : Option Nat → Run Nat) : List Nat → Run Nat
  | [] => attempt none
  | room :: larger => do
    let before ← get
    try attempt (some room)
    catch
      | .starved id =>
        if before.nextChannel ≤ id then
          set before
          withRoom attempt larger
        else throw (.starved id)
      | interrupt => throw interrupt

/-- How much is written to a pipe at most before it is read, and how much more if that is not
enough. -/
def pipeRooms : List Nat := [65536, 262144, 1048576]

/-- Run the stages of a pipeline, the first with input from a channel. -/
def pipelineFrom (tested : Bool) (input : Option Nat) : List Command → Run Nat
  | [] => return 0
  | stage :: rest => do
    let action : Run Nat := do
      if let some id := input then Run.connect 0 id
      eval tested stage
    if rest.isEmpty then isolate eval action
    else
      let attempt (room : Option Nat) : Run Nat := do
        let (t, isCut, _) ← collect eval room action
        pipelineFrom tested (some (← Run.openChannel (.source t isCut))) rest
      withRoom attempt pipeRooms

/-- Run a command in the background, without input. -/
def background (body : Command) : Run Nat := do
  let process := (← get).lastProcess + 1
  modify fun s => { s with lastProcess := process }
  let status ← isolate eval do
    Run.connectNew 0 (.source [] false)
    eval false body
  Job.add process status
  return 0

/-- Run a subshell. Its redirections are expanded outside of it and made inside. -/
def subshell (tested : Bool) (line : Nat) (body : Command) (redirections : List Redirection) :
    Run Nat := do
  modify fun s => { s with line := line }
  let leads ← redirections.mapM (Run.expandRedirection (capture eval))
  isolate eval do
    Run.leadAll (capture eval) leads
    eval tested body

/-- Run a command by its form. -/
def runForm (tested : Bool) : Command → Run Nat
  | .simple line assignments words redirections =>
    simple eval tested line assignments words redirections
  | .redirected line body redirections => do
    modify fun s => { s with line := line }
    return (← Run.redirected (capture eval) redirections (eval tested body)).getD 2
  | .subshell line body redirections => subshell eval tested line body redirections
  | .background body => background eval body
  | .pipeline stages => pipelineFrom eval tested none stages
  | .negated body => do return if (← eval true body) = 0 then 1 else 0
  | .sequence first second => do
    let _ ← eval tested first
    eval tested second
  | .andThen first second => do
    let status ← eval true first
    if status = 0 then eval tested second else return status
  | .orElse first second => do
    let status ← eval true first
    if status = 0 then return status else eval tested second
  | .choose condition whenTrue whenFalse => do
    if (← eval true condition) = 0 then eval tested whenTrue
    else whenFalse.elim (return 0) (eval tested)
  | .repeating untilTrue condition body =>
    inLoop (repeatFrom eval tested untilTrue condition body longestLoop 0)
  | .each line name words body => do
    modify fun s => { s with line := line }
    let values ← Run.expandAll (capture eval) words
    inLoop (eachFrom eval tested name body 0 values)
  | .select line subject cases => do
    modify fun s => { s with line := line }
    let t ← Run.expandText (capture eval) .single subject
    (← chosenCase eval t cases).elim (return 0) (eval tested)
  | .define name body => do
    modify fun s =>
      { s with functions := (name, body) :: s.functions.filter (·.1 != name) }
    return 0

/-- Whether a failure of a command can end the shell. -/
def endsShell : Command → Bool
  | .simple _ _ _ _ => true
  | .subshell _ _ _ => true
  | .background _ => true
  | .pipeline _ => true
  | _ => false

/-- Run a command, and the traps that it calls for. -/
def step (tested : Bool) (c : Command) : Run Nat := do
  if ← Run.hasOption 'n' then return 0
  else
    runTraps eval
    let status ← runForm eval tested c
    modify fun s => { s with status := status }
    runTraps eval
    if status != 0 && !tested && endsShell c && (← Run.hasOption 'e') then throw (.exit status)
    else return status

end

/-- The evaluator for commands that are nested at most so deep, calls of functions included. What
is deeper ends the process as a lack of memory does. -/
def evalWithin : Nat → Evaluator
  | 0, _, _ => do throw (.killed (← get).process 11)
  | depth + 1, tested, c => step (evalWithin depth) tested c

/-- How deep commands may be nested. -/
def deepestCommand : Nat := 10000

end NativeGlue.Shell
