import NativeGlue.Shell.Job

/-!
The builtins that end or skip commands, change the directory, and deal with signals.
-/

namespace NativeGlue.Shell

open Text

namespace Control

def exit (args : List Text) : Run Nat := do
  match args with
  | [] => do
    let s ← get
    throw (.exit (s.beforeTrap.getD s.status))
  | t :: _ => throw (.exit (← Run.argumentNumber t))

/-- Leave the running function or script. -/
def finish (args : List Text) : Run Nat := do
  match args with
  | [] => throw (.finish (← get).status)
  | t :: _ => throw (.finish (← Run.argumentNumber t))

/-- How many loops are left or begun again: at most those that run. -/
def loopCount (args : List Text) : Run Nat := do
  match args with
  | [] => return min 1 (← get).loops
  | t :: _ =>
    let n ← Run.argumentNumber t
    if n = 0 then Run.fail ("Illegal number: ".toList ++ t) else return min n (← get).loops

def leave (args : List Text) : Run Nat := do
  let n ← loopCount args
  if n = 0 then return 0 else throw (.leave n)

def again (args : List Text) : Run Nat := do
  let n ← loopCount args
  if n = 0 then return 0 else throw (.again n)

/-- A path from the root with its dots worked out by name. Two slashes at the start stay. -/
def lexicalPath (start t : Text) : Text :=
  let (root, steps) := if t.head? = some '/' then (t, Path.splitSlashes t)
    else (start, Path.splitSlashes start ++ Path.splitSlashes t)
  (Path.mk (Path.rootSlashes root) (steps.foldl Path.lexicalStep [])).text

def setExported (name value : Text) : Run Unit := do
  Run.assign name value
  Run.flag name fun v => { v with isExported := true }

/-- Go to a directory, and tell whether that was possible. -/
def goTo (isPhysical : Bool) (t : Text) : Run Bool := do
  let s ← get
  let path := if isPhysical then t else lexicalPath s.place t
  match ← Run.directoryAt? path with
  | none => return false
  | some place =>
    let shown := if isPhysical then spread (Path.absolute place).text else path
    set { s with directory := place, place := shown }
    setExported "OLDPWD".toList s.place
    setExported "PWD".toList shown
    return true

/-- Paths that are not looked for in other directories. -/
def isAnchored (t : Text) : Bool :=
  t.head? = some '/' || t = ['.'] || t = ['.', '.'] || "./".toList.isPrefixOf t ||
    "../".toList.isPrefixOf t

/-- Where a path is looked for, and whether the directory found is shown. -/
def candidates (t : Text) : Run (List (Text × Bool)) := do
  let directories ← if isAnchored t then pure none else Run.value? "CDPATH".toList
  match directories with
  | none => return [(t, false)]
  | some directories =>
    let found := (directories.splitOn ':').map fun d =>
      if d.isEmpty then (t, false) else (d ++ '/' :: t, true)
    return found ++ [(t, false)]

def changeDirectory (args : List Text) : Run Nat := do
  let (options, operands) ← Run.readOptions "LP" "" args
  let isPhysical := options.getLast?.any (·.1 == 'P')
  let isBack := operands.head? = some ['-']
  let target ←
    match operands with
    | [] => Run.value? "HOME".toList
    | t :: _ => if isBack then Run.value? "OLDPWD".toList else pure (some t)
  let t := target.getD []
  let found ← (← candidates (if t.isEmpty then ['.'] else t)).filterM fun c => do
    return (← Run.directoryAt? c.1).isSome
  let (path, isShown) := found.head?.getD (t, false)
  if ← goTo isPhysical (if path.isEmpty then ['.'] else path) then
    if isShown || isBack then Run.emit ((← get).place ++ ['\n']) else return 0
  else Run.fail ("can't cd to ".toList ++ t)

def showDirectory (args : List Text) : Run Nat := do
  let (options, _) ← Run.readOptions "LP" "" args
  let s ← get
  let isPhysical := options.getLast?.any (·.1 == 'P')
  Run.emit ((if isPhysical then spread (Path.absolute s.directory).text else s.place) ++ ['\n'])

/-- Send a signal to a job. Its status tells of that, unless it was waited for before. -/
def sendToJob (signal : Nat) (job : Job) : Run Nat := do
  if Signal.harmless.contains signal then return 0
  let ended := { job with status := 128 + signal }
  modify fun s =>
    { s with jobs := s.jobs.map fun other => if other.number = job.number then ended else other }
  return 0

/-- Send a signal to a process. Only the running shell and jobs that were not waited for are
there; a job is no group of processes of its own. -/
def send (signal : Nat) (target : Text) : Run Nat := do
  if target.head? = some '%' then
    if let .error fault ← Job.find (some target) then Run.fail fault
    Run.warn "No such process\n".toList
    return 1
  let n ← Run.argumentNumber (if target.head? = some '-' then target.tail else target)
  let s ← get
  let job := s.jobs.find? fun job => job.process = n && !job.isWaited
  if target.head? != some '-' && n != s.process && job.isSome then
    job.elim (return 0) (sendToJob signal)
  else if n = s.process && target.head? != some '-' then
    match s.traps.lookup signal with
    | some [] => if signal = 9 then throw (.killed n signal) else return 0
    | some _ =>
      if signal = 9 then throw (.killed n signal)
      set { s with signals := s.signals ++ [signal] }
      return 0
    | none => if Signal.harmless.contains signal then return 0 else throw (.killed n signal)
  else
    Run.warn "No such process\n".toList
    return 1

def killUsage : Text :=
  "Usage: kill [-s sigspec | -signum | -sigspec] [pid | job]... or\nkill -l [exitstatus]".toList

def listSignals (operands : List Text) : Run Nat := do
  match operands with
  | [] =>
    let names := (List.range Signal.count).tail.map fun n => Signal.name n ++ ['\n']
    Run.emit (['0', '\n'] ++ names.flatten)
  | t :: _ =>
    let n ← Run.argumentNumber t
    let n := if 128 < n then n - 128 else n
    if 0 < n && n < Signal.count then Run.emit (Signal.name n ++ ['\n'])
    else Run.fail ("invalid signal number or exit status: ".toList ++ t)

def kill (args : List Text) : Run Nat := do
  let sendAll (signal : Nat) (targets : List Text) : Run Nat := do
    if targets.isEmpty then Run.fail killUsage
    else return (← targets.mapM (send signal)).foldl max 0
  match args with
  | ('-' :: spec) :: rest =>
    match Signal.read? spec with
    | some n => sendAll n rest
    | none =>
      let (options, operands) ← Run.readOptions "l" "s" args
      match options.reverse.find? (·.1 == 's') with
      | some (_, name) =>
        match Signal.read? name with
        | some n => sendAll n operands
        | none => Run.fail ("invalid signal number or name: ".toList ++ name)
      | none =>
        if options.isEmpty then sendAll 15 operands else listSignals operands
  | _ => sendAll 15 args

/-- Set what happens when signals come; a minus sign takes that back. -/
def trap (args : List Text) : Run Nat := do
  let (_, operands) ← Run.readOptions "" "" args
  let s ← get
  let (action, conditions) :=
    match operands with
    | [] => (none, [])
    | [t] => (none, [t])
    | t :: rest => if (Signal.number? t).isSome then (none, operands) else (some t, rest)
  if operands.isEmpty then
    let line (n : Nat) : Text :=
      (s.traps.lookup n).elim [] fun t =>
        "trap -- ".toList ++ Variables.quoted t ++ ' ' :: Signal.name n ++ ['\n']
    Run.emit ((List.range Signal.count).flatMap line)
  else
    let action := action.filter (· != ['-'])
    conditions.foldlM
      (fun status t => do
        if status != 0 then return status
        match Signal.condition? t with
        | none =>
          Run.say ("trap: ".toList ++ t ++ ": bad trap".toList)
          return 1
        | some n =>
          modify fun s =>
            let others := s.traps.filter (·.1 != n)
            { s with traps := action.elim others fun a => (n, a) :: others }
          return 0)
      0

end Control

end NativeGlue.Shell
