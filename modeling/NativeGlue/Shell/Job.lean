import NativeGlue.Shell.Signal
import NativeGlue.Shell.Variables

/-!
Jobs: commands that ran in the background. They run to their end at once, so all that is left to
do is to ask for their statuses. The latest job is the current one.
-/

namespace NativeGlue.Shell

open Text

namespace Job

/-- Forget a job that was waited for; its number is free again. -/
def forgetWaited (jobs : List Job) : List Job :=
  match (jobs.filter (·.isWaited)).getLast? with
  | some job => jobs.filter (·.number != job.number)
  | none => jobs

/-- Note that a command ran in the background as a process. -/
def add (process status : Nat) : Run Unit :=
  modify fun s =>
    let jobs := forgetWaited s.jobs
    let used := jobs.map (·.number)
    let number := ((List.range (used.length + 1)).find? fun n => !used.contains (n + 1)).getD 0 + 1
    { s with jobs := ⟨number, process, status, false⟩ :: jobs, background := some process }

/-- The job for which a text stands, or why there is none. Without a text it is the current job. -/
def find (t : Option Text) : Run (Except Text Job) := do
  let jobs := (← get).jobs
  let shown := t.getD "(null)".toList
  let orFault (job : Option Job) (fault : Text) : Except Text Job :=
    job.elim (.error fault) .ok
  let current := orFault jobs.head? "No current job".toList
  let unknown := "No such job: ".toList ++ shown
  match t with
  | none => return current
  | some ('%' :: name) =>
    if name.isEmpty || name = ['%'] || name = ['+'] then return current
    else if name = ['-'] then return orFault jobs[1]? "No previous job".toList
    else if name.all Char.isDigit then
      let n := (Arithmetic.digits 10 name).1
      return orFault (jobs.find? (·.number = n)) unknown
    else return .error unknown
  | some _ => return .error unknown

/-- Jobs cannot be continued, for want of a terminal. -/
def resume (args : List Text) : Run Nat := do
  let (_, operands) ← Run.readOptions "" "" args
  match ← find operands.head? with
  | .error fault => Run.fail fault
  | .ok _ =>
    Run.fail ("job ".toList ++ operands.head?.getD "(null)".toList ++
      " not created under job control".toList)

def stateText (status : Nat) : Text :=
  if status = 0 then "Done".toList
  else
    match if 128 < status then Signal.notice? (status - 128) else none with
    | some notice => notice.toList
    | none => "Done(".toList ++ ofNat status ++ [')']

def line (showsProcess : Bool) (job : Job) : Text :=
  let lead := '[' :: ofNat job.number ++ "] + ".toList
  let process := if showsProcess then ofNat job.process ++ [' '] else []
  let shown := lead ++ process ++ stateText job.status
  shown ++ List.replicate (max 1 (33 - shown.length)) ' ' ++ ['\n']

/-- Show jobs. One that was shown has ended and is forgotten. -/
def list (args : List Text) : Run Nat := do
  let (options, operands) ← Run.readOptions "lp" "" args
  let letter := options.getLast?.map (·.1)
  let show' (job : Job) : Run Nat := do
    modify fun s => { s with jobs := s.jobs.filter (·.number != job.number) }
    Run.emit <|
      if letter = some 'p' then ofNat job.process ++ ['\n'] else line (letter = some 'l') job
  if operands.isEmpty then
    let _ ← (← get).jobs.mapM show'
  else
    operands.forM fun t => do
      match ← find (some t) with
      | .ok job =>
        let _ ← show' job
      | .error fault => Run.fail fault
  return 0

def markWaited (isMeant : Job → Bool) : Run Unit :=
  modify fun s =>
    { s with
      jobs := s.jobs.map fun job => if isMeant job then { job with isWaited := true } else job }

/-- Wait for jobs. The status is that of the last one asked for. -/
def wait (args : List Text) : Run Nat := do
  let (_, operands) ← Run.readOptions "" "" args
  if operands.isEmpty then
    markWaited fun _ => true
    return 0
  else
    let statuses ← operands.mapM fun t => do
      let job ←
        if t.head? = some '%' then
          match ← find (some t) with
          | .ok job => pure (some job)
          | .error fault => Run.fail fault
        else do
          let process ← Run.argumentNumber t
          pure ((← get).jobs.find? (·.process = process))
      match job with
      | none => return 127
      | some job =>
        if !job.isWaited && 128 < job.status then
          if let some notice := Signal.notice? (job.status - 128) then Run.say notice.toList
        markWaited (·.number = job.number)
        return job.status
    return statuses.getLast?.getD 0

end Job

end NativeGlue.Shell
