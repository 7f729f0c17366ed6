import NativeGlue.Shell.Arithmetic

/-!
Signals by number and by name.
-/

namespace NativeGlue.Shell

open Text

namespace Signal

/-- The names of signals, in order of their numbers from one. -/
def names : List String :=
  ["HUP", "INT", "QUIT", "ILL", "TRAP", "ABRT", "BUS", "FPE", "KILL", "USR1", "SEGV", "USR2",
    "PIPE", "ALRM", "TERM", "STKFLT", "CHLD", "CONT", "STOP", "TSTP", "TTIN", "TTOU", "URG", "XCPU",
    "XFSZ", "VTALRM", "PROF", "WINCH", "IO", "PWR", "SYS"]

/-- What is said of a process that a signal ended. Interrupts and broken pipes pass in
silence. -/
def notice? (signal : Nat) : Option String :=
  match signal with
  | 1 => some "Hangup"
  | 3 => some "Quit"
  | 4 => some "Illegal instruction"
  | 5 => some "Trace/breakpoint trap"
  | 6 => some "Aborted"
  | 7 => some "Bus error"
  | 8 => some "Floating point exception"
  | 9 => some "Killed"
  | 10 => some "User defined signal 1"
  | 11 => some "Segmentation fault"
  | 12 => some "User defined signal 2"
  | 14 => some "Alarm clock"
  | 15 => some "Terminated"
  | 16 => some "Stack fault"
  | 24 => some "CPU time limit exceeded"
  | 25 => some "File size limit exceeded"
  | 26 => some "Virtual timer expired"
  | 27 => some "Profiling timer expired"
  | 29 => some "I/O possible"
  | 30 => some "Power failure"
  | 31 => some "Bad system call"
  | _ => none

/-- Signals without an effect where no trap is set. -/
def harmless : List Nat := [0, 17, 18, 19, 20, 21, 22, 23, 28]

def count : Nat := 65

def number? (t : Text) : Option Nat :=
  if !t.isEmpty && t.all Char.isDigit then
    let n := (Arithmetic.digits 10 t).1
    if n < count then some n else none
  else none

/-- The number of a signal given by number or name. -/
def read? (t : Text) : Option Nat :=
  match number? t with
  | some n => some n
  | none =>
    (names.findIdx? fun known => known.toList == t.map Char.toUpper).map (· + 1)

/-- The number of a signal, or zero for the end of the shell. -/
def condition? (t : Text) : Option Nat :=
  if t.map Char.toUpper = "EXIT".toList then some 0 else read? t

def name (n : Nat) : Text :=
  if n = 0 then "EXIT".toList
  else
    match names[n - 1]? with
    | some known => known.toList
    | none =>
      if n = 32 then "32".toList else if n = 33 then "33".toList
      else if n ≤ 49 then (if n = 34 then "RTMIN".toList else "RTMIN+".toList ++ ofNat (n - 34))
      else if n = 64 then "RTMAX".toList else "RTMAX-".toList ++ ofNat (64 - n)

end Signal

end NativeGlue.Shell
