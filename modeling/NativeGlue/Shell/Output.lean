import NativeGlue.Shell.Directive
import NativeGlue.Shell.Numeral

/-!
The builtins that write their arguments: one as they stand, with escapes, the other by a
format.
-/

namespace NativeGlue.Shell

open Text

namespace Run

/-- Write on the output and give the status of a builtin that did. -/
def emit (t : Text) : Run Nat := do
  if t.isEmpty || (← write 1 t) then return 0
  else warnWith 1 (((← get).command.getD []) ++ ": I/O error".toList)

end Run

namespace Output

/-- The value of at most `count` octal digits, and what follows them. -/
def octal : Nat → Nat → Text → Nat × Text
  | count + 1, n, c :: rest =>
    if '0' ≤ c && c ≤ '7' then octal count (8 * n + (c.toNat - 48)) rest else (n, c :: rest)
  | _, n, t => (n, t)

def isOctal (c : Char) : Bool := '0' ≤ c && c ≤ '7'

/-- The character for which a letter stands after a backslash. -/
def named? (c : Char) : Option Char :=
  match c with
  | 'a' => some '\x07'
  | 'b' => some '\x08'
  | 'e' => some '\x1b'
  | 'f' => some '\x0c'
  | 'n' => some '\n'
  | 'r' => some '\r'
  | 't' => some '\t'
  | 'v' => some '\x0b'
  | '\\' => some '\\'
  | _ => none

/-- The character of an escape, read after its backslash. One that is unknown is no escape. -/
def escape (t : Text) : Char × Text :=
  match t with
  | [] => ('\\', [])
  | c :: rest =>
    if isOctal c then
      let (n, after) := octal 3 0 t
      (Char.ofNat (n % 256), after)
    else
      match named? c with
      | some d => (d, rest)
      | none => ('\\', t)

/-- A text with its escapes replaced. The flag tells whether one of them ended all output. -/
def escapedFrom : Nat → Text → Text × Bool
  | 0, _ => ([], false)
  | _, [] => ([], false)
  | fuel + 1, '\\' :: rest =>
    match rest with
    | 'c' :: _ => ([], true)
    | '0' :: d :: after =>
      let (c, after) := escape (if isOctal d then d :: after else rest)
      let (more, isCut) := escapedFrom fuel after
      (c :: more, isCut)
    | _ =>
      let (c, after) := escape rest
      let (more, isCut) := escapedFrom fuel after
      (c :: more, isCut)
  | fuel + 1, c :: rest =>
    let (more, isCut) := escapedFrom fuel rest
    (c :: more, isCut)

def escaped (t : Text) : Text × Bool := escapedFrom (t.length + 1) t

/-- The arguments with blanks between them, up to one that ends all output. -/
def echoed : List Text → Text × Bool
  | [] => ([], false)
  | t :: rest =>
    let (shown, isCut) := escaped t
    if isCut || rest.isEmpty then (shown, isCut)
    else
      let (more, isCut) := echoed rest
      (shown ++ ' ' :: more, isCut)

def echo (args : List Text) : Run Nat :=
  let isOpen := args.head? == some "-n".toList
  let (shown, isCut) := echoed (if isOpen then args.tail else args)
  Run.emit (if isOpen || isCut then shown else shown ++ ['\n'])

/-- What is written so far, the arguments that are left, and the status. -/
structure Printing where
  written : Text
  args : List Text
  status : Nat

namespace Printing

def put (p : Printing) (t : Text) : Printing := { p with written := p.written ++ t }

end Printing

/-- The number that a text starts with, and what follows it. Where signs do not count, large
numbers reach further. -/
def leadingNumber (isSigned : Bool) (t : Text) : Int × Text × Bool :=
  let body := t.dropWhile Arithmetic.isSpace
  let (isNegative, digits) :=
    match body with
    | '-' :: rest => (true, rest)
    | '+' :: rest => (false, rest)
    | _ => (false, body)
  if digits.head?.any Char.isDigit then
    let (n, rest) := Arithmetic.unsigned digits
    let value : Int := if isNegative then -n else n
    let limit : Int := if isSigned then Arithmetic.clamp value else min value 18446744073709551615
    (limit, rest, limit != value)
  else (0, t, false)

/-- What is found out about an argument that is read as a number. -/
structure Reading (α : Type) where
  value : α
  rest : Text
  isOutOfRange : Bool

/-- The next argument as a number, read by `read` unless a quote says that the code of the
character behind it is meant. One that does not look like a number is complained about. -/
def number {α : Type} (zero : α) (ofCode : Char → α) (read : Text → Reading α) (p : Printing) :
    Run (α × Printing) := do
  match p.args with
  | [] => return (zero, p)
  | t :: args =>
    let p := { p with args := args }
    match t with
    | '"' :: rest => return (rest.head?.elim zero ofCode, p)
    | '\'' :: rest => return (rest.head?.elim zero ofCode, p)
    | _ =>
      let n := read t
      let problem : Option String :=
        if n.rest.isEmpty then
          if n.isOutOfRange then some "Numerical result out of range" else none
        else if n.rest = t then some "expected numeric value"
        else some "not completely converted"
      match problem with
      | none => return (n.value, p)
      | some problem =>
        Run.warn (t ++ ": ".toList ++ problem.toList)
        return (n.value, { p with status := 1 })

def integer (isSigned : Bool) : Printing → Run (Int × Printing) :=
  number 0 (fun c => (c.toNat : Int)) fun t =>
    let (value, rest, isOutOfRange) := leadingNumber isSigned t
    ⟨value, rest, isOutOfRange⟩

def numeral : Printing → Run (Numeral × Printing) :=
  number Numeral.zero Numeral.ofCode fun t =>
    let n := Numeral.read t
    ⟨n, n.rest, n.isOutOfRange⟩

def nextText (p : Printing) : Text × Printing :=
  (p.args.head?.getD [], { p with args := p.args.tail })

/-- A width or a precision: digits, or a star for the next argument. -/
def measure (t : Text) (p : Printing) : Run (Option Int × Text × Printing) := do
  match t with
  | '*' :: rest =>
    let (n, p) ← integer true p
    return (some n, rest, p)
  | _ =>
    let digits := t.takeWhile Char.isDigit
    let n : Option Int := if digits.isEmpty then none else some (Arithmetic.digits 10 digits).1
    return (n, t.drop digits.length, p)

def directiveFlags : Text := "#-+ 0".toList

/-- The flags, width and precision at the start of a text. -/
def directive (t : Text) (p : Printing) : Run (Directive × Text × Printing) := do
  let flags := t.takeWhile directiveFlags.contains
  let (width, rest, p) ← measure (t.drop flags.length) p
  let width := width.getD 0
  let flags := if width < 0 then '-' :: flags else flags
  match rest with
  | '.' :: rest =>
    let (precision, rest, p) ← measure rest p
    let n := precision.getD 0
    return (⟨flags, width.natAbs, if n < 0 then none else some n.toNat⟩, rest, p)
  | _ => return (⟨flags, width.natAbs, none⟩, rest, p)

/-- One pass over a format. The flag tells whether an argument ended all output. -/
def formatFrom : Nat → Text → Printing → Run (Printing × Bool)
  | 0, _, p => return (p, false)
  | fuel + 1, t, p => do
    match t with
    | [] => return (p, false)
    | '\\' :: rest =>
      let (c, after) := escape rest
      formatFrom fuel after (p.put [c])
    | '%' :: '%' :: rest => formatFrom fuel rest (p.put ['%'])
    | '%' :: rest =>
      let (d, after, p) ← directive rest p
      match after with
      | [] =>
        let _ ← Run.emit p.written
        Run.fail "missing format character".toList
      | letter :: after =>
        if letter = 'b' then
          let (arg, p) := nextText p
          let (shown, isCut) := escaped arg
          let p := p.put (d.text shown)
          if isCut then return (p, true) else formatFrom fuel after p
        else if letter = 'c' then
          let (arg, p) := nextText p
          formatFrom fuel after (p.put (d.pad (if arg.isEmpty then ['\x00'] else arg.take 1)))
        else if letter = 's' then
          let (arg, p) := nextText p
          formatFrom fuel after (p.put (d.text arg))
        else if letter = 'd' || letter = 'i' then
          let (n, p) ← integer true p
          formatFrom fuel after (p.put (d.signed n))
        else if "ouxX".toList.contains letter then
          let (n, p) ← integer false p
          formatFrom fuel after (p.put (d.unsigned letter n))
        else if "aAeEfFgG".toList.contains letter then
          let (n, p) ← numeral p
          formatFrom fuel after (p.put (d.numeral letter n))
        else
          let _ ← Run.emit p.written
          Run.fail ('%' :: rest.take (rest.length - after.length) ++
            ": invalid directive".toList)
    | c :: rest => formatFrom fuel rest (p.put [c])

/-- The format is used again while it consumes arguments. -/
def formatAll : Nat → Text → Printing → Run Printing
  | 0, _, p => return p
  | fuel + 1, format, p => do
    let (after, isCut) ← formatFrom (format.length + 1) format p
    if isCut || after.args.isEmpty || after.args.length = p.args.length then return after
    else formatAll fuel format after

def printf (args : List Text) : Run Nat := do
  let isMarked := args.head? = some "--".toList
  match if isMarked then args.tail else args with
  | [] => Run.fail "usage: printf format [arg ...]".toList
  | format :: rest =>
    if format.head? = some '-' && 1 < format.length && !isMarked then
      Run.fail ("Illegal option ".toList ++ format.take 2)
    else
      let p ← formatAll (rest.length + 1) format ⟨[], rest, 0⟩
      let status ← Run.emit p.written
      return max status p.status

end Output

end NativeGlue.Shell
