import NativeGlue.Shell.Arithmetic

/-!
The builtin that tests a condition on texts, numbers or files. Its arguments are operands and
operators; a text that could be either is an operand where an operator would lack its own
operands.
-/

namespace NativeGlue.Shell

open Text

namespace Condition

inductive Kind where
  | unary | binary | negation | conjunction | disjunction | opening | closing
  deriving DecidableEq, Repr

def unaryOperators : List String :=
  ["-r", "-w", "-x", "-e", "-f", "-d", "-c", "-b", "-p", "-u", "-g", "-k", "-s", "-t", "-z", "-n",
    "-h", "-O", "-G", "-L", "-S"]

def binaryOperators : List String :=
  ["=", "!=", "<", ">", "-eq", "-ne", "-ge", "-gt", "-le", "-lt", "-nt", "-ot", "-ef"]

def kind? (t : Text) : Option Kind :=
  let s := String.ofList t
  if unaryOperators.contains s then some .unary
  else if binaryOperators.contains s then some .binary
  else if s = "!" then some .negation
  else if s = "-a" then some .conjunction
  else if s = "-o" then some .disjunction
  else if s = "(" then some .opening
  else if s = ")" then some .closing
  else none

/-- What the first of the arguments is, if it is an operator. -/
def operator? : List Text → Option Kind
  | [] => none
  | t :: rest =>
    match kind? t, rest with
    | some .unary, [] => none
    | some .unary, [_] => some .unary
    | some .unary, next :: _ => if kind? next = some .binary then none else some .unary
    | some .opening, [] => none
    | kind, _ => kind

def fail {α : Type} (op : Text) (problem : String) : Run α :=
  Run.fail (if op.isEmpty then problem.toList else op ++ ": ".toList ++ problem.toList)

def number (t : Text) : Run Int :=
  match Arithmetic.integer? (some 10) t with
  | some n => return n
  | none => Run.fail ("Illegal number: ".toList ++ t)

def compareNumbers (op : String) (a b : Int) : Bool :=
  match op with
  | "-eq" => a == b
  | "-ne" => a != b
  | "-ge" => b ≤ a
  | "-gt" => b < a
  | "-le" => a ≤ b
  | _ => a < b

/-- Whether a file was written, and another was not. -/
def isNewer (a b : Text) : Run Bool := do
  match ← Run.onTree a Tree.walk, ← Run.onTree b Tree.walk with
  | .ok x, .ok y =>
    let touched := (← get).touched
    return (← Run.find? b).isSome && touched.contains x && !touched.contains y
  | _, _ => return false

def compare (op : Text) (a b : Text) : Run Bool := do
  match String.ofList op with
  | "=" => return a == b
  | "!=" => return a != b
  | "<" => return a != b && Text.le a b
  | ">" => return a != b && Text.le b a
  | "-nt" => isNewer a b
  | "-ot" => isNewer b a
  | "-ef" =>
    match ← Run.onTree a Tree.walk, ← Run.onTree b Tree.walk with
    | .ok x, .ok y => return x == y && (← Run.find? a).isSome
    | _, _ => return false
  | op => return compareNumbers op (← number a) (← number b)

def isLink (path : Text) : Run Bool := do
  match ← Run.onTree path fun tree here names => do
    return tree.find? (← tree.walkToLast here names) with
  | .ok (some (.link _)) => return true
  | _ => return false

/-- Whether a condition on a text or on what a path leads to holds. -/
def holds (op : Text) (t : Text) : Run Bool := do
  let found ← Run.find? t
  match String.ofList op with
  | "-z" => return t.isEmpty
  | "-n" => return !t.isEmpty
  | "-f" => return found.any Tree.isFile
  | "-d" => return found.any Tree.isDirectory
  | "-x" => return found.any Tree.isRunnable
  | "-c" => return (found matches some .null)
  | "-s" => return found.any fun tree => tree.bytes? != some []
  | "-h" => isLink t
  | "-L" => isLink t
  | "-t" =>
    let _ ← number t
    return false
  | op =>
    let fd := streamAt? t
    let isStream ← fd.elim (pure false) fun fd => do return ((← get).streams.lookup fd).isSome
    return (found.isSome || isStream) && ["-e", "-r", "-w", "-O", "-G"].contains op

/-- How far the arguments are read: the last one read, and those after it. -/
structure Place where
  last : Text
  rest : List Text

abbrev Step := Run (Bool × Place)

mutual

/-- Conditions of which one must hold. -/
def disjunction : Nat → List Text → Step
  | 0, ts => return (false, ⟨[], ts⟩)
  | fuel + 1, ts => do
    let (a, p) ← conjunction fuel ts
    if operator? p.rest = some .disjunction then
      let (b, p) ← disjunction fuel p.rest.tail
      return (a || b, p)
    else return (a, p)

/-- Conditions of which all must hold. -/
def conjunction : Nat → List Text → Step
  | 0, ts => return (false, ⟨[], ts⟩)
  | fuel + 1, ts => do
    let (a, p) ← negation fuel ts
    if operator? p.rest = some .conjunction then
      let (b, p) ← conjunction fuel p.rest.tail
      return (a && b, p)
    else return (a, p)

def negation : Nat → List Text → Step
  | 0, ts => return (false, ⟨[], ts⟩)
  | fuel + 1, ts => do
    if operator? ts = some .negation then
      let (a, p) ← negation fuel ts.tail
      return (!a, p)
    else primary fuel ts

def primary : Nat → List Text → Step
  | 0, ts => return (false, ⟨[], ts⟩)
  | _, [] => return (false, ⟨[], []⟩)
  | fuel + 1, t :: rest => do
    match operator? (t :: rest), rest with
    | some .opening, _ =>
      if operator? rest = some .closing then return (false, ⟨rest.head?.getD [], rest.tail⟩)
      else
        let (a, p) ← disjunction fuel rest
        if operator? p.rest = some .closing then return (a, ⟨p.rest.head?.getD [], p.rest.tail⟩)
        else fail [] "closing paren expected"
    | some .unary, [] => fail t "argument expected"
    | some .unary, operand :: after => return (← holds t operand, ⟨operand, after⟩)
    | _, _ =>
      match operator? rest, rest with
      | some .binary, op :: operand :: after => return (← compare op t operand, ⟨operand, after⟩)
      | some .binary, op :: [] => fail op "argument expected"
      | _, _ => return (!t.isEmpty, ⟨t, rest⟩)

end

/-- Whether all arguments together make a condition that holds. -/
def evaluate (ts : List Text) : Run Bool := do
  let (a, p) ← disjunction (4 * ts.length + 4) ts
  if p.rest.isEmpty then return a else fail p.last "unexpected operator"

/-- Of three arguments with an operator in the middle the first is an operand. -/
def isComparison : List Text → Bool
  | [_, op, _] => kind? op = some .binary
  | _ => false

/-- Three or four arguments may be put in parentheses or negated as a whole. A negation that is
repeated there counts once. -/
def test : Nat → Bool → List Text → Run Bool
  | 0, isNegated, ts => do return (← evaluate ts) != isNegated
  | fuel + 1, isNegated, ts => do
    match ts with
    | [] => return isNegated
    | [a, op, b] =>
      if isComparison ts then return (← compare op a b) != isNegated
      else if a = ['('] && b = [')'] then return (← evaluate [op]) != isNegated
      else if a = ['!'] then test fuel true ts.tail
      else return (← evaluate ts) != isNegated
    | [a, b, c, d] =>
      if a = ['('] && d = [')'] then return (← evaluate [b, c]) != isNegated
      else if a = ['!'] then test fuel true ts.tail
      else return (← evaluate ts) != isNegated
    | _ => return (← evaluate ts) != isNegated

def statusOf (holds : Bool) : Nat := if holds then 0 else 1

/-- The builtin by its long name. -/
def builtin (args : List Text) : Run Nat := do return statusOf (← test args.length false args)

/-- The builtin by its short name, which must be closed. -/
def bracket (args : List Text) : Run Nat := do
  if args.getLast? = some [']'] then builtin args.dropLast else Run.fail "missing ]".toList

end Condition

end NativeGlue.Shell
