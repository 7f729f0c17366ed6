import NativeGlue.Shell.State

/-!
Arithmetic on integers of 64 bits. An expression is evaluated while it is read; parts that do
not count, such as the other branch of a condition, are read without effect.
-/

namespace NativeGlue.Shell

open Text

namespace Arithmetic

inductive Token where
  | number (n : Int)
  | name (t : Text)
  | op (t : String)
  | unknown
  deriving DecidableEq, Repr

/-- How many integers of 64 bits there are. -/
def modulus : Nat := 18446744073709551616

/-- The integer of 64 bits that is congruent to a number. -/
def wrap (n : Int) : Int := n.bmod modulus

def largest : Int := 9223372036854775807

/-- The nearest integer of 64 bits. -/
def clamp (n : Int) : Int := max (-largest - 1) (min largest n)

def digitValue (c : Char) : Nat :=
  if c.isDigit then c.toNat - 48
  else if 'a' ≤ c && c ≤ 'f' then c.toNat - 87
  else if 'A' ≤ c && c ≤ 'F' then c.toNat - 55
  else 99

/-- The number that digits at the start of a text write, and what follows them. -/
def digits (base : Nat) (t : Text) : Nat × Text :=
  let isOne (c : Char) : Bool := digitValue c < base
  ((t.takeWhile isOne).foldl (fun n c => base * n + digitValue c) 0, t.dropWhile isOne)

/-- A number without a sign: octal after a zero, hexadecimal after a zero and an x. -/
def unsigned (t : Text) : Nat × Text :=
  match t with
  | '0' :: 'x' :: c :: rest => if digitValue c < 16 then digits 16 (c :: rest) else (0, t.tail)
  | '0' :: 'X' :: c :: rest => if digitValue c < 16 then digits 16 (c :: rest) else (0, t.tail)
  | '0' :: _ => digits 8 t
  | _ => digits 10 t

def isSpace (c : Char) : Bool := c == ' ' || (9 ≤ c.toNat && c.toNat ≤ 13)

/-- The integer that a text holds between blanks. The base is that of its first digits unless it
is given. -/
def integer? (base : Option Nat) (t : Text) : Option Int :=
  let t := t.dropWhile isSpace
  let (isNegative, body) :=
    match t with
    | '-' :: rest => (true, rest)
    | '+' :: rest => (false, rest)
    | _ => (false, t)
  let hasDigits := body.head?.any Char.isDigit
  let (n, rest) := base.elim (unsigned body) fun b => digits b body
  let value : Int := if isNegative then -n else n
  if (hasDigits || (t.isEmpty && base.isNone)) && (rest.all isSpace) && clamp value = value then
    some value
  else none

def operators : List String :=
  ["<<=", ">>=", "==", "!=", "<=", ">=", "<<", ">>", "&&", "||", "+=", "-=", "*=", "/=", "%=", "&=",
    "|=", "^=", "+", "-", "*", "/", "%", "<", ">", "=", "!", "~", "&", "|", "^", "?", ":", "(", ")"]

def operator? (t : Text) : Option (String × Text) :=
  operators.findSome? fun o => (dropStart? o.toList t).map fun rest => (o, rest)

def tokensFrom : Nat → Text → List Token
  | 0, _ => []
  | _, [] => []
  | fuel + 1, c :: rest =>
    if c = ' ' || c = '\t' || c = '\n' then tokensFrom fuel rest
    else if c.isDigit then
      let (n, after) := unsigned (c :: rest)
      .number (clamp n) :: tokensFrom fuel after
    else if isAsciiWord c then
      .name (c :: rest.takeWhile isAsciiWord) :: tokensFrom fuel (rest.dropWhile isAsciiWord)
    else
      match operator? (c :: rest) with
      | some (o, after) => .op o :: tokensFrom fuel after
      | none => [.unknown]

def tokens (t : Text) : List Token := tokensFrom (t.length + 1) t

/-- How tightly an operator between two operands binds; less is tighter. -/
def rank? (o : String) : Option Nat :=
  [["*", "/", "%"], ["+", "-"], ["<<", ">>"], ["<", "<=", ">", ">="], ["==", "!="], ["&"], ["^"],
    ["|"]].findIdx? fun group => group.contains o

def ofBool (b : Bool) : Int := if b then 1 else 0

/-- Bits of two integers of 64 bits, combined one by one. -/
def bitwise (f : Nat → Nat → Nat) (a b : Int) : Int :=
  wrap (f (a.emod modulus).toNat (b.emod modulus).toNat)

/-- What an operator makes of two operands; division by zero makes nothing. -/
def operate? (o : String) (a b : Int) : Option Int :=
  match o with
  | "*" => some (wrap (a * b))
  | "/" => if b = 0 then none else some (wrap (a.tdiv b))
  | "%" => if b = 0 then none else some (a.tmod b)
  | "+" => some (wrap (a + b))
  | "-" => some (wrap (a - b))
  | "<<" => some (wrap (a * Nat.pow 2 (b.emod 64).toNat))
  | ">>" => some (a >>> (b.emod 64).toNat)
  | "<" => some (ofBool (a < b))
  | "<=" => some (ofBool (a ≤ b))
  | ">" => some (ofBool (b < a))
  | ">=" => some (ofBool (b ≤ a))
  | "==" => some (ofBool (a = b))
  | "!=" => some (ofBool (a ≠ b))
  | "&" => some (bitwise Nat.land a b)
  | "^" => some (bitwise Nat.xor a b)
  | "|" => some (bitwise Nat.lor a b)
  | _ => none

/-- The operator of an assignment that first combines, and whether it is an assignment. -/
def assignmentOp? (o : String) : Option (Option String) :=
  if o = "=" then some none
  else if ["+=", "-=", "*=", "/=", "%=", "<<=", ">>=", "&=", "|=", "^="].contains o then
    some (some (String.ofList o.toList.dropLast))
  else none

section

variable (whole : Text)

def refuse {α : Type} (problem : String) : Run α :=
  Run.fail ("arithmetic expression: ".toList ++ problem.toList ++ ": \"".toList ++ whole ++ ['"'])

/-- The value of a variable; without one it counts as zero. -/
def valueOf (name : Text) : Run Int := do
  let t := (← Run.value? name).getD []
  match integer? none t with
  | some n => return n
  | none => Run.fail ("Illegal number: ".toList ++ t)

def combine (o : String) (a b : Int) : Run Int := do
  match operate? o a b with
  | some n => return n
  | none => refuse whole "division by zero"

def isOp (o : String) (ts : List Token) : Bool := ts.head? == some (.op o)

abbrev Step := Run (Int × List Token)

mutual

/-- An assignment or a condition. `counts` tells whether it has effects. -/
def assignment : Nat → Bool → List Token → Step
  | 0, _, _ => refuse whole "expecting primary"
  | fuel + 1, counts, ts => do
    match ts with
    | .name name :: .op o :: rest =>
      match assignmentOp? o with
      | none => condition fuel counts ts
      | some combining =>
        let (n, rest) ← assignment fuel counts rest
        if counts then
          let n ←
            match combining with
            | none => pure n
            | some o => combine whole o (← valueOf name) n
          Run.assign name (ofInt n)
          return (n, rest)
        else return (n, rest)
    | _ => condition fuel counts ts

def condition : Nat → Bool → List Token → Step
  | 0, _, _ => refuse whole "expecting primary"
  | fuel + 1, counts, ts => do
    let (a, rest) ← disjunction fuel counts ts
    if isOp "?" rest then
      let (b, rest) ← assignment fuel (counts && a != 0) rest.tail
      if !isOp ":" rest then refuse whole "expecting ':'"
      let (c, rest) ← condition fuel (counts && a = 0) rest.tail
      return (if a = 0 then c else b, rest)
    else return (a, rest)

def disjunction : Nat → Bool → List Token → Step
  | 0, _, _ => refuse whole "expecting primary"
  | fuel + 1, counts, ts => do
    let (a, rest) ← conjunction fuel counts ts
    if isOp "||" rest then
      let (b, rest) ← disjunction fuel (counts && a = 0) rest.tail
      return (ofBool (a != 0 || b != 0), rest)
    else return (a, rest)

def conjunction : Nat → Bool → List Token → Step
  | 0, _, _ => refuse whole "expecting primary"
  | fuel + 1, counts, ts => do
    let (a, rest) ← primary fuel counts ts
    let (a, rest) ← operations fuel counts 8 a rest
    if isOp "&&" rest then
      let (b, rest) ← conjunction fuel (counts && a != 0) rest.tail
      return (ofBool (a != 0 && b != 0), rest)
    else return (a, rest)

/-- Operators that bind more tightly than a rank, applied to what was read before them. -/
def operations : Nat → Bool → Nat → Int → List Token → Step
  | 0, _, _, _, _ => refuse whole "expecting primary"
  | fuel + 1, counts, limit, a, ts => do
    match ts with
    | .op o :: rest =>
      match rank? o with
      | none => return (a, ts)
      | some rank =>
        if limit ≤ rank then return (a, ts)
        else
          let (b, rest) ← primary fuel counts rest
          let (b, rest) ← operations fuel counts rank b rest
          let n ← if counts then combine whole o a b else pure b
          operations fuel counts limit n rest
    | _ => return (a, ts)

def primary : Nat → Bool → List Token → Step
  | 0, _, _ => refuse whole "expecting primary"
  | fuel + 1, counts, ts => do
    match ts with
    | .number n :: rest => return (n, rest)
    | .name name :: rest => return (← if counts then valueOf name else pure 0, rest)
    | .op "(" :: rest =>
      let (n, rest) ← assignment fuel counts rest
      if isOp ")" rest then return (n, rest.tail) else refuse whole "expecting ')'"
    | .op "+" :: rest => primary fuel counts rest
    | .op "-" :: rest =>
      let (n, rest) ← primary fuel counts rest
      return (wrap (-n), rest)
    | .op "!" :: rest =>
      let (n, rest) ← primary fuel counts rest
      return (ofBool (n = 0), rest)
    | .op "~" :: rest =>
      let (n, rest) ← primary fuel counts rest
      return (-n - 1, rest)
    | _ => refuse whole "expecting primary"

end

/-- The value of a whole expression. -/
def evaluate : Run Int := do
  let ts := tokens whole
  let (n, rest) ← assignment whole (8 * ts.length + 8) true ts
  if rest.isEmpty then return n else refuse whole "expecting EOF"

end

end Arithmetic

end NativeGlue.Shell
