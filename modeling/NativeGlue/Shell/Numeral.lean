import NativeGlue.Binary64
import NativeGlue.Shell.Arithmetic

/-!
Numbers that need not be integers, as arguments write them: decimal or hexadecimal digits with a
point among them and an exponent, or the words for what is infinite and for what is no number.
-/

namespace NativeGlue.Shell

open Text

/-- What a text starts with as a number. -/
structure Numeral where
  isNegative : Bool
  /-- The value without the sign. -/
  value : Binary64
  /-- The value lies beyond what can be held, or is too small to be held exactly. -/
  isOutOfRange : Bool
  rest : Text

namespace Numeral

/-- Digits with a point among them. -/
structure Digits where
  value : Nat
  /-- How many there are. -/
  count : Nat
  /-- How many of them are behind the point. -/
  behind : Nat
  rest : Text

def digits? (base : Nat) (t : Text) : Option Digits :=
  let isOne (c : Char) : Bool := Arithmetic.digitValue c < base
  let whole := t.takeWhile isOne
  let after := t.drop whole.length
  let (behind, rest) :=
    match after with
    | '.' :: rest => (rest.takeWhile isOne, rest.dropWhile isOne)
    | _ => ([], after)
  let read := whole ++ behind
  if read.isEmpty then none
  else some ⟨(Arithmetic.digits base read).1, read.length, behind.length, rest⟩

/-- The exponent at the start of a text, after its letter, and what follows. One without digits
is none. -/
def exponent (letter : Char) (t : Text) : Int × Text :=
  match t with
  | c :: rest =>
    let (isNegative, body) : Bool × Text :=
      match rest with
      | '-' :: body => (true, body)
      | '+' :: body => (false, body)
      | _ => (false, rest)
    if c.toLower = letter && body.head?.any Char.isDigit then
      let (n, rest) := Arithmetic.digits 10 body
      (if isNegative then -(n : Int) else n, rest)
    else (0, t)
  | [] => (0, [])

/-- The number nearest to a fraction, and whether it is infinite, or inexact though smaller than
numbers with all their digits are. -/
def nearest (num den : Nat) : Binary64 × Bool :=
  let exact := Binary64.exponentOf num den
  let scaled := Binary64.scaleDown num den exact
  let carries := Binary64.roundQuotient scaled.1 scaled.2 == Binary64.twoTo 53
  let isSmall := (if carries then exact + 1 else exact) < Binary64.leastExponent
  let held := Binary64.scaleDown num den (max exact Binary64.leastExponent)
  match Binary64.ofFraction false num den with
  | .infinite isNegative => (.infinite isNegative, true)
  | value => (value, isSmall && held.1 % held.2 != 0)

/-- The number nearest to `value * base ^ power`. Powers beyond the bounds lead out of range all
the same. -/
def scaled (base : Nat) (d : Digits) (power : Int) : Binary64 × Bool :=
  if d.value = 0 then (.finite false 0 Binary64.leastExponent, false)
  else
    match max (-1200 - 4 * (d.count : Int)) (min 1200 power) with
    | .ofNat e => nearest (d.value * Nat.pow base e) 1
    | .negSucc e => nearest d.value (Nat.pow base (e + 1))

/-- A word without regard to case at the start of a text, and what follows it. -/
def dropWord? (word : String) (t : Text) : Option Text :=
  let count := word.length
  if (t.take count).map Char.toLower = word.toList then some (t.drop count) else none

/-- What follows the word for what is no number. Letters in brackets belong to it. -/
def afterNotANumber (t : Text) : Text :=
  match t with
  | '(' :: rest =>
    match rest.dropWhile isAsciiWord with
    | ')' :: after => after
    | _ => t
  | _ => t

/-- The number without a sign at the start of a text. -/
def unsigned? (t : Text) : Option (Binary64 × Bool × Text) :=
  let decimal := (digits? 10 t).map fun d =>
    let (power, rest) := exponent 'e' d.rest
    let (value, isOutOfRange) := scaled 10 d (power - d.behind)
    (value, isOutOfRange, rest)
  let hexadecimal := (dropWord? "0x" t).bind fun body => (digits? 16 body).map fun d =>
    let (power, rest) := exponent 'p' d.rest
    let (value, isOutOfRange) := scaled 2 d (power - 4 * (d.behind : Int))
    (value, isOutOfRange, rest)
  let infinite := ((dropWord? "infinity" t).or (dropWord? "inf" t)).map fun rest =>
    (Binary64.infinite false, false, rest)
  let notANumber := (dropWord? "nan" t).map fun rest =>
    (Binary64.nan, false, afterNotANumber rest)
  hexadecimal.or (decimal.or (infinite.or notANumber))

/-- The number at the start of a text, after blanks. A text that starts with none is left whole
and counts as zero. -/
def read (t : Text) : Numeral :=
  let body := t.dropWhile Arithmetic.isSpace
  let (isNegative, body) : Bool × Text :=
    match body with
    | '-' :: rest => (true, rest)
    | '+' :: rest => (false, rest)
    | _ => (false, body)
  match unsigned? body with
  | some (value, isOutOfRange, rest) => ⟨isNegative, value, isOutOfRange, rest⟩
  | none => ⟨false, .finite false 0 Binary64.leastExponent, false, t⟩

def ofCode (c : Char) : Numeral := ⟨false, (nearest c.toNat 1).1, false, []⟩

def zero : Numeral := ⟨false, .finite false 0 Binary64.leastExponent, false, []⟩

end Numeral

end NativeGlue.Shell
