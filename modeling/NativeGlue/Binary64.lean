import NativeGlue.Text.Basic

/-!
Binary floating-point numbers of 64 bits, held exactly as a sign, a significand and a power of
two. Decimals are rounded to the nearest such number, a tie going to the even significand, and
a number is written with the fewest digits that read back as itself.
-/

namespace NativeGlue

open Text

inductive Binary64 where
  | finite (negative : Bool) (significand : Nat) (exponent : Int)
  | infinite (negative : Bool)
  | nan
  deriving DecidableEq, Repr

namespace Binary64

def leastExponent : Int := -1074

def greatestExponent : Int := 971

def twoTo (n : Nat) : Nat := Nat.pow 2 n

def tenTo (n : Nat) : Nat := Nat.pow 10 n

/-- The quotient rounded to the nearest number, a tie going to the even one. -/
def roundQuotient (num den : Nat) : Nat :=
  let quotient := num / den
  let twice := 2 * (num % den)
  if twice < den then quotient
  else if den < twice then quotient + 1
  else if quotient % 2 = 0 then quotient else quotient + 1

/-- The fraction `num / den / 2 ^ exponent` as a numerator and a denominator. -/
def scaleDown (num den : Nat) (exponent : Int) : Nat × Nat :=
  match exponent with
  | .ofNat e => (num, den * twoTo e)
  | .negSucc e => (num * twoTo (e + 1), den)

/-- The power of two in units of which a positive fraction has 53 binary digits. -/
def exponentOf (num den : Nat) : Int :=
  let guess : Int := (Nat.log2 num : Int) - Nat.log2 den - 53
  let scaled := scaleDown num den guess
  if scaled.1 < twoTo 53 * scaled.2 then guess else guess + 1

/-- The number nearest to a positive fraction. -/
def ofFraction (negative : Bool) (num den : Nat) : Binary64 :=
  let exponent := max (exponentOf num den) leastExponent
  let scaled := scaleDown num den exponent
  let significand := roundQuotient scaled.1 scaled.2
  let carries := significand == twoTo 53
  let exponent := if carries then exponent + 1 else exponent
  if greatestExponent < exponent then .infinite negative
  else .finite negative (if carries then twoTo 52 else significand) exponent

/-- The number nearest to `digits * 10 ^ power`. -/
def ofDecimal (negative : Bool) (digits : Nat) (power : Int) : Binary64 :=
  let magnitude : Int := (ofNat digits).length + power
  if digits = 0 || magnitude < -400 then .finite negative 0 leastExponent
  else if 400 < magnitude then .infinite negative
  else
    match power with
    | .ofNat p => ofFraction negative (digits * tenTo p) 1
    | .negSucc p => ofFraction negative digits (tenTo (p + 1))

/-- The value of a number as an integer, where it is one. -/
def toInt? : Binary64 → Option Int
  | .finite negative significand exponent =>
    let signed (n : Nat) : Int := if negative then -(n : Int) else n
    match exponent with
    | .ofNat e => some (signed (significand * twoTo e))
    | .negSucc e =>
      if significand % twoTo (e + 1) = 0 then some (signed (significand / twoTo (e + 1))) else none
  | _ => none

/-- The numbers that round to a given one lie between two fractions with a common denominator,
ends included if the significand is even. -/
structure Interval where
  low : Nat
  middle : Nat
  high : Nat
  den : Nat
  closed : Bool

def interval (significand : Nat) (exponent : Int) : Interval :=
  let below := if significand = twoTo 52 && leastExponent < exponent then 1 else 2
  let scale (n : Nat) : Nat := if exponent < 2 then n else n * twoTo (exponent - 2).toNat
  let den := if exponent < 2 then twoTo (2 - exponent).toNat else 1
  ⟨scale (4 * significand - below), scale (4 * significand), scale (4 * significand + 2), den,
    significand % 2 == 0⟩

/-- Whether `n / d` lies in the interval. -/
def Interval.contains (i : Interval) (n d : Nat) : Bool :=
  let low := i.low * d
  let high := i.high * d
  let value := n * i.den
  if i.closed then low ≤ value && value ≤ high else low < value && value < high

/-- The power of ten of the first digit of a positive fraction. -/
def leadingPower (num den : Nat) : Int :=
  if den ≤ num then (ofNat (num / den)).length - 1
  else
    match (List.range 400).find? fun k => den ≤ num * tenTo (k + 1) with
    | some k => -((k : Int) + 1)
    | none => 0

/-- A decimal `digits * 10 ^ power`. -/
structure Decimal where
  digits : Nat
  power : Int
  deriving DecidableEq, Repr

/-- The fraction that is one unit of a decimal grid. -/
def gridUnit (power : Int) : Nat × Nat :=
  match power with
  | .ofNat p => (tenTo p, 1)
  | .negSucc p => (1, tenTo (p + 1))

/-- The point nearest to the middle on a grid, of the two around it that lie in the interval. -/
def Interval.onGrid? (i : Interval) (power : Int) : Option Decimal :=
  let (unitNum, unitDen) := gridUnit power
  let below := i.middle * unitDen / (i.den * unitNum)
  let left := i.contains (below * unitNum) unitDen
  let right := i.contains ((below + 1) * unitNum) unitDen
  let twice := 2 * (i.middle * unitDen % (i.den * unitNum))
  let nearer := if twice < i.den * unitNum || (twice = i.den * unitNum && below % 2 = 0)
    then below else below + 1
  if left && right then some ⟨nearer, power⟩
  else if left then some ⟨below, power⟩
  else if right then some ⟨below + 1, power⟩
  else none

/-- The decimal with the fewest digits that reads back as a positive number. -/
def shortest (significand : Nat) (exponent : Int) : Decimal :=
  let i := interval significand exponent
  let first := leadingPower i.middle i.den
  let grids := (List.range 17).filterMap fun k => i.onGrid? (first - (k : Nat))
  grids.head?.getD ⟨0, 0⟩

def dropZeros (digits : Text) : Text := (digits.reverse.dropWhile (· == '0')).reverse

/-- Exponents have a sign and at least two digits. -/
def exponentText (e : Int) : Text :=
  let digits := ofNat e.natAbs
  'e' :: (if e < 0 then '-' else '+') ::
    List.replicate (2 - digits.length) '0' ++ digits

/-- Digits with the point after `point` of them; the point is written out between the powers
-4 and 16 of ten, and an exponent is used beyond. -/
def placePoint (digits : Text) (point : Int) : Text :=
  if -4 < point && point ≤ 0 then
    "0.".toList ++ List.replicate (-point).toNat '0' ++ digits
  else if 0 < point && point ≤ 16 then
    let whole := point.toNat
    if digits.length ≤ whole then
      digits ++ List.replicate (whole - digits.length) '0' ++ ".0".toList
    else digits.take whole ++ '.' :: digits.drop whole
  else
    match digits with
    | [d] => d :: exponentText (point - 1)
    | d :: rest => d :: '.' :: rest ++ exponentText (point - 1)
    | [] => []

def magnitudeText (significand : Nat) (exponent : Int) : Text :=
  if significand = 0 then "0.0".toList
  else
    let d := shortest significand exponent
    let digits := ofNat d.digits
    placePoint (dropZeros digits) (digits.length + d.power)

def signText (negative : Bool) : Text := if negative then ['-'] else []

/-- A number with names for the values that are not finite. -/
def render (infinity notANumber : Text) : Binary64 → Text
  | .finite negative significand exponent =>
    signText negative ++ magnitudeText significand exponent
  | .infinite negative => signText negative ++ infinity
  | .nan => notANumber

end Binary64

end NativeGlue
