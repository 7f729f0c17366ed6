import NativeGlue.Binary64

/-!
Numbers written with a given count of digits: with places behind the point, with one digit
before it and a power of ten, with the shorter of the two, or with sixteen digits to a place.
The last digit is rounded from the exact value, and a tie goes to the even digit.
-/

namespace NativeGlue.Binary64

open Text

/-- Digits before the point, digits behind it, and an exponent. -/
structure Places where
  whole : Text
  behind : Text
  exponent : Text

namespace Places

def trimmed (p : Places) : Places := { p with behind := dropZeros p.behind }

/-- The point is left out where nothing follows it, unless it is asked for. -/
def text (keepsPoint : Bool) (p : Places) : Text :=
  p.whole ++ (if p.behind.isEmpty && !keepsPoint then [] else '.' :: p.behind) ++ p.exponent

/-- Digits with the point before the last `count` of them. -/
def split (count : Nat) (digits exponent : Text) : Places :=
  let filled := List.replicate (count + 1 - digits.length) '0' ++ digits
  ⟨filled.take (filled.length - count), filled.drop (filled.length - count), exponent⟩

/-- A fraction with `count` digits behind the point. -/
def fixed (count num den : Nat) : Places :=
  split count (ofNat (roundQuotient (num * tenTo count) den)) []

/-- The first `count + 1` digits of a fraction, and the power of ten of the first. -/
def leading (count num den : Nat) : Nat × Int :=
  if num = 0 then (0, 0)
  else
    let power := leadingPower num den
    let digits :=
      match (count : Int) - power with
      | .ofNat e => roundQuotient (num * tenTo e) den
      | .negSucc e => roundQuotient num (den * tenTo (e + 1))
    if digits = tenTo (count + 1) then (tenTo count, power + 1) else (digits, power)

/-- A fraction with one digit before the point and `count` behind it. -/
def scientific (count num den : Nat) : Places :=
  let (digits, power) := leading count num den
  split count (ofNat digits) (exponentText power)

/-- A fraction with `count` digits that count. An exponent is used below the power -4 of ten, and
where the digits do not reach the point. If they do so only before they are rounded, one is
left. -/
def general (count num den : Nat) : Places :=
  let last := max count 1 - 1
  let (_, power) := leading last num den
  if -4 ≤ power && power ≤ last then fixed ((last : Int) - power).toNat num den
  else scientific (if power = last + 1 && leadingPower num den = last then 0 else last) num den

/-- How many places to the base sixteen hold the binary digits behind the first. -/
def mostHexadecimal : Nat := 13

/-- A number to the base sixteen with a power of two. All places are written that are not zero
unless their count is given. -/
def hexadecimal (count : Option Nat) (significand : Nat) (exponent : Int) : Places :=
  let kept := min (count.getD mostHexadecimal) mostHexadecimal
  let digits := roundQuotient significand (twoTo (4 * (mostHexadecimal - kept)))
  let power : Int := if significand = 0 then 0 else exponent + 52
  let written :=
    split kept (Nat.toDigits 16 digits)
      ('p' :: (if power < 0 then '-' else '+') :: ofNat power.natAbs)
  match count with
  | none => written.trimmed
  | some n => { written with behind := written.behind ++ List.replicate (n - kept) '0' }

end Places

/-- The value of a finite number without its sign, as a fraction. -/
def fractionOf (significand : Nat) (exponent : Int) : Nat × Nat :=
  match exponent with
  | .ofNat e => (significand * twoTo e, 1)
  | .negSucc e => (significand, twoTo (e + 1))

end NativeGlue.Binary64
