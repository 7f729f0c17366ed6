import NativeGlue.Binary64.Places
import NativeGlue.Shell.Numeral

/-!
Directives of a format: how flags, a width and a precision lay a text or a number out.
-/

namespace NativeGlue.Shell

open Text

/-- The flags, the width and the precision of a directive. -/
structure Directive where
  flags : Text
  width : Nat
  precision : Option Nat

namespace Directive

def has (d : Directive) (flag : Char) : Bool := d.flags.contains flag

/-- Fill a text up to the width with blanks. -/
def pad (d : Directive) (t : Text) : Text :=
  let blanks := List.replicate (d.width - t.length) ' '
  if d.has '-' then t ++ blanks else blanks ++ t

def text (d : Directive) (t : Text) : Text := d.pad (d.precision.elim t fun n => t.take n)

def sign (d : Directive) (isNegative : Bool) : Text :=
  if isNegative then ['-'] else if d.has '+' then ['+'] else if d.has ' ' then [' '] else []

/-- Fill up to the width: with zeros behind the lead if the flags say so, or else with blanks. -/
def padZeros (d : Directive) (lead body : Text) : Text :=
  let zeros := if d.has '0' && !d.has '-' then d.width - lead.length - body.length else 0
  d.pad (lead ++ List.replicate zeros '0' ++ body)

/-- Fill digits up with zeros to the precision, or else to the width. -/
def padNumber (d : Directive) (lead digits : Text) : Text :=
  match d.precision with
  | some n => d.pad (lead ++ List.replicate (n - digits.length) '0' ++ digits)
  | none => d.padZeros lead digits

def signed (d : Directive) (n : Int) : Text :=
  let digits := if n = 0 && d.precision = some 0 then [] else ofNat n.natAbs
  d.padNumber (d.sign (n < 0)) digits

def unsigned (d : Directive) (letter : Char) (n : Int) : Text :=
  let n := (n.emod 18446744073709551616).toNat
  let base := if letter = 'o' then 8 else if letter = 'u' then 10 else 16
  let digits := if n = 0 && d.precision = some 0 then [] else Nat.toDigits base n
  let digits := if letter = 'X' then digits.map Char.toUpper else digits
  if !d.has '#' || letter = 'u' then d.padNumber [] digits
  else if letter = 'o' then
    d.padNumber [] (if digits.head? = some '0' then digits else '0' :: digits)
  else d.padNumber (if n = 0 then [] else ['0', letter]) digits

/-- The digits of a finite number in the form that a small letter asks for. -/
def places (d : Directive) (letter : Char) (significand : Nat) (exponent : Int) :
    Binary64.Places :=
  let (num, den) := Binary64.fractionOf significand exponent
  let count := d.precision.getD 6
  match letter with
  | 'a' => .hexadecimal d.precision significand exponent
  | 'e' => .scientific count num den
  | 'f' => .fixed count num den
  | _ =>
    let written := Binary64.Places.general count num den
    if d.has '#' then written else written.trimmed

/-- A number in the form that a letter asks for, with capital letters if it is one. -/
def numeral (d : Directive) (letter : Char) (n : Numeral) : Text :=
  let sign := d.sign n.isNegative
  let small := letter.toLower
  let written : Text :=
    match n.value with
    | .finite _ significand exponent =>
      d.padZeros (if small = 'a' then sign ++ "0x".toList else sign)
        ((d.places small significand exponent).text (d.has '#'))
    | .infinite _ => d.pad (sign ++ "inf".toList)
    | .nan => d.pad (sign ++ "nan".toList)
  if letter.isUpper then written.map Char.toUpper else written

end Directive

end NativeGlue.Shell
