import Mathlib.Algebra.Order.Field.Power
import Mathlib.Data.Rat.Cast.Order
import NativeGlue.Json.Value

/-!
Numbers as rationals. An integer and a floating-point number that is whole are the same number, and
a value counts as a whole number just if the number that it is is one.
-/

namespace NativeGlue

open Json

namespace Binary64

def signed (negative : Bool) (n : Nat) : Int := if negative then -(n : Int) else n

theorem natAbs_signed (negative : Bool) (n : Nat) : (signed negative n).natAbs = n := by
  cases negative
  · exact Int.natAbs_natCast n
  · exact (Int.natAbs_neg n).trans (Int.natAbs_natCast n)

theorem signed_mul (negative : Bool) (m n : Nat) :
    signed negative (m * n) = signed negative m * n := by
  cases negative
  · exact Int.natCast_mul m n
  · exact (congrArg Neg.neg (Int.natCast_mul m n)).trans (Int.neg_mul _ _).symm

/-- The number, where it is finite. -/
def value? : Binary64 → Option ℚ
  | finite negative significand exponent =>
    some ((signed negative significand : ℚ) * 2 ^ exponent)
  | _ => none

theorem toInt?_eq_some_iff (x : Binary64) (n : Int) :
    x.toInt? = some n ↔ x.value? = some (n : ℚ) := by
  cases x with
  | nan => simp [toInt?, value?]
  | infinite negative => simp [toInt?, value?]
  | finite negative significand exponent =>
    cases exponent with
    | ofNat e =>
      have hvalue : (signed negative significand : ℚ) * 2 ^ (Int.ofNat e) =
          ((signed negative (significand * twoTo e) : Int) : ℚ) := by
        rw [signed_mul, Int.ofNat_eq_natCast, zpow_natCast, Int.cast_mul, Int.cast_natCast]
        exact congrArg (_ * ·) (Nat.cast_pow 2 e).symm
      rw [value?, hvalue, Option.some.injEq, Int.cast_inj, toInt?, Option.some.injEq]
      rfl
    | negSucc e =>
      have hp : 0 < twoTo (e + 1) := Nat.two_pow_pos (e + 1)
      have hpow : (2 : ℚ) ^ (e + 1) = (twoTo (e + 1) : ℚ) := (Nat.cast_pow 2 (e + 1)).symm
      have hvalue : (signed negative significand : ℚ) * 2 ^ (Int.negSucc e) = (n : ℚ) ↔
          signed negative significand = n * twoTo (e + 1) := by
        rw [zpow_negSucc, hpow, ← div_eq_mul_inv, div_eq_iff (Nat.cast_ne_zero.mpr hp.ne')]
        norm_cast
      rw [value?, Option.some.injEq, hvalue, toInt?]
      generalize twoTo (e + 1) = p at hp
      by_cases hdvd : significand % p = 0
      · obtain ⟨q, rfl⟩ := Nat.dvd_of_mod_eq_zero hdvd
        have hcancel : signed negative (p * q) = signed negative q * p := by
          rw [Nat.mul_comm, signed_mul]
        rw [hcancel, if_pos hdvd, Nat.mul_div_cancel_left q hp, Option.some.injEq,
          mul_left_inj' (Int.natCast_ne_zero.mpr hp.ne')]
        rfl
      · rw [if_neg hdvd]
        constructor
        · intro hnone
          cases hnone
        intro heq
        have hsize : significand = n.natAbs * p := by
          rw [← natAbs_signed negative significand, heq, Int.natAbs_mul, Int.natAbs_natCast]
        exact absurd (by rw [hsize, Nat.mul_mod_left]) hdvd

end Binary64

namespace Json.Value

/-- The number that a value is. -/
def number? : Value → Option ℚ
  | int n => some n
  | real x => x.value?
  | _ => none

theorem toInt?_eq_some_iff (v : Value) (n : Int) :
    v.toInt? = some n ↔ v.number? = some (n : ℚ) := by
  cases v with
  | int m => simp [toInt?, number?]
  | real x => exact x.toInt?_eq_some_iff n
  | _ => simp [toInt?, number?]

end Json.Value

end NativeGlue
