import Mathlib.Data.List.Sort
import NativeGlue.Files.Path

/-!
The orders in which names and paths are sorted. Both go by the first difference, so both are total
orders, and lists in such an order without repetitions are known by their members.
-/

namespace NativeGlue

open Text

variable {α : Type}

structure IsTotalOrder (le : α → α → Bool) : Prop where
  total : ∀ a b, (le a b || le b a) = true
  trans : ∀ a b c, le a b = true → le b c = true → le a c = true
  antisymm : ∀ a b, le a b = true → le b a = true → a = b

/-- Lists are ordered by their first difference, and a list stands before those that go on. -/
structure ByFirstDifference [DecidableEq α] (le : α → α → Bool) (lists : List α → List α → Bool) :
    Prop where
  nil : ∀ bs, lists [] bs = true
  stop : ∀ a as, lists (a :: as) [] = false
  cons : ∀ a as b bs, lists (a :: as) (b :: bs) = if a = b then lists as bs else le a b

namespace ByFirstDifference

variable [DecidableEq α] {le : α → α → Bool} {lists : List α → List α → Bool}

theorem cons_self (h : ByFirstDifference le lists) (a : α) (as bs : List α) :
    lists (a :: as) (a :: bs) = lists as bs := by
  rw [h.cons, if_pos rfl]

theorem cons_of_ne (h : ByFirstDifference le lists) {a b : α} (hab : a ≠ b) (as bs : List α) :
    lists (a :: as) (b :: bs) = le a b := by
  rw [h.cons, if_neg hab]

theorem total (h : ByFirstDifference le lists) (hle : IsTotalOrder le) (as bs : List α) :
    (lists as bs || lists bs as) = true := by
  induction as generalizing bs with
  | nil => rw [h.nil, Bool.true_or]
  | cons a as ih =>
    cases bs with
    | nil => rw [h.nil, Bool.or_true]
    | cons b bs =>
      by_cases hab : a = b
      · subst hab
        rw [h.cons_self, h.cons_self]
        exact ih bs
      · rw [h.cons_of_ne hab, h.cons_of_ne (Ne.symm hab)]
        exact hle.total a b

theorem antisymm (h : ByFirstDifference le lists) (hle : IsTotalOrder le) {as bs : List α}
    (hab : lists as bs = true) (hba : lists bs as = true) : as = bs := by
  induction as generalizing bs with
  | nil =>
    cases bs with
    | nil => rfl
    | cons b bs => exact absurd hba (by simp [h.stop])
  | cons a as ih =>
    cases bs with
    | nil => exact absurd hab (by simp [h.stop])
    | cons b bs =>
      by_cases heq : a = b
      · subst heq
        rw [h.cons_self] at hab hba
        rw [ih hab hba]
      · rw [h.cons_of_ne heq] at hab
        rw [h.cons_of_ne (Ne.symm heq)] at hba
        exact absurd (hle.antisymm a b hab hba) heq

theorem trans (h : ByFirstDifference le lists) (hle : IsTotalOrder le) {as bs cs : List α}
    (hab : lists as bs = true) (hbc : lists bs cs = true) : lists as cs = true := by
  induction as generalizing bs cs with
  | nil => exact h.nil cs
  | cons a as ih =>
    cases bs with
    | nil => exact absurd hab (by simp [h.stop])
    | cons b bs =>
      cases cs with
      | nil => exact absurd hbc (by simp [h.stop])
      | cons c cs =>
        -- whether the first difference of the outer lists comes from one step or from both
        by_cases heq : a = b <;> by_cases heq' : b = c
        · subst heq heq'
          rw [h.cons_self] at hab hbc ⊢
          exact ih hab hbc
        · subst heq
          rw [h.cons_of_ne heq'] at hbc ⊢
          exact hbc
        · subst heq'
          rw [h.cons_of_ne heq] at hab ⊢
          exact hab
        · rw [h.cons_of_ne heq] at hab
          rw [h.cons_of_ne heq'] at hbc
          have hne : a ≠ c := by
            rintro rfl
            exact heq (hle.antisymm a b hab hbc)
          rw [h.cons_of_ne hne]
          exact hle.trans a b c hab hbc

/-- An order of lists by their first difference is total if that of their elements is. -/
theorem isTotalOrder (h : ByFirstDifference le lists) (hle : IsTotalOrder le) :
    IsTotalOrder lists :=
  ⟨fun as bs => h.total hle as bs, fun _ _ _ hab hbc => h.trans hle hab hbc,
    fun _ _ hab hba => h.antisymm hle hab hba⟩

end ByFirstDifference

theorem isTotalOrder_text : IsTotalOrder Text.le := by
  have hpoints : IsTotalOrder fun a b : Char => decide (a.toNat ≤ b.toNat) := by
    refine ⟨fun a b => ?_, fun a b c => ?_, fun a b => ?_⟩
    · simpa using Nat.le_total a.toNat b.toNat
    · simp only [decide_eq_true_eq]
      exact Nat.le_trans
    · simp only [decide_eq_true_eq]
      exact fun hab hba => Char.toNat_inj.mp (Nat.le_antisymm hab hba)
  refine ByFirstDifference.isTotalOrder
    ⟨fun _ => by rw [Text.le], fun _ _ => rfl, fun a as b bs => ?_⟩ hpoints
  rw [Text.le]
  split_ifs with hab
  · rfl
  · have hne : a.toNat ≠ b.toNat := fun heq => hab (Char.toNat_inj.mp heq)
    rw [decide_eq_decide]
    omega

theorem isTotalOrder_parts : IsTotalOrder Path.partsLe :=
  ByFirstDifference.isTotalOrder ⟨fun _ => by rw [Path.partsLe], fun _ _ => rfl,
    fun _ _ _ _ => by rw [Path.partsLe]⟩ isTotalOrder_text

namespace IsTotalOrder

variable {le : α → α → Bool}

theorem pairwise_mergeSort (h : IsTotalOrder le) (xs : List α) :
    (xs.mergeSort le).Pairwise fun a b => le a b = true :=
  List.pairwise_mergeSort h.trans h.total xs

/-- Lists in order with the same members, each once, are the same. -/
theorem eq_of_mem_iff (h : IsTotalOrder le) {xs ys : List α}
    (hxs : xs.Pairwise fun a b => le a b = true) (hys : ys.Pairwise fun a b => le a b = true)
    (hxs' : xs.Nodup) (hys' : ys.Nodup) (hmem : ∀ a, a ∈ xs ↔ a ∈ ys) : xs = ys :=
  List.Perm.eq_of_pairwise (fun a b _ _ => h.antisymm a b) hxs hys
    ((List.perm_ext_iff_of_nodup hxs' hys').mpr hmem)

end IsTotalOrder

end NativeGlue
