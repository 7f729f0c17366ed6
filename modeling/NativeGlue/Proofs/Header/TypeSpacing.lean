import Mathlib.Logic.Relation
import NativeGlue.Proofs.Header.Prototype
import NativeGlue.Proofs.Text.Squeeze

/-!
The spacing of native types. Blanks at the ends of a type and next to its stars may come and go,
and any other run of blanks may be replaced by another. The spellings that such changes lead to
from a type are those with the same normal spelling, and the normal spelling is one of them.
-/

namespace NativeGlue.Header

open Text
open Outline (Blanks)
open HeaderOutline (Gap oneSpace)
open Relation (EqvGen)

/-- What may stand for what inside a type. -/
inductive Exchange : Text → Text → Prop
  | beforeStar (gap : Blanks) : Exchange ['*'] (gap.text ++ ['*'])
  | afterStar (gap : Blanks) : Exchange ['*'] ('*' :: gap.text)
  | gap (gap other : Gap) : Exchange gap.text other.text

/-- One change of a type's spacing. -/
inductive Respaces : Text → Text → Prop
  | inside (front : Text) {old new : Text} (h : Exchange old new) (rest : Text) :
    Respaces (front ++ (old ++ rest)) (front ++ (new ++ rest))
  | ends (before after : Blanks) (t : Text) : Respaces t (before.text ++ (t ++ after.text))

/-- Spellings of a type that differ in their spacing only. -/
def SameType : Text → Text → Prop := EqvGen Respaces

theorem eq_of_eqvGen {α β : Type} {r : α → α → Prop} {x y : α} (f : α → β)
    (hf : ∀ x y, r x y → f x = f y) (h : EqvGen r x y) : f x = f y :=
  congrArg (Quot.lift f hf) (Quot.eqvGen_sound h)

theorem tight_exchange {old new : Text} (h : Exchange old new) (front rest : Text) :
    tight (front ++ (old ++ rest)) = tight (front ++ (new ++ rest)) := by
  cases h with
  | beforeStar gap =>
    have hnew : front ++ (gap.text ++ ['*'] ++ rest) = (front ++ gap.text) ++ '*' :: rest := by simp
    rw [hnew, tight_star, tight_append_blanks front gap.text gap.blank]
    exact tight_star front rest
  | afterStar gap =>
    have hnew : front ++ ('*' :: gap.text ++ rest) = front ++ '*' :: (gap.text ++ rest) := rfl
    rw [hnew, tight_star front (gap.text ++ rest), tight_blanks_append gap.text rest gap.blank]
    exact tight_star front rest
  | gap gap other =>
    rw [tight, tight, words_gap front gap.text rest gap.nonempty gap.blank,
      words_gap front other.text rest other.nonempty other.blank]

theorem Respaces.normalizeType_eq {t u : Text} (h : Respaces t u) :
    normalizeType t = normalizeType u := by
  rw [Header.normalizeType_eq, Header.normalizeType_eq]
  cases h with
  | inside front h rest => rw [tight_exchange h]
  | ends before after t =>
    rw [tight_blanks_append before.text _ before.blank, tight_append_blanks t _ after.blank]

theorem SameType.normalizeType_eq {t u : Text} (h : SameType t u) :
    normalizeType t = normalizeType u :=
  eq_of_eqvGen normalizeType (fun _ _ hstep => hstep.normalizeType_eq) h

section Normal

theorem SameType.symm {t u : Text} (h : SameType t u) : SameType u t := EqvGen.symm t u h

theorem SameType.trans {t u v : Text} (htu : SameType t u) (huv : SameType u v) : SameType t v :=
  EqvGen.trans t u v htu huv

theorem sameType_exchange {old new : Text} (h : Exchange old new) (front rest : Text) :
    SameType (front ++ (old ++ rest)) (front ++ (new ++ rest)) :=
  .rel _ _ (.inside front h rest)

/-- A space behind a star may go. -/
theorem sameType_afterStar {front : Text} (h : front.getLast? = some '*') (rest : Text) :
    SameType (front ++ ' ' :: rest) (front ++ rest) := by
  obtain ⟨start, rfl⟩ := List.getLast?_eq_some_iff.mp h
  have hspace := sameType_exchange (.afterStar oneSpace.toBlanks) start rest
  rw [List.append_assoc, List.append_assoc]
  exact hspace.symm

/-- A space before a star may go. -/
theorem sameType_beforeStar (front rest : Text) :
    SameType (front ++ ' ' :: '*' :: rest) (front ++ '*' :: rest) :=
  (sameType_exchange (.beforeStar oneSpace.toBlanks) front rest).symm

theorem sameType_collapse (front t : Text) : SameType (front ++ t) (front ++ collapse t) := by
  induction t using collapse_induction generalizing front with
  | nil => exact .refl _
  | char c t hc ih =>
    have hlater := ih (front ++ [c])
    rw [List.append_assoc, List.append_assoc] at hlater
    rwa [collapse_char c t hc]
  | gap c t hc ht ih =>
    have hspace := sameType_exchange (.gap ⟨⟨[c], List.forall_mem_singleton.mpr hc⟩,
      List.cons_ne_nil _ _⟩ oneSpace) front t
    have hlater := ih (front ++ [' '])
    rw [List.append_assoc, List.append_assoc] at hlater
    rw [collapse_gap c t hc ht]
    exact hspace.trans hlater
  | more c d t hc hd ih =>
    have hsingle : ∀ e ∈ [d], isBlank e = true := List.forall_mem_singleton.mpr hd
    have hshort := sameType_exchange (.gap ⟨⟨[c, d], List.forall_mem_cons.mpr ⟨hc, hsingle⟩⟩,
      List.cons_ne_nil _ _⟩ ⟨⟨[d], hsingle⟩, List.cons_ne_nil _ _⟩) front t
    rw [collapse_more c d t hc hd]
    exact hshort.trans (ih front)

theorem sameType_trim (t : Text) : SameType t (trim t) := by
  obtain ⟨before, after, ht, hbefore, hafter⟩ := exists_eq_append_trim t
  have hends : SameType (trim t) (before ++ (trim t ++ after)) :=
    .rel _ _ (.ends ⟨before, hbefore⟩ ⟨after, hafter⟩ (trim t))
  rw [← ht] at hends
  exact hends.symm

/-- The space that is dropped stands next to a star, behind `front` or before what follows. -/
theorem sameType_tightenFrom (afterStar : Bool) (front t : Text)
    (h : afterStar = true → front.getLast? = some '*') :
    SameType (front ++ t) (front ++ tightenFrom afterStar t) := by
  fun_induction tightenFrom afterStar t generalizing front with
  | case1 => exact .refl _
  | case2 afterStar c hdrop =>
    obtain ⟨rfl, hstar⟩ : c = ' ' ∧ afterStar = true := by simpa using hdrop
    exact sameType_afterStar (h hstar) []
  | case3 => exact .refl _
  | case4 afterStar c d rest hdrop ih =>
    obtain ⟨rfl, hstar⟩ : c = ' ' ∧ (afterStar = true ∨ d = '*') := by simpa using hdrop
    refine SameType.trans ?_ (ih front nofun)
    rcases hstar with hstar | rfl
    · exact sameType_afterStar (h hstar) (d :: rest)
    · exact sameType_beforeStar front rest
  | case5 afterStar c d rest _ ih =>
    have hlater := ih (front ++ [c]) fun hc => by
      rw [List.getLast?_concat, of_decide_eq_true hc]
    rwa [List.append_assoc, List.append_assoc] at hlater

theorem sameType_spaceAfterStars (front t : Text) :
    SameType (front ++ t) (front ++ spaceAfterStars t) := by
  fun_induction spaceAfterStars t generalizing front with
  | case1 c rest _ ih =>
    have hspace := sameType_exchange (.afterStar oneSpace.toBlanks) front (c :: rest)
    have hlater := ih (front ++ ['*', ' '])
    rw [List.append_assoc, List.append_assoc] at hlater
    exact hspace.trans hlater
  | case2 c rest _ ih =>
    have hlater := ih (front ++ ['*'])
    rwa [List.append_assoc, List.append_assoc] at hlater
  | case3 c rest _ ih =>
    have hlater := ih (front ++ [c])
    rwa [List.append_assoc, List.append_assoc] at hlater
  | case4 => exact .refl _

/-- The normal spelling is a spelling of the same type. -/
theorem sameType_normalizeType (t : Text) : SameType t (normalizeType t) := by
  have hsqueeze : SameType t (squeeze t) := by
    rw [squeeze_eq_trim_collapse]
    exact (sameType_collapse [] t).trans (sameType_trim _)
  have htight : SameType (squeeze t) (tightenFrom false (squeeze t)) :=
    sameType_tightenFrom false [] _ nofun
  exact (hsqueeze.trans htight).trans (sameType_spaceAfterStars [] _)

/-- One normal spelling for all spellings of a type, and for no others. -/
theorem normalizeType_eq_iff {t u : Text} : normalizeType t = normalizeType u ↔ SameType t u := by
  refine ⟨fun h => ?_, SameType.normalizeType_eq⟩
  have hu := (sameType_normalizeType u).symm
  rw [← h] at hu
  exact (sameType_normalizeType t).trans hu

theorem normalizeType_normalizeType (t : Text) :
    normalizeType (normalizeType t) = normalizeType t :=
  (sameType_normalizeType t).normalizeType_eq.symm

end Normal

end NativeGlue.Header
