import Mathlib.Order.Bounds.Basic
import NativeGlue.Source.Annotation

/-!
Where a group in parentheses closes. The reader counts the parentheses open so far, and they change
by one at a time, so the count first returns to zero at the first place up to which as many
parentheses close as open.
-/

namespace NativeGlue.Source

open Text

/-- How many more parentheses open in a text than close. -/
def height (t : Text) : Int := t.count '(' - t.count ')'

theorem height_append (t u : Text) : height (t ++ u) = height t + height u := by
  simp only [height, List.count_append]
  omega

theorem height_cons (c : Char) (t : Text) : height (c :: t) = height [c] + height t :=
  height_append [c] t

theorem height_nil : height [] = 0 := rfl

theorem height_eq_zero {t : Text} (hopen : '(' ∉ t) (hclose : ')' ∉ t) : height t = 0 := by
  rw [height, List.count_eq_zero.mpr hopen, List.count_eq_zero.mpr hclose]
  rfl

/-- One character changes the count by one at most, and only a closing parenthesis lowers it. -/
theorem closingFrom?_cons {depth : Int} (hdepth : 1 ≤ depth) (c : Char) (t : Text) :
    closingFrom? depth (c :: t) =
      if depth + height [c] = 0 then some 0
      else (closingFrom? (depth + height [c]) t).map (· + 1) := by
  by_cases hopen : c = '('
  · subst hopen
    have hheight : height ['('] = 1 := rfl
    rw [hheight, if_neg (by omega)]
    rfl
  by_cases hclose : c = ')'
  · subst hclose
    rfl
  · have hheight : height [c] = 0 :=
      height_eq_zero (by simp [Ne.symm hopen]) (by simp [Ne.symm hclose])
    rw [hheight, Int.add_zero, if_neg (by omega), closingFrom?]
    · exact hopen
    · exact hclose

theorem one_le_of_ne_zero {depth : Int} (hdepth : 1 ≤ depth) (c : Char)
    (h : depth + height [c] ≠ 0) : 1 ≤ depth + height [c] := by
  have hcount : [c].count ')' ≤ 1 := List.count_le_length
  rw [height] at h ⊢
  omega

/-- Where the count returns to zero, and was positive before. -/
structure ClosesAt (depth : Int) (t : Text) (close : Nat) : Prop where
  within : close < t.length
  level : depth + height (t.take (close + 1)) = 0
  before : ∀ n ≤ close, 1 ≤ depth + height (t.take n)

theorem closesAt_of_closingFrom? {depth : Int} (hdepth : 1 ≤ depth) {t : Text} {close : Nat}
    (h : closingFrom? depth t = some close) : ClosesAt depth t close := by
  induction t generalizing depth close with
  | nil => cases h
  | cons c t ih =>
    rw [closingFrom?_cons hdepth] at h
    split at h
    · next hlevel =>
      cases h
      refine ⟨Nat.zero_lt_succ _, hlevel, fun n hn => ?_⟩
      rw [Nat.le_zero.mp hn]
      exact hdepth.trans_eq (Int.add_zero depth).symm
    · next hlevel =>
      obtain ⟨later, hlater, rfl⟩ := Option.map_eq_some_iff.mp h
      obtain ⟨hwithin, hzero, hbefore⟩ := ih (one_le_of_ne_zero hdepth c hlevel) hlater
      refine ⟨Nat.succ_lt_succ hwithin, ?_, fun n hn => ?_⟩
      · rw [List.take_succ_cons, height_cons, ← Int.add_assoc, hzero]
      · cases n with
        | zero => exact hdepth.trans_eq (Int.add_zero depth).symm
        | succ n =>
          rw [List.take_succ_cons, height_cons, ← Int.add_assoc]
          exact hbefore n (Nat.le_of_succ_le_succ hn)

theorem one_le_of_closingFrom? {depth : Int} (hdepth : 1 ≤ depth) {t : Text}
    (h : closingFrom? depth t = none) (n : Nat) : 1 ≤ depth + height (t.take n) := by
  induction t generalizing depth n with
  | nil => rwa [List.take_nil, height_nil, Int.add_zero]
  | cons c t ih =>
    rw [closingFrom?_cons hdepth] at h
    split at h
    · cases h
    · next hlevel =>
      cases n with
      | zero => exact hdepth.trans_eq (Int.add_zero depth).symm
      | succ n =>
        rw [List.take_succ_cons, height_cons, ← Int.add_assoc]
        exact ih (one_le_of_ne_zero hdepth c hlevel) (Option.map_eq_none_iff.mp h) n

/-- The places behind an index up to which as many parentheses open as close. -/
def closings (t : Text) (start : Nat) : Set Nat :=
  {c | start < c ∧ c < t.length ∧
    ((t.take (c + 1)).drop start).count '(' = ((t.take (c + 1)).drop start).count ')'}

theorem mem_closings_iff {t rest : Text} {start : Nat} (h : t.drop start = '(' :: rest) (c : Nat) :
    c ∈ closings t start ↔
      ∃ k, c = start + (k + 1) ∧ k < rest.length ∧ 1 + height (rest.take (k + 1)) = 0 := by
  have hlength : t.length = start + (rest.length + 1) := by
    have hrest := congrArg List.length h
    rw [List.length_drop, List.length_cons] at hrest
    omega
  have hslice (k : Nat) : (t.take (start + (k + 1) + 1)).drop start = '(' :: rest.take (k + 1) := by
    rw [List.drop_take, h, show start + (k + 1) + 1 - start = k + 1 + 1 by omega,
      List.take_succ_cons]
  have hlevel (k : Nat) : 1 + height (rest.take (k + 1)) = 0 ↔
      ('(' :: rest.take (k + 1)).count '(' = ('(' :: rest.take (k + 1)).count ')' := by
    rw [height, List.count_cons_self, List.count_cons_of_ne (by decide)]
    omega
  constructor
  · rintro ⟨hstart, hend, hcount⟩
    obtain ⟨k, rfl⟩ : ∃ k, c = start + (k + 1) := ⟨c - start - 1, by omega⟩
    rw [hslice] at hcount
    exact ⟨k, rfl, by omega, (hlevel k).mpr hcount⟩
  · rintro ⟨k, rfl, hk, hzero⟩
    refine ⟨by omega, by omega, ?_⟩
    rw [hslice]
    exact (hlevel k).mp hzero

/-- The reader finds the first of these places, if there is one. -/
theorem closing?_spec {t rest : Text} {start : Nat} (h : t.drop start = '(' :: rest) :
    match closing? (t.drop start) with
    | some close => IsLeast (closings t start) (start + close)
    | none => closings t start = ∅ := by
  have hread : closing? (t.drop start) = (closingFrom? 1 rest).map (· + 1) := by rw [h]; rfl
  rw [hread]
  cases hfound : closingFrom? 1 rest with
  | some k =>
    obtain ⟨hwithin, hlevel, hbefore⟩ := closesAt_of_closingFrom? (Int.le_refl 1) hfound
    refine ⟨(mem_closings_iff h _).mpr ⟨k, rfl, hwithin, hlevel⟩, fun c hc => ?_⟩
    obtain ⟨n, rfl, -, hn⟩ := (mem_closings_iff h c).mp hc
    by_contra hless
    change ¬ start + (k + 1) ≤ start + (n + 1) at hless
    have hpositive := hbefore (n + 1) (by omega)
    omega
  | none =>
    refine Set.eq_empty_of_forall_notMem fun c hc => ?_
    obtain ⟨n, -, -, hn⟩ := (mem_closings_iff h c).mp hc
    have hpositive := one_le_of_closingFrom? (Int.le_refl 1) hfound (n + 1)
    omega

theorem closing?_eq_some_iff {t rest : Text} {start : Nat} (h : t.drop start = '(' :: rest)
    (c : Nat) :
    (closing? (t.drop start)).map (start + ·) = some c ↔ IsLeast (closings t start) c := by
  have hspec := closing?_spec h
  cases hfound : closing? (t.drop start) with
  | some close =>
    rw [hfound] at hspec
    rw [Option.map_some, Option.some.injEq]
    exact ⟨fun heq => heq ▸ hspec, fun hleast => hspec.unique hleast⟩
  | none =>
    rw [hfound] at hspec
    refine iff_of_false nofun fun hleast => ?_
    exact Set.notMem_empty c (hspec ▸ hleast.1)

theorem closing?_eq_none_iff {t rest : Text} {start : Nat} (h : t.drop start = '(' :: rest) :
    closing? (t.drop start) = none ↔ closings t start = ∅ := by
  have hspec := closing?_spec h
  cases hfound : closing? (t.drop start) with
  | some close =>
    rw [hfound] at hspec
    refine iff_of_false nofun fun hempty => ?_
    exact Set.notMem_empty _ (hempty ▸ hspec.1)
  | none =>
    rw [hfound] at hspec
    exact iff_of_true rfl hspec

theorem mem_closings_append {t : Text} {start c : Nat} (hc : c < t.length) (rest : Text) :
    c ∈ closings (t ++ rest) start ↔ c ∈ closings t start := by
  have htake : (t ++ rest).take (c + 1) = t.take (c + 1) := List.take_append_of_le_length hc
  have hwithin : c < (t ++ rest).length := by
    rw [List.length_append]
    omega
  simp only [closings, Set.mem_ofPred_eq, htake, hwithin, hc]

/-- What follows a group does not change where it closes. -/
theorem closing?_append {t inside : Text} {close : Nat} (ht : t = '(' :: inside)
    (h : IsLeast (closings t 0) close) (rest : Text) : closing? (t ++ rest) = some close := by
  have hstart : (t ++ rest).drop 0 = '(' :: (inside ++ rest) := by rw [ht]; rfl
  have hclose : close < t.length := h.1.2.1
  have hleast : IsLeast (closings (t ++ rest) 0) close := by
    refine ⟨(mem_closings_append hclose rest).mpr h.1, fun c hc => ?_⟩
    by_contra hless
    have hwithin : c < t.length := by omega
    exact hless (h.2 ((mem_closings_append hwithin rest).mp hc))
  have hread := (closing?_eq_some_iff hstart close).mpr hleast
  simpa using hread

/-- A group that never closes is open all along. -/
theorem closings_eq_empty_iff {t rest : Text} (h : t = '(' :: rest) :
    closings t 0 = ∅ ↔ ∀ n, 0 < n → 1 ≤ height (t.take n) := by
  have hstart : t.drop 0 = '(' :: rest := h
  have hheight (n : Nat) : height (t.take (n + 1)) = 1 + height (rest.take n) := by
    rw [h, List.take_succ_cons, height_cons]
    rfl
  constructor
  · intro hnone n hn
    obtain ⟨n, rfl⟩ := Nat.exists_eq_add_one.mpr hn
    have hread := (closing?_eq_none_iff hstart).mpr hnone
    rw [List.drop_zero, h] at hread
    rw [hheight]
    exact one_le_of_closingFrom? (Int.le_refl 1) (Option.map_eq_none_iff.mp hread) n
  · intro hopen
    refine Set.eq_empty_of_forall_notMem fun c hc => ?_
    obtain ⟨n, -, -, hn⟩ := (mem_closings_iff hstart c).mp hc
    have hpositive := hopen (n + 2) (by omega)
    rw [hheight] at hpositive
    omega

/-- What is open stays open when text without parentheses and another open group follow. -/
theorem closings_append_eq_empty {t middle tail rest inside : Text} (ht : t = '(' :: rest)
    (hopen : closings t 0 = ∅) (hmiddle : '(' ∉ middle ∧ ')' ∉ middle)
    (htail : tail = '(' :: inside) (hlast : closings tail 0 = ∅) :
    closings (t ++ (middle ++ tail)) 0 = ∅ := by
  rw [closings_eq_empty_iff ht] at hopen
  rw [closings_eq_empty_iff htail] at hlast
  have hwhole : t ++ (middle ++ tail) = '(' :: (rest ++ (middle ++ tail)) := by
    rw [ht, List.cons_append]
  rw [closings_eq_empty_iff hwhole]
  intro n hn
  have hfirst := hopen n hn
  have hbetween (m : Nat) : height (middle.take m) = 0 :=
    height_eq_zero (fun hmem => hmiddle.1 (List.mem_of_mem_take hmem))
      (fun hmem => hmiddle.2 (List.mem_of_mem_take hmem))
  have hend (m : Nat) : 0 ≤ height (tail.take m) := by
    rcases Nat.eq_zero_or_pos m with rfl | hm
    · exact Int.le_refl 0
    · exact (Int.zero_le_ofNat 1).trans (hlast m hm)
  rw [List.take_append, List.take_append, height_append, height_append, hbetween]
  have hrest := hend (n - t.length - middle.length)
  omega

end NativeGlue.Source
