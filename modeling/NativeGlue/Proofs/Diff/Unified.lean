import NativeGlue.Diff.Unified
import NativeGlue.Proofs.Diff.Mirror
import NativeGlue.Proofs.Text.Splitting

/-!
When a difference is shown. Cutting edits into hunks loses no change, and between blocks that tile
both lists there is no change only if the lists are equal; a list and itself have one block and no
change. A difference of two texts is therefore empty just when they have the same lines.
-/

namespace NativeGlue.Diff

open Text

section Changes

@[simp] theorem hasChange_nil : hasChange [] = false := rfl

@[simp] theorem hasChange_cons (e : Edit) (rest : List Edit) :
    hasChange (e :: rest) = (e.tag != .equal || hasChange rest) := rfl

@[simp] theorem hasChange_append (before after : List Edit) :
    hasChange (before ++ after) = (hasChange before || hasChange after) := List.any_append

@[simp] theorem onEqual_tag (f : Window → Window) (e : Edit) : (e.onEqual f).tag = e.tag := by
  unfold Edit.onEqual
  split_ifs <;> rfl

theorem hasChange_trimFirst (found : List Edit) :
    hasChange (trimFirst found) = hasChange found := by
  cases found <;> simp [trimFirst]

theorem hasChange_trimLast (found : List Edit) : hasChange (trimLast found) = hasChange found := by
  induction found with
  | nil => rfl
  | cons e rest ih =>
    cases rest with
    | nil => simp [trimLast]
    | cons next more =>
      have htrim : trimLast (e :: next :: more) = e :: trimLast (next :: more) := rfl
      rw [htrim, hasChange_cons, ih, ← hasChange_cons]

/-- A change stands in one of the hunks; what is cut is an edit of equal lines. -/
theorem any_hunksFrom (hunk found : List Edit) :
    (hunksFrom hunk found).any hasChange = (hasChange hunk || hasChange found) := by
  induction found generalizing hunk with
  | nil => simp [hunksFrom]
  | cons e rest ih =>
    rw [hunksFrom]
    split_ifs with hlong
    · have hequal : e.tag = .equal := by
        unfold isLong at hlong
        exact beq_iff_eq.mp (Bool.and_eq_true_iff.mp hlong).1
      rw [List.any_cons, ih]
      simp [hequal]
    · rw [ih]
      simp [Bool.or_assoc]

theorem hunks_eq_nil_iff (p : Pair) : hunks p = [] ↔ hasChange (edits p) = false := by
  rw [hunks, List.filter_eq_nil_iff, ← hasChange_trimFirst (edits p), ← hasChange_trimLast,
    ← List.any_eq_false, any_hunksFrom, hasChange_nil, Bool.false_or]

/-- There is a change wherever a block does not start where the last one ended. -/
theorem hasChange_editsFrom_cons (left right : Nat) (b : Block) (rest : List Block) :
    hasChange (editsFrom left right (b :: rest)) =
      (decide (left < b.left) || decide (right < b.right) ||
        hasChange (editsFrom (b.left + b.size) (b.right + b.size) rest)) := by
  have hkeep : hasChange (if b.size = 0 then [] else
      [Edit.mk .equal ⟨b.left, b.left + b.size, b.right, b.right + b.size⟩]) = false := by
    split_ifs <;> rfl
  rw [editsFrom, hasChange_append, hasChange_append, hkeep, Bool.or_false]
  congr 1
  unfold tagOf
  cases decide (left < b.left) <;> cases decide (right < b.right) <;> rfl

theorem hasChange_editsFrom_nil (left right : Nat) : hasChange (editsFrom left right []) = false :=
  rfl

end Changes

/-- Blocks without a change between them make one run of agreeing lines. -/
theorem Tiles.agree_of_unchanged {p : Pair} {w : Window} {before : List Block} {last : Block}
    (htiles : Tiles p w (before ++ [last]))
    (h : hasChange (editsFrom w.leftStart w.rightStart (before ++ [last])) = false) :
    ∃ n, last.left = w.leftStart + n ∧ last.right = w.rightStart + n ∧
      ∀ k < n, p.left[w.leftStart + k]? = p.right[w.rightStart + k]? := by
  have hstart {w : Window} {b : Block} {rest : List Block} (hfits : b.Fits p w)
      (h : hasChange (editsFrom w.leftStart w.rightStart (b :: rest)) = false) :
      b.left = w.leftStart ∧ b.right = w.rightStart := by
    simp only [hasChange_editsFrom_cons, Bool.or_eq_false_iff, decide_eq_false_iff_not] at h
    have hleft := hfits.left_start
    have hright := hfits.right_start
    omega
  induction before generalizing w with
  | nil =>
    obtain _ | ⟨hfits, -⟩ := htiles
    obtain ⟨hleft, hright⟩ := hstart hfits h
    exact ⟨0, hleft, hright, fun k hk => absurd hk (Nat.not_lt_zero k)⟩
  | cons b before ih =>
    obtain _ | ⟨hfits, hrest⟩ := htiles
    obtain ⟨hleft, hright⟩ := hstart hfits h
    rw [List.cons_append, hasChange_editsFrom_cons, Bool.or_eq_false_iff] at h
    obtain ⟨n, hlastLeft, hlastRight, hbehind⟩ := ih hrest h.2
    have hagree := hfits.agree
    rw [hleft, hright] at hagree
    simp only [Window.beyond, hleft, hright] at hlastLeft hlastRight hbehind
    exact ⟨b.size + n, by omega, by omega, agree_add hagree hbehind⟩

theorem same_of_unchanged {p : Pair} (hp : p.IsPlaced) (h : hasChange (edits p) = false) :
    p.left = p.right := by
  obtain ⟨n, hleft, hright, hagree⟩ := (Pair.tiles_blocks hp).agree_of_unchanged h
  simp only [Pair.whole, Nat.zero_add] at hleft hright hagree
  refine Array.ext_getElem? fun k => ?_
  by_cases hk : k < n
  · exact hagree k hk
  · rw [Array.getElem?_eq_none (by omega), Array.getElem?_eq_none (by omega)]

theorem unchanged_of_isMirror {p : Pair} (hp : p.IsMirror) : hasChange (edits p) = false := by
  rw [edits, Pair.blocks_of_isMirror hp]
  split_ifs with hempty
  · simp [hasChange_editsFrom_cons, hasChange_editsFrom_nil, hempty]
  · simp [hasChange_editsFrom_cons, hasChange_editsFrom_nil]

theorem hunks_ofLists_eq_nil_iff (left right : List Text) :
    hunks (Pair.ofLists left right) = [] ↔ left = right := by
  rw [hunks_eq_nil_iff]
  constructor
  · intro h
    have hsame := same_of_unchanged (Pair.isPlaced_ofLists left right) h
    exact congrArg Array.toList hsame
  · rintro rfl
    exact unchanged_of_isMirror (Pair.isMirror_ofLists left)

/-- A difference is empty just when both texts have the same lines. -/
theorem unified_eq_nil_iff (old new oldLabel newLabel : Text) :
    unified old new oldLabel newLabel = [] ↔ lines old = lines new := by
  rw [← hunks_ofLists_eq_nil_iff]
  unfold unified unifiedLines
  dsimp only
  generalize hunks (Pair.ofLists (lines old) (lines new)) = found
  cases found with
  | nil => exact iff_of_true rfl rfl
  | cons hunk more =>
    dsimp only
    rw [unlines, join_cons_cons]
    exact iff_of_false (List.cons_ne_nil _ _) (List.cons_ne_nil _ _)

end NativeGlue.Diff
