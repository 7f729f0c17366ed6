import Mathlib.Data.List.Basic
import NativeGlue.Diff.Matching

/-!
The common blocks of two lists of lines. The longest block of a window lies in it and its lines
agree, so that all blocks tile the lists from left to right. Where both lists are the same the
longest run is first met on the diagonal, from where its block is extended over everything.
-/

namespace NativeGlue.Diff

open Text

/-- Whether the lines of a block agree and lie within a window. -/
structure Block.Fits (p : Pair) (w : Window) (b : Block) : Prop where
  left_start : w.leftStart ≤ b.left
  right_start : w.rightStart ≤ b.right
  left_end : b.left + b.size ≤ w.leftEnd
  right_end : b.right + b.size ≤ w.rightEnd
  agree : ∀ k < b.size, p.left[b.left + k]? = p.right[b.right + k]?

namespace Window

/-- A window that does not end before it starts. -/
structure IsProper (w : Window) : Prop where
  left : w.leftStart ≤ w.leftEnd
  right : w.rightStart ≤ w.rightEnd

/-- The part of a window before a block. -/
def upTo (w : Window) (b : Block) : Window := { w with leftEnd := b.left, rightEnd := b.right }

/-- The part of a window after a block. -/
def beyond (w : Window) (b : Block) : Window :=
  { w with leftStart := b.left + b.size, rightStart := b.right + b.size }

theorem isProper_upTo {p : Pair} {w : Window} {b : Block} (h : b.Fits p w) : (w.upTo b).IsProper :=
  ⟨h.left_start, h.right_start⟩

theorem isProper_beyond {p : Pair} {w : Window} {b : Block} (h : b.Fits p w) :
    (w.beyond b).IsProper := ⟨h.left_end, h.right_end⟩

end Window

/-- Blocks of agreeing lines that lie in a window from left to right. -/
inductive Tiles (p : Pair) : Window → List Block → Prop
  | nil (w : Window) : Tiles p w []
  | cons {w : Window} {b : Block} {rest : List Block} (hfits : b.Fits p w)
      (hrest : Tiles p (w.beyond b) rest) : Tiles p w (b :: rest)

section Tiling

variable {p : Pair} {w : Window} {b : Block}

theorem fits_empty {left right : Nat} (hleft : w.leftStart ≤ left ∧ left ≤ w.leftEnd)
    (hright : w.rightStart ≤ right ∧ right ≤ w.rightEnd) : Block.Fits p w ⟨left, right, 0⟩ :=
  ⟨hleft.1, hright.1, hleft.2, hright.2, fun k hk => absurd hk (Nat.not_lt_zero k)⟩

/-- What fits before a block fits into the window of the block. -/
theorem Block.Fits.of_upTo {c : Block} (hb : b.Fits p w) (hc : c.Fits p (w.upTo b)) :
    c.Fits p w where
  left_start := hc.left_start
  right_start := hc.right_start
  left_end := by
    have hend : c.left + c.size ≤ b.left := hc.left_end
    have hwindow := hb.left_end
    omega
  right_end := by
    have hend : c.right + c.size ≤ b.right := hc.right_end
    have hwindow := hb.right_end
    omega
  agree := hc.agree

/-- A block fits into what is left of a window after a block that ends before it. -/
theorem Block.Fits.beyond {c : Block} (hb : b.Fits p w) (hc : c.Fits p (w.upTo b)) :
    b.Fits p (w.beyond c) :=
  ⟨hc.left_end, hc.right_end, hb.left_end, hb.right_end, hb.agree⟩

theorem Tiles.append_cons {before after : List Block} (hbefore : Tiles p (w.upTo b) before)
    (hb : b.Fits p w) (hafter : Tiles p (w.beyond b) after) : Tiles p w (before ++ b :: after) := by
  induction before generalizing w with
  | nil => exact .cons hb hafter
  | cons c before ih =>
    obtain _ | ⟨hc, hrest⟩ := hbefore
    exact .cons (hb.of_upTo hc) (ih hrest (hb.beyond hc) hafter)

/-- Lines that agree in a part and in the part behind it agree in both. -/
theorem agree_add {i j m n : Nat} (hfirst : ∀ k < m, p.left[i + k]? = p.right[j + k]?)
    (hsecond : ∀ k < n, p.left[i + m + k]? = p.right[j + m + k]?) :
    ∀ k < m + n, p.left[i + k]? = p.right[j + k]? := by
  intro k hk
  by_cases hin : k < m
  · exact hfirst k hin
  · have hagree := hsecond (k - m) (by omega)
    have hshift (start : Nat) : start + m + (k - m) = start + k := by omega
    rwa [hshift, hshift] at hagree

/-- Blocks without a gap between them are one block. -/
theorem Block.Fits.join {c : Block} (hb : b.Fits p w) (hc : c.Fits p (w.beyond b))
    (hleft : b.left + b.size = c.left) (hright : b.right + b.size = c.right) :
    Block.Fits p w ⟨b.left, b.right, b.size + c.size⟩ where
  left_start := hb.left_start
  right_start := hb.right_start
  left_end := by
    have hend : c.left + c.size ≤ w.leftEnd := hc.left_end
    simp only
    omega
  right_end := by
    have hend : c.right + c.size ≤ w.rightEnd := hc.right_end
    simp only
    omega
  agree := by
    have hbehind := hc.agree
    rw [← hleft, ← hright] at hbehind
    exact agree_add hb.agree hbehind

theorem Tiles.joinBlocks {blocks : List Block} (h : Tiles p w blocks) :
    Tiles p w (Pair.joinBlocks blocks) := by
  induction h with
  | nil w => exact .nil w
  | @cons w b rest hb _ ih =>
    rw [Pair.joinBlocks]
    cases hnext : Pair.joinBlocks rest with
    | nil => exact .cons hb (.nil _)
    | cons next more =>
      rw [hnext] at ih
      dsimp only
      split_ifs with hadjacent
      · rw [Bool.and_eq_true, decide_eq_true_eq, decide_eq_true_eq] at hadjacent
        obtain ⟨hleft, hright⟩ := hadjacent
        obtain _ | ⟨hfits, hmore⟩ := ih
        have hsame : w.beyond ⟨b.left, b.right, b.size + next.size⟩ = (w.beyond b).beyond next := by
          simp only [Window.beyond, ← hleft, ← hright, Nat.add_assoc]
        exact .cons (hb.join hfits hleft hright) (hsame ▸ hmore)
      · exact .cons hb ih

end Tiling

namespace Pair

variable {p : Pair} {w : Window} {i j : Nat} {row : Row} {best : Block}

/-- Where a line is recorded to stand on the right, it stands there. -/
def IsPlaced (p : Pair) : Prop :=
  ∀ i j : Nat, j ∈ p.places[i]?.getD [] → p.left[i]? = p.right[j]?

theorem mem_placesOf {right : Array Text} {line : Text} (h : j ∈ placesOf right line) :
    right[j]? = some line := by
  unfold placesOf at h
  dsimp only at h
  split_ifs at h
  · cases h
  · exact beq_iff_eq.mp (List.mem_filter.mp h).2

theorem places_ofLists (left right : List Text) (i : Nat) :
    (ofLists left right).places[i]?.getD [] =
      (left[i]?.map (placesOf right.toArray)).getD [] := by
  simp [ofLists]

theorem isPlaced_ofLists (left right : List Text) : (ofLists left right).IsPlaced := by
  intro i j h
  rw [places_ofLists] at h
  cases hline : left[i]? with
  | none => simp [hline] at h
  | some line =>
    rw [hline] at h
    have hplace := mem_placesOf h
    simpa [ofLists, hline] using hplace.symm

/-- The places of a row at which runs end within a window. -/
def columns (p : Pair) (w : Window) (i : Nat) : List Nat :=
  (p.places[i]?.getD []).filter fun j => w.rightStart ≤ j && j < w.rightEnd

theorem mem_columns : j ∈ p.columns w i ↔
    j ∈ p.places[i]?.getD [] ∧ w.rightStart ≤ j ∧ j < w.rightEnd := by
  simp only [columns, List.mem_filter, Bool.and_eq_true, decide_eq_true_eq]

/-- A run of recorded places on a falling diagonal of a window, with the row and the column after
its last place and its length. -/
inductive Run (p : Pair) (w : Window) : Nat → Nat → Nat → Prop
  | single {i j : Nat} (hstart : w.leftStart ≤ i) (hend : i < w.leftEnd)
      (hcolumn : j ∈ p.columns w i) : Run p w (i + 1) (j + 1) 1
  | snoc {i j size : Nat} (hrun : Run p w i j size) (hend : i < w.leftEnd)
      (hcolumn : j ∈ p.columns w i) : Run p w (i + 1) (j + 1) (size + 1)

/-- The lines of a run agree. -/
theorem Run.fits {size : Nat} (hp : p.IsPlaced) (h : Run p w i j size) :
    size ≤ i ∧ size ≤ j ∧ Block.Fits p w ⟨i - size, j - size, size⟩ := by
  induction h with
  | @single i j hstart hend hcolumn =>
    obtain ⟨hplace, hwindow⟩ := mem_columns.mp hcolumn
    refine ⟨Nat.le_add_left 1 i, Nat.le_add_left 1 j, hstart, hwindow.1, hend, hwindow.2, ?_⟩
    intro k hk
    obtain rfl : k = 0 := Nat.lt_one_iff.mp hk
    exact hp i j hplace
  | @snoc i j size _ hend hcolumn ih =>
    obtain ⟨hplace, hwindow⟩ := mem_columns.mp hcolumn
    obtain ⟨hrow, hsize, hfits⟩ := ih
    have hleft : i + 1 - (size + 1) = i - size := Nat.add_sub_add_right i 1 size
    have hright : j + 1 - (size + 1) = j - size := Nat.add_sub_add_right j 1 size
    rw [hleft, hright]
    refine ⟨by omega, by omega, hfits.left_start, hfits.right_start, by simp only; omega,
      by simp only; omega, fun k hk => ?_⟩
    rcases Nat.lt_succ_iff_lt_or_eq.mp hk with hbefore | rfl
    · exact hfits.agree k hbefore
    · simp only [Nat.sub_add_cancel hrow, Nat.sub_add_cancel hsize]
      exact hp i j hplace

/-- The block of a run that ends before row `i`. -/
def runBlock (i : Nat) (e : Nat × Nat) : Block := ⟨i - e.2, e.1 + 1 - e.2, e.2⟩

/-- The better of a block and a run that ends before row `i`. -/
def keepLonger (i : Nat) (best : Block) (e : Nat × Nat) : Block :=
  if best.size < e.2 then runBlock i e else best

def nextRow (p : Pair) (w : Window) (row : Row) (i : Nat) : Row :=
  (p.columns w i).map fun j => (j, runLength row j)

theorem scanRow_eq (p : Pair) (w : Window) (state : Row × Block) (i : Nat) :
    p.scanRow w state i =
      (p.nextRow w state.1 i, (p.nextRow w state.1 i).foldl (keepLonger (i + 1)) state.2) := rfl

/-- The entries of a row are runs that end before row `i`. -/
def RowRuns (p : Pair) (w : Window) (i : Nat) (row : Row) : Prop :=
  ∀ e ∈ row, Run p w i (e.1 + 1) e.2

theorem rowRuns_nextRow (hstart : w.leftStart ≤ i) (hend : i < w.leftEnd)
    (h : RowRuns p w i row) : RowRuns p w (i + 1) (p.nextRow w row i) := by
  intro e he
  obtain ⟨j, hcolumn, rfl⟩ := List.mem_map.mp he
  cases j with
  | zero => exact .single hstart hend hcolumn
  | succ before =>
    cases hbefore : row.lookup before with
    | none => simpa [runLength, hbefore] using Run.single hstart hend hcolumn
    | some size =>
      obtain ⟨others, more, rfl, -⟩ := List.lookup_eq_some_iff.mp hbefore
      have hrun := h (before, size) (by simp)
      simpa [runLength, hbefore] using hrun.snoc hend hcolumn

/-- The longest of a block and some runs is one of them. -/
theorem foldl_keepLonger (row : Row) (best : Block) :
    row.foldl (keepLonger i) best = best ∨
      ∃ e ∈ row, row.foldl (keepLonger i) best = runBlock i e := by
  induction row generalizing best with
  | nil => exact .inl rfl
  | cons e row ih =>
    rw [List.foldl_cons]
    rcases ih (keepLonger i best e) with hkept | ⟨other, hother, hrun⟩
    · rw [hkept, keepLonger]
      split_ifs
      · exact .inr ⟨e, List.mem_cons_self, rfl⟩
      · exact .inl rfl
    · exact .inr ⟨other, List.mem_cons_of_mem e hother, hrun⟩

/-- The state of the scan after all rows of a window. -/
def scanned (p : Pair) (w : Window) : Row × Block :=
  ((List.range (w.leftEnd - w.leftStart)).map (· + w.leftStart)).foldl (p.scanRow w)
    ([], ⟨w.leftStart, w.rightStart, 0⟩)

/-- What holds before the first row and is kept by every row holds after the last. -/
theorem scanned_induction (hw : w.IsProper) (invariant : Nat → Row → Block → Prop)
    (hfirst : invariant w.leftStart [] ⟨w.leftStart, w.rightStart, 0⟩)
    (hnext : ∀ i row best, w.leftStart ≤ i → i < w.leftEnd → invariant i row best →
      invariant (i + 1) (p.nextRow w row i)
        ((p.nextRow w row i).foldl (keepLonger (i + 1)) best)) :
    invariant w.leftEnd (p.scanned w).1 (p.scanned w).2 := by
  have hrows (n : Nat) (hn : w.leftStart + n ≤ w.leftEnd) :
      let state := ((List.range n).map (· + w.leftStart)).foldl (p.scanRow w)
        ([], ⟨w.leftStart, w.rightStart, 0⟩)
      invariant (w.leftStart + n) state.1 state.2 := by
    induction n with
    | zero => exact hfirst
    | succ n ih =>
      have hbefore := ih (by omega)
      have hstep := hnext _ _ _ (Nat.le_add_right w.leftStart n) (by omega) hbefore
      rw [List.range_succ, List.map_append, List.foldl_append, List.map_singleton, List.foldl_cons,
        List.foldl_nil, scanRow_eq, ← Nat.add_assoc, Nat.add_comm n]
      exact hstep
  have hlast := hrows (w.leftEnd - w.leftStart) (by have := hw.left; omega)
  rw [Nat.add_sub_cancel' hw.left] at hlast
  exact hlast

theorem fits_scanned (hp : p.IsPlaced) (hw : w.IsProper) : (p.scanned w).2.Fits p w := by
  have hfirst : Block.Fits p w ⟨w.leftStart, w.rightStart, 0⟩ :=
    fits_empty ⟨Nat.le_refl _, hw.left⟩ ⟨Nat.le_refl _, hw.right⟩
  refine (scanned_induction hw (fun i row best => RowRuns p w i row ∧ best.Fits p w)
    ⟨fun e he => absurd he List.not_mem_nil, hfirst⟩ ?_).2
  rintro i row best hstart hend ⟨hrow, hbest⟩
  have hnext := rowRuns_nextRow hstart hend hrow
  refine ⟨hnext, ?_⟩
  rcases foldl_keepLonger (i := i + 1) (p.nextRow w row i) best with hkept | ⟨e, he, hrun⟩
  · rwa [hkept]
  · rw [hrun]
    exact ((hnext e he).fits hp).2.2

theorem fits_extendBack (room : Nat) (h : best.Fits p w) (hleft : w.leftStart + room ≤ best.left)
    (hright : w.rightStart + room ≤ best.right) : (p.extendBack room best).Fits p w := by
  induction room generalizing best with
  | zero => exact h
  | succ room ih =>
    rw [extendBack]
    split_ifs with hagree
    · refine ih ⟨by simp only; omega, by simp only; omega, ?_, ?_, fun k hk => ?_⟩
        (by simp only; omega) (by simp only; omega)
      · have hend := h.left_end
        simp only
        omega
      · have hend := h.right_end
        simp only
        omega
      · cases k with
        | zero => exact beq_iff_eq.mp hagree
        | succ k =>
          have hsame := h.agree k (Nat.lt_of_succ_lt_succ hk)
          rwa [show best.left - 1 + (k + 1) = best.left + k by omega,
            show best.right - 1 + (k + 1) = best.right + k by omega]
    · exact h

theorem fits_extendOn (room : Nat) (h : best.Fits p w)
    (hleft : best.left + best.size + room ≤ w.leftEnd)
    (hright : best.right + best.size + room ≤ w.rightEnd) : (p.extendOn room best).Fits p w := by
  induction room generalizing best with
  | zero => exact h
  | succ room ih =>
    rw [extendOn]
    split_ifs with hagree
    · refine ih ⟨h.left_start, h.right_start, by simp only; omega, by simp only; omega,
        fun k hk => ?_⟩ (by simp only; omega) (by simp only; omega)
      rcases Nat.lt_succ_iff_lt_or_eq.mp hk with hbefore | rfl
      · exact h.agree k hbefore
      · exact beq_iff_eq.mp hagree
    · exact h

/-- The longest run of a window with the agreeing lines before it. -/
def extended (p : Pair) (w : Window) : Block :=
  let found := (p.scanned w).2
  p.extendBack (min (found.left - w.leftStart) (found.right - w.rightStart)) found

theorem longest_eq (p : Pair) (w : Window) :
    p.longest w = p.extendOn
      (min (w.leftEnd - ((p.extended w).left + (p.extended w).size))
        (w.rightEnd - ((p.extended w).right + (p.extended w).size))) (p.extended w) := rfl

theorem fits_extended (hp : p.IsPlaced) (hw : w.IsProper) : (p.extended w).Fits p w := by
  have hfound := fits_scanned hp hw
  have hleft := hfound.left_start
  have hright := hfound.right_start
  exact fits_extendBack _ hfound (by omega) (by omega)

/-- The longest block of a window lies in it and its lines agree. -/
theorem fits_longest (hp : p.IsPlaced) (hw : w.IsProper) : (p.longest w).Fits p w := by
  have hback := fits_extended hp hw
  have hleft := hback.left_end
  have hright := hback.right_end
  rw [longest_eq]
  exact fits_extendOn _ hback (by omega) (by omega)

theorem tiles_blocksIn (hp : p.IsPlaced) (fuel : Nat) (hw : w.IsProper) :
    Tiles p w (p.blocksIn fuel w) := by
  induction fuel generalizing w with
  | zero => exact .nil w
  | succ fuel ih =>
    have hfits := fits_longest hp hw
    rw [blocksIn]
    split_ifs
    · exact .nil w
    · exact (ih (Window.isProper_upTo hfits)).append_cons hfits (ih (Window.isProper_beyond hfits))

def whole (p : Pair) : Window := ⟨0, p.left.size, 0, p.right.size⟩

theorem isProper_whole (p : Pair) : p.whole.IsProper := ⟨Nat.zero_le _, Nat.zero_le _⟩

/-- The blocks of two lists tile them, up to the empty one at their ends. -/
theorem tiles_blocks (hp : p.IsPlaced) : Tiles p p.whole p.blocks := by
  have hend : Block.Fits p p.whole ⟨p.left.size, p.right.size, 0⟩ :=
    fits_empty ⟨Nat.zero_le _, Nat.le_refl _⟩ ⟨Nat.zero_le _, Nat.le_refl _⟩
  have htiles := (tiles_blocksIn hp (p.left.size + 1) p.isProper_whole).joinBlocks
  rw [blocks]
  exact Tiles.append_cons htiles hend (.nil _)

end Pair

end NativeGlue.Diff
