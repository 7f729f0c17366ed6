import NativeGlue.Proofs.Diff.Matching

/-!
The blocks of a list and itself. Whatever lines are recorded as places, a run that is longer than
all before it is first met on the diagonal: a run beside it has its columns or its rows there too.
From the diagonal the block is extended over the whole list.
-/

namespace NativeGlue.Diff

open Text

/-- A window on the same lines of both lists. -/
structure Window.IsSquare (w : Window) : Prop where
  start : w.leftStart = w.rightStart
  stop : w.leftEnd = w.rightEnd

namespace Pair

variable {p : Pair} {w : Window} {i j size : Nat} {row : Row} {best : Block}

/-- A list beside itself, where equal lines have the same places. -/
structure IsMirror (p : Pair) : Prop where
  same : p.left = p.right
  placed : p.IsPlaced
  sorted : ∀ i : Nat, (p.places[i]?.getD []).Pairwise (· < ·)
  own : ∀ i j : Nat, j ∈ p.places[i]?.getD [] → i ∈ p.places[i]?.getD []
  alike : ∀ i j : Nat, p.left[i]? = p.left[j]? →
    p.places[i]?.getD [] = p.places[j]?.getD []

theorem pairwise_placesOf (right : Array Text) (line : Text) :
    (placesOf right line).Pairwise (· < ·) := by
  unfold placesOf
  dsimp only
  split_ifs
  · exact .nil
  · exact List.pairwise_lt_range.sublist List.filter_sublist

/-- Where a line has places at all, each place where it stands is one. -/
theorem mem_placesOf_of_getElem? {right : Array Text} {line : Text} (h : j ∈ placesOf right line)
    (hline : right[i]? = some line) : i ∈ placesOf right line := by
  unfold placesOf at h ⊢
  dsimp only at h ⊢
  split_ifs with hpopular
  · rw [if_pos hpopular] at h
    cases h
  · have hsize := (Array.getElem?_eq_some_iff.mp hline).1
    exact List.mem_filter.mpr ⟨List.mem_range.mpr hsize, beq_iff_eq.mpr hline⟩

theorem isMirror_ofLists (l : List Text) : (ofLists l l).IsMirror where
  same := rfl
  placed := isPlaced_ofLists l l
  sorted i := by
    rw [places_ofLists]
    cases l[i]? with
    | none => exact .nil
    | some line => exact pairwise_placesOf _ line
  own i j h := by
    rw [places_ofLists] at h ⊢
    cases hline : l[i]? with
    | none => simp [hline] at h
    | some line =>
      rw [hline] at h
      exact mem_placesOf_of_getElem? h (by simpa using hline)
  alike i j h := by
    have hline : l[i]? = l[j]? := by simpa [ofLists] using h
    rw [places_ofLists, places_ofLists, hline]

section Diagonal

/-- The lines of a run are recorded on the diagonal at its columns. -/
theorem Run.onColumns (hp : p.IsMirror) (hw : w.IsSquare) (h : Run p w i j size) :
    Run p w j j size := by
  have hshift {i j : Nat} (hcolumn : j ∈ p.columns w i) : j ∈ p.columns w j := by
    obtain ⟨hplace, hwindow⟩ := mem_columns.mp hcolumn
    have hline := hp.placed i j hplace
    rw [← hp.same] at hline
    exact mem_columns.mpr ⟨hp.alike i j hline ▸ hplace, hwindow⟩
  have hrow {i j : Nat} (hcolumn : j ∈ p.columns w i) : w.leftStart ≤ j ∧ j < w.leftEnd := by
    rw [hw.start, hw.stop]
    exact (mem_columns.mp hcolumn).2
  induction h with
  | single _ _ hcolumn => exact .single (hrow hcolumn).1 (hrow hcolumn).2 (hshift hcolumn)
  | snoc _ _ hcolumn ih => exact .snoc ih (hrow hcolumn).2 (hshift hcolumn)

theorem mem_columns_self (hp : p.IsMirror) (hw : w.IsSquare) (hstart : w.leftStart ≤ i)
    (hend : i < w.leftEnd) (h : j ∈ p.columns w i) : i ∈ p.columns w i :=
  mem_columns.mpr ⟨hp.own i j (mem_columns.mp h).1, hw.start ▸ hstart, hw.stop ▸ hend⟩

theorem Run.start_lt (h : Run p w i j size) : w.leftStart < i := by
  induction h with
  | single hstart _ _ => exact Nat.lt_succ_of_le hstart
  | snoc _ _ _ ih => exact Nat.lt_succ_of_lt ih

/-- The lines of a run are recorded on the diagonal at its rows. -/
theorem Run.onRows (hp : p.IsMirror) (hw : w.IsSquare) (h : Run p w i j size) :
    Run p w i i size := by
  induction h with
  | single hstart hend hcolumn =>
    exact .single hstart hend (mem_columns_self hp hw hstart hend hcolumn)
  | snoc hrun hend hcolumn ih =>
    exact .snoc ih hend (mem_columns_self hp hw (Nat.le_of_lt hrun.start_lt) hend hcolumn)

theorem foldl_keepLonger_of_le (h : ∀ e ∈ row, e.2 ≤ best.size) :
    row.foldl (keepLonger i) best = best := by
  induction row with
  | nil => rfl
  | cons e row ih =>
    have hshort := h e List.mem_cons_self
    rw [List.foldl_cons, keepLonger, if_neg (Nat.not_lt.mpr hshort)]
    exact ih fun other hother => h other (List.mem_cons_of_mem e hother)

theorem size_le_keepLonger (i : Nat) (best : Block) (e : Nat × Nat) :
    best.size ≤ (keepLonger i best e).size ∧ e.2 ≤ (keepLonger i best e).size := by
  unfold keepLonger
  split_ifs with hlonger
  · exact ⟨Nat.le_of_lt hlonger, Nat.le_refl _⟩
  · exact ⟨Nat.le_refl _, Nat.not_lt.mp hlonger⟩

theorem left_keepLonger_self (h : best.left = best.right) (size : Nat) :
    (keepLonger (i + 1) best (i, size)).left = (keepLonger (i + 1) best (i, size)).right := by
  unfold keepLonger
  split_ifs
  · rfl
  · exact h

/-- The state of the scan before row `i` of a list beside itself. -/
structure OnDiagonal (p : Pair) (w : Window) (i : Nat) (row : Row) (best : Block) : Prop where
  runs : RowRuns p w i row
  /-- The row has the longest diagonal run that ends before it. -/
  last : ∀ size, Run p w i i size → ∃ found, row.lookup (i - 1) = some found ∧ size ≤ found
  mirrored : best.left = best.right
  longest : ∀ t ≤ i, ∀ size, Run p w t t size → size ≤ best.size

theorem lookup_nextRow (h : j ∈ p.columns w i) :
    (p.nextRow w row i).lookup j = some (runLength row j) := by
  unfold nextRow
  generalize p.columns w i = columns at h
  induction columns with
  | nil => cases h
  | cons column columns ih =>
    rw [List.map_cons, List.lookup_cons]
    cases hsame : j == column with
    | true => rw [beq_iff_eq.mp hsame]
    | false =>
      rcases List.mem_cons.mp h with rfl | hmore
      · simp at hsame
      · exact ih hmore

/-- The diagonal run that row `i` extends is the longest one before the next row. -/
theorem OnDiagonal.le_runLength (h : OnDiagonal p w i row best)
    (hrun : Run p w (i + 1) (i + 1) size) : size ≤ runLength row i := by
  cases hrun with
  | single => cases i <;> simp [runLength]
  | @snoc _ _ size hbefore _ _ =>
    obtain ⟨found, hfound, hsize⟩ := h.last size hbefore
    cases i with
    | zero => cases hbefore
    | succ before =>
      rw [Nat.add_sub_cancel] at hfound
      simp only [runLength, hfound, Option.getD_some]
      omega

/-- In a row that meets the diagonal only the run there can be the longest so far. -/
theorem OnDiagonal.foldl_nextRow (hp : p.IsMirror) (hw : w.IsSquare) (hstart : w.leftStart ≤ i)
    (hend : i < w.leftEnd) (h : OnDiagonal p w i row best) (hcolumn : i ∈ p.columns w i) :
    (p.nextRow w row i).foldl (keepLonger (i + 1)) best =
      keepLonger (i + 1) best (i, runLength row i) := by
  obtain ⟨before, after, hcolumns⟩ := List.append_of_mem hcolumn
  have hsorted : (p.columns w i).Pairwise (· < ·) := (hp.sorted i).filter _
  rw [hcolumns] at hsorted
  have hruns := rowRuns_nextRow hstart hend h.runs
  have hrow : p.nextRow w row i = before.map (fun j => (j, runLength row j)) ++
      (i, runLength row i) :: after.map fun j => (j, runLength row j) := by
    rw [nextRow, hcolumns, List.map_append, List.map_cons]
  -- a run before the diagonal was met there at its columns, in an earlier row
  have hleft : ∀ e ∈ before.map fun j => (j, runLength row j), e.2 ≤ best.size := by
    intro e he
    have hrun := hruns e (hrow ▸ List.mem_append_left _ he)
    obtain ⟨j, hj, rfl⟩ := List.mem_map.mp he
    have hless : j < i := (List.pairwise_append.mp hsorted).2.2 j hj i List.mem_cons_self
    exact h.longest (j + 1) hless _ (hrun.onColumns hp hw)
  -- a run behind it is met there at its rows, by now
  have hright : ∀ e ∈ after.map fun j => (j, runLength row j), e.2 ≤
      (keepLonger (i + 1) best (i, runLength row i)).size := by
    intro e he
    have hrun := hruns e (hrow ▸ List.mem_append_right _ (List.mem_cons_of_mem _ he))
    have hsize := size_le_keepLonger (i + 1) best (i, runLength row i)
    exact Nat.le_trans (h.le_runLength (hrun.onRows hp hw)) hsize.2
  rw [hrow, List.foldl_append, foldl_keepLonger_of_le hleft, List.foldl_cons,
    foldl_keepLonger_of_le hright]

theorem OnDiagonal.next (hp : p.IsMirror) (hw : w.IsSquare) (hstart : w.leftStart ≤ i)
    (hend : i < w.leftEnd) (h : OnDiagonal p w i row best) :
    OnDiagonal p w (i + 1) (p.nextRow w row i)
      ((p.nextRow w row i).foldl (keepLonger (i + 1)) best) := by
  by_cases hcolumn : i ∈ p.columns w i
  · have hsize := size_le_keepLonger (i + 1) best (i, runLength row i)
    rw [h.foldl_nextRow hp hw hstart hend hcolumn]
    refine ⟨rowRuns_nextRow hstart hend h.runs,
      fun size hrun => ⟨_, lookup_nextRow hcolumn, h.le_runLength hrun⟩,
      left_keepLonger_self h.mirrored _, fun t ht size hrun => ?_⟩
    rcases Nat.le_succ_iff.mp ht with hearlier | rfl
    · exact Nat.le_trans (h.longest t hearlier size hrun) hsize.1
    · exact Nat.le_trans (h.le_runLength hrun) hsize.2
  · have hnone : p.columns w i = [] := List.eq_nil_iff_forall_not_mem.mpr fun j hj =>
      hcolumn (mem_columns_self hp hw hstart hend hj)
    have hno (size : Nat) : ¬ Run p w (i + 1) (i + 1) size := by
      rintro (⟨_, _, hother⟩ | ⟨_, _, hother⟩) <;> exact hcolumn hother
    have hrow : p.nextRow w row i = [] := by rw [nextRow, hnone, List.map_nil]
    rw [hrow]
    refine ⟨fun e he => absurd he List.not_mem_nil, fun size hrun => absurd hrun (hno size),
      h.mirrored, fun t ht size hrun => ?_⟩
    rcases Nat.le_succ_iff.mp ht with hearlier | rfl
    · exact h.longest t hearlier size hrun
    · exact absurd hrun (hno size)

theorem onDiagonal_first (hw : w.IsSquare) :
    OnDiagonal p w w.leftStart [] ⟨w.leftStart, w.rightStart, 0⟩ where
  runs _ he := absurd he List.not_mem_nil
  last _ hrun := absurd hrun.start_lt (Nat.lt_irrefl _)
  mirrored := hw.start
  longest _ ht _ hrun := absurd hrun.start_lt (Nat.not_lt.mpr ht)

/-- The longest run of a list and itself lies on the diagonal. -/
theorem mirrored_scanned (hp : p.IsMirror) (hproper : w.IsProper) (hw : w.IsSquare) :
    (p.scanned w).2.left = (p.scanned w).2.right :=
  (scanned_induction hproper (OnDiagonal p w) (onDiagonal_first hw)
    fun _ _ _ hstart hend h => h.next hp hw hstart hend).mirrored

end Diagonal

section Extension

theorem agree_self (hp : p.IsMirror) (i : Nat) : p.agree i i = true := by
  rw [agree, hp.same, beq_self_eq_true]

theorem extendBack_diagonal (hp : p.IsMirror) (start size : Nat) :
    p.extendBack start ⟨start, start, size⟩ = ⟨0, 0, start + size⟩ := by
  induction start generalizing size with
  | zero => rw [extendBack, Nat.zero_add]
  | succ start ih =>
    rw [extendBack, Nat.add_sub_cancel, if_pos (agree_self hp start), ih, Nat.add_right_comm,
      Nat.add_assoc]

theorem extendOn_diagonal (hp : p.IsMirror) (room size : Nat) :
    p.extendOn room ⟨0, 0, size⟩ = ⟨0, 0, size + room⟩ := by
  induction room generalizing size with
  | zero => rw [extendOn, Nat.add_zero]
  | succ room ih =>
    rw [extendOn, if_pos (agree_self hp _), ih, Nat.add_right_comm, Nat.add_assoc]

theorem isSquare_whole (hp : p.IsMirror) : p.whole.IsSquare :=
  ⟨rfl, congrArg Array.size hp.same⟩

theorem extended_whole (hp : p.IsMirror) :
    p.extended p.whole = ⟨0, 0, (p.scanned p.whole).2.left + (p.scanned p.whole).2.size⟩ := by
  have hmirrored := mirrored_scanned hp (isProper_whole p) (isSquare_whole hp)
  unfold extended
  generalize (p.scanned p.whole).2 = found at hmirrored ⊢
  obtain ⟨start, right, size⟩ := found
  obtain rfl : start = right := hmirrored
  simp only [whole, Nat.sub_zero, Nat.min_self]
  exact extendBack_diagonal hp start size

/-- The longest block of a list and itself is all of it. -/
theorem longest_whole (hp : p.IsMirror) : p.longest p.whole = ⟨0, 0, p.left.size⟩ := by
  have hend := (fits_extended hp.placed (isProper_whole p)).left_end
  rw [longest_eq]
  rw [extended_whole hp] at hend ⊢
  generalize (p.scanned p.whole).2.left + (p.scanned p.whole).2.size = size at hend ⊢
  simp only [whole, ← hp.same, Nat.zero_add, Nat.min_self] at hend ⊢
  rw [extendOn_diagonal hp, Nat.add_sub_cancel' hend]

/-- An empty window has no blocks. -/
theorem blocksIn_of_empty (hp : p.IsPlaced) (hw : w.IsProper) (hempty : w.leftStart = w.leftEnd)
    (fuel : Nat) : p.blocksIn fuel w = [] := by
  cases fuel with
  | zero => rfl
  | succ fuel =>
    have hfits := fits_longest hp hw
    have hstart := hfits.left_start
    have hend := hfits.left_end
    rw [blocksIn]
    exact if_pos (by omega)

/-- A list and itself have one block, apart from the empty one at their ends. -/
theorem blocks_of_isMirror (hp : p.IsMirror) :
    p.blocks = (if p.left.size = 0 then [] else [⟨0, 0, p.left.size⟩]) ++
      [⟨p.left.size, p.left.size, 0⟩] := by
  have hlongest := longest_whole hp
  have hfits := fits_longest hp.placed (isProper_whole p)
  rw [hlongest] at hfits
  have hbefore := blocksIn_of_empty hp.placed (Window.isProper_upTo hfits) rfl p.left.size
  have hafter := blocksIn_of_empty hp.placed (Window.isProper_beyond hfits)
    (Nat.zero_add _) p.left.size
  have hall : p.blocksIn (p.left.size + 1) p.whole =
      if p.left.size = 0 then [] else [⟨0, 0, p.left.size⟩] := by
    rw [blocksIn, hlongest]
    simp only [Window.upTo, Window.beyond] at hbefore hafter
    simp only [hbefore, hafter, List.nil_append]
  rw [blocks]
  change joinBlocks (p.blocksIn (p.left.size + 1) p.whole) ++ _ = _
  rw [hall, ← hp.same]
  split_ifs <;> rfl

end Extension

end Pair

end NativeGlue.Diff
