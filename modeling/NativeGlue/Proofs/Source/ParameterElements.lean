import Mathlib.Data.List.Infix
import Mathlib.Data.List.ModifyLast
import NativeGlue.Proofs.Source.ParameterList

/-!
The elements of a parameter list. They are what stands between the commas that part the list,
character by character, so that with commas between them they are the list again, whatever its
brackets. Elements that close the brackets they open and have no comma outside of these are read
back as they were joined, but for the blanks at either end of the list.
-/

namespace NativeGlue

open Text

namespace Text

/-- The opening brackets of a text less the closing ones. -/
def Brackets.level (b : Brackets) (t : Text) : Int := t.countP b.opens - t.countP b.closes

/-- A text behind the given number of open brackets: it closes none too many, and no comma stands
in it where all are closed. -/
structure Brackets.Unparted (b : Brackets) (depth : Nat) (t : Text) : Prop where
  nonneg : ∀ u, u <+: t → 0 ≤ depth + b.level u
  comma_inside : ∀ u, u ++ [','] <+: t → 0 < depth + b.level u

/-- A text that closes its brackets and has commas inside of them only. -/
structure Brackets.IsElement (b : Brackets) (t : Text) : Prop where
  nonneg : ∀ u, u <+: t → 0 ≤ b.level u
  comma_inside : ∀ u, u ++ [','] <+: t → 0 < b.level u
  closed : b.level t = 0

instance (b : Brackets) (t : Text) : Decidable (b.IsElement t) :=
  decidable_of_iff
    ((∀ u ∈ t.inits, 0 ≤ b.level u) ∧ (∀ u ∈ t.inits, u ++ [','] <+: t → 0 < b.level u) ∧
      b.level t = 0)
    ⟨fun ⟨hnonneg, hcomma, hclosed⟩ =>
      ⟨fun u hu => hnonneg u ((List.mem_inits u t).mpr hu),
        fun u hu => hcomma u ((List.mem_inits u t).mpr ((List.prefix_append u [',']).trans hu)) hu,
        hclosed⟩,
    fun h =>
      ⟨fun u hu => h.nonneg u ((List.mem_inits u t).mp hu), fun u _ => h.comma_inside u,
        h.closed⟩⟩

section Level

variable {b : Brackets}

theorem Brackets.level_append (b : Brackets) (t u : Text) :
    b.level (t ++ u) = b.level t + b.level u := by
  simp only [level, List.countP_append]
  omega

theorem Brackets.level_cons (b : Brackets) (c : Char) (t : Text) :
    b.level (c :: t) = b.level [c] + b.level t := b.level_append [c] t

theorem Brackets.level_eq_zero (b : Brackets) {t : Text}
    (h : ∀ c ∈ t, b.opens c = false ∧ b.closes c = false) : b.level t = 0 := by
  have hopens : t.countP b.opens = 0 := List.countP_eq_zero.mpr fun c hc => by simp [(h c hc).1]
  have hcloses : t.countP b.closes = 0 := List.countP_eq_zero.mpr fun c hc => by simp [(h c hc).2]
  rw [level, hopens, hcloses]
  rfl

/-- The depth follows the level until a bracket closes that none opened. -/
theorem Brackets.depthAfter_eq (hb : ∀ c, b.opens c = true → b.closes c = false) (depth : Nat)
    (c : Char) (h : 0 ≤ depth + b.level [c]) :
    (b.depthAfter depth c : Int) = depth + b.level [c] := by
  unfold level at h ⊢
  unfold depthAfter
  cases hopen : b.opens c with
  | true => simp [hopen, hb c hopen]
  | false =>
    cases hclose : b.closes c with
    | true =>
      simp only [List.countP_singleton, hopen, hclose] at h ⊢
      simp only [Bool.false_eq_true, if_false, if_true] at h ⊢
      omega
    | false => simp [hopen, hclose]

namespace Brackets

theorem Unparted.cons (hb : ∀ c, b.opens c = true → b.closes c = false) {depth : Nat} {c : Char}
    {t : Text} (h : b.Unparted depth (c :: t)) :
    ¬ (c = ',' ∧ depth = 0) ∧ (b.depthAfter depth c : Int) = depth + b.level [c] ∧
      b.Unparted (b.depthAfter depth c) t := by
  have hlevel := depthAfter_eq hb depth c (h.nonneg [c] ⟨t, rfl⟩)
  have hsum (u : Text) : b.depthAfter depth c + b.level u = depth + b.level (c :: u) := by
    rw [hlevel, b.level_cons c u]
    omega
  refine ⟨?_, hlevel, ?_, ?_⟩
  · rintro ⟨rfl, rfl⟩
    exact absurd (h.comma_inside [] ⟨t, rfl⟩) (by simp [level])
  · intro u hu
    rw [hsum]
    exact h.nonneg _ (List.cons_prefix_cons.mpr ⟨rfl, hu⟩)
  · intro u hu
    rw [hsum]
    exact h.comma_inside _ (List.cons_prefix_cons.mpr ⟨rfl, hu⟩)

theorem Unparted.foldl_depthAfter (hb : ∀ c, b.opens c = true → b.closes c = false) {depth : Nat}
    {t : Text} (h : b.Unparted depth t) :
    ((t.foldl b.depthAfter depth : Nat) : Int) = depth + b.level t := by
  induction t generalizing depth with
  | nil => simp [level]
  | cons c t ih =>
    obtain ⟨-, hlevel, hlater⟩ := h.cons hb
    rw [List.foldl_cons, ih hlater, hlevel, b.level_cons c t]
    omega

theorem Unparted.piecesFrom_eq (hb : ∀ c, b.opens c = true → b.closes c = false) {depth : Nat}
    {t : Text} (h : b.Unparted depth t) (piece : Text) :
    piecesFrom b depth piece t = [piece ++ t] := by
  induction t generalizing depth piece with
  | nil => rw [piecesFrom, List.append_nil]
  | cons c t ih =>
    obtain ⟨hcomma, -, hlater⟩ := h.cons hb
    rw [piecesFrom, if_neg (by simpa using hcomma), ih hlater, List.append_assoc,
      List.singleton_append]

namespace IsElement

variable {t : Text}

theorem unparted (h : b.IsElement t) : b.Unparted 0 t where
  nonneg u hu := by simpa using h.nonneg u hu
  comma_inside u hu := by simpa using h.comma_inside u hu

theorem ends_level (hb : ∀ c, b.opens c = true → b.closes c = false) (h : b.IsElement t) :
    t.foldl b.depthAfter 0 = 0 := by
  have hlevel := h.unparted.foldl_depthAfter hb
  rw [h.closed] at hlevel
  exact_mod_cast hlevel

/-- What is left of an element without a text of level zero at its start. -/
theorem of_append {gap : Text} (hgap : b.level gap = 0) (h : b.IsElement (gap ++ t)) :
    b.IsElement t := by
  have hsame (u : Text) : b.level (gap ++ u) = b.level u := by rw [level_append, hgap, Int.zero_add]
  constructor
  · intro u hu
    rw [← hsame]
    exact h.nonneg _ ((List.prefix_append_right_inj gap).mpr hu)
  · intro u hu
    rw [← hsame]
    refine h.comma_inside _ ?_
    rw [List.append_assoc]
    exact (List.prefix_append_right_inj gap).mpr hu
  · rw [← hsame, h.closed]

theorem of_append_right {gap : Text} (hgap : b.level gap = 0) (h : b.IsElement (t ++ gap)) :
    b.IsElement t where
  nonneg u hu := h.nonneg u (hu.trans (List.prefix_append t gap))
  comma_inside u hu := h.comma_inside u (hu.trans (List.prefix_append t gap))
  closed := by rw [← h.closed, level_append, hgap, Int.add_zero]

end IsElement

end Brackets

end Level

/-- Trimming a list of several elements takes blanks from the first and the last. -/
theorem trim_join (first last : Text) (mid : List Text) :
    trim (join [','] (first :: (mid ++ [last]))) =
      join [','] (skipBlanks first :: (mid ++ [trimEnd last])) := by
  have hfront (p : Text) : join [','] (p :: (mid ++ [last])) =
      p ++ ',' :: join [','] (mid ++ [last]) := by
    rw [join_cons_of_ne_nil _ _ (by simp), List.append_assoc, List.singleton_append]
  have hback (p q : Text) : join [','] (p :: (mid ++ [q])) = join [','] (p :: mid) ++ ',' :: q := by
    have hsingle : join [','] [q] = q := List.intercalate_singleton ..
    rw [← List.cons_append, join_append _ (List.cons_ne_nil p mid) (List.cons_ne_nil q []), hsingle,
      List.append_assoc, List.singleton_append]
  have hend : trimEnd (',' :: last) = ',' :: trimEnd last := by
    rw [trimEnd_cons, if_neg fun h => Bool.false_ne_true h.2]
  rw [hfront, trim, skipBlanks_append_char first ',' _ rfl, ← hfront, hback,
    trimEnd_append _ (hend ▸ List.cons_ne_nil _ _), hend, ← hback]

/-- With commas between them the parts of a text are the text, also when the first has begun. -/
theorem join_piecesFrom (b : Brackets) (depth : Nat) (piece t : Text) :
    piecesFrom b depth piece t ≠ [] ∧ join [','] (piecesFrom b depth piece t) = piece ++ t := by
  induction t generalizing depth piece with
  | nil =>
    rw [piecesFrom, List.append_nil]
    exact ⟨List.cons_ne_nil _ _, List.intercalate_singleton ..⟩
  | cons c t ih =>
    rw [piecesFrom]
    split
    · next hparts =>
      obtain ⟨rfl, -⟩ : c = ',' ∧ depth = 0 := by simpa using hparts
      obtain ⟨hne, hjoin⟩ := ih 0 []
      refine ⟨List.cons_ne_nil _ _, ?_⟩
      rw [join_cons_of_ne_nil _ _ hne, hjoin, List.nil_append, List.append_assoc,
        List.singleton_append]
    · obtain ⟨hne, hjoin⟩ := ih (b.depthAfter depth c) (piece ++ [c])
      refine ⟨hne, ?_⟩
      rw [hjoin, List.append_assoc, List.singleton_append]

theorem join_pieces (b : Brackets) (t : Text) : join [','] (pieces b t) = trim t := by
  unfold pieces
  dsimp only
  split
  · next hnone =>
    rw [List.isEmpty_iff] at hnone
    rw [hnone]
    rfl
  · exact (join_piecesFrom b 0 [] (trim t)).2

/-- Elements with commas between them are parted at these commas. -/
theorem piecesFrom_join_elements {b : Brackets} (hb : ∀ c, b.opens c = true → b.closes c = false)
    (hcomma : b.opens ',' = false) (ps : List Text) (hne : ps ≠ [])
    (h : ∀ p ∈ ps, b.IsElement p) : piecesFrom b 0 [] (join [','] ps) = ps := by
  induction ps with
  | nil => exact absurd rfl hne
  | cons p ps ih =>
    obtain ⟨hp, hps⟩ := List.forall_mem_cons.mp h
    have hsingle := hp.unparted.piecesFrom_eq hb []
    by_cases hnil : ps = []
    · rw [hnil]
      simpa [join] using hsingle
    · rw [join_cons_of_ne_nil _ _ hnil, List.append_assoc, List.singleton_append,
        piecesFrom_append_comma b hcomma 0 [] p _ (hp.ends_level hb), hsingle, ih hnil hps]
      rfl

end Text

namespace Source

theorem parameterBrackets_apart (c : Char) (h : parameterBrackets.opens c = true) :
    parameterBrackets.closes c = false := by
  have hc : c = '<' ∨ c = '(' := by simpa [parameterBrackets] using h
  rcases hc with rfl | rfl <;> rfl

theorem level_blanks {blanks : Text} (h : ∀ c ∈ blanks, isBlank c = true) :
    parameterBrackets.level blanks = 0 :=
  parameterBrackets.level_eq_zero fun c hc => (parameterBrackets_of_isBlank (h c hc)).2

theorem isElement_skipBlanks {t : Text} (h : parameterBrackets.IsElement t) :
    parameterBrackets.IsElement (skipBlanks t) := by
  have hgap : ∀ c ∈ t.takeWhile isBlank, isBlank c = true := fun c hc =>
    List.all_eq_true.mp List.all_takeWhile c hc
  rw [← List.takeWhile_append_dropWhile (p := isBlank) (l := t)] at h
  exact h.of_append (level_blanks hgap)

theorem isElement_trimEnd {t : Text} (h : parameterBrackets.IsElement t) :
    parameterBrackets.IsElement (trimEnd t) := by
  obtain ⟨blanks, heq, hblanks⟩ := exists_eq_trimEnd_append t
  rw [heq] at h
  exact h.of_append_right (level_blanks hblanks)

/-- Elements of a list that is not blank, with blanks dropped before the first and behind the
last. -/
theorem splitParameters_join (ps : List Text) (hne : ps ≠ [])
    (h : ∀ p ∈ ps, parameterBrackets.IsElement p) (hword : trim (join [','] ps) ≠ []) :
    splitParameters (join [','] ps) = (ps.modifyHead skipBlanks).modifyLast trimEnd := by
  have hread := piecesFrom_join_elements parameterBrackets_apart rfl
  have hsplit : splitParameters (join [','] ps) =
      piecesFrom parameterBrackets 0 [] (trim (join [','] ps)) := by
    rw [splitParameters, pieces, if_neg (by simpa using hword)]
  obtain ⟨first, rest, rfl⟩ := List.exists_cons_of_ne_nil hne
  obtain ⟨hfirst, hrest⟩ := List.forall_mem_cons.mp h
  rw [hsplit]
  rcases List.eq_nil_or_concat rest with rfl | ⟨mid, last, rfl⟩
  · have hsingle (p : Text) : join [','] [p] = p := List.intercalate_singleton ..
    have hends : parameterBrackets.IsElement (trim first) :=
      isElement_trimEnd (isElement_skipBlanks hfirst)
    have hone := hread [trim first] (List.cons_ne_nil _ _) (List.forall_mem_singleton.mpr hends)
    rw [hsingle] at hone ⊢
    exact hone
  · rw [List.concat_eq_append] at hrest ⊢
    obtain ⟨hmid, hlast⟩ := List.forall_mem_append.mp hrest
    have hends : ∀ p ∈ skipBlanks first :: (mid ++ [trimEnd last]),
        parameterBrackets.IsElement p := by
      rw [List.forall_mem_cons, List.forall_mem_append]
      exact ⟨isElement_skipBlanks hfirst, hmid,
        List.forall_mem_singleton.mpr (isElement_trimEnd (List.forall_mem_singleton.mp hlast))⟩
    rw [trim_join, hread _ (List.cons_ne_nil _ _) hends, List.modifyHead_cons, ← List.cons_append,
      ← List.cons_append, List.modifyLast_concat]

/-- To split a list undoes joining it. Elements joined by commas are read back, the first without
the blanks before it and the last without those behind it; and what is read of any text, with
brackets that fit together or not, is the text again without the blanks at its ends. -/
theorem splitParameters_undoes_join :
    (∀ ps : List Text, ps ≠ [] → (∀ p ∈ ps, parameterBrackets.IsElement p) →
      ¬ (∀ c ∈ join [','] ps, isBlank c = true) →
      splitParameters (join [','] ps) = (ps.modifyHead skipBlanks).modifyLast trimEnd) ∧
    ∀ t, join [','] (splitParameters t) = trim t := by
  constructor
  · intro ps hne h hword
    exact splitParameters_join ps hne h fun hnone => hword (isBlank_of_trim_eq_nil hnone)
  · exact join_pieces parameterBrackets

/-- Three elements with blanks around them, two of them with a comma between brackets. -/
def spacedElements : List Text :=
  [" Map<K, V> m".toList, " @A(x, y) int n ".toList, "long[] xs ".toList]

theorem splitParameters_spacedElements :
    spacedElements ≠ [] ∧ (∀ p ∈ spacedElements, parameterBrackets.IsElement p) ∧
      ¬ (∀ c ∈ join [','] spacedElements, isBlank c = true) ∧
      splitParameters (join [','] spacedElements) =
        ["Map<K, V> m".toList, " @A(x, y) int n ".toList, "long[] xs".toList] := by
  have hne : spacedElements ≠ [] := by decide
  have helements : ∀ p ∈ spacedElements, parameterBrackets.IsElement p := by decide +kernel
  have hword : ¬ (∀ c ∈ join [','] spacedElements, isBlank c = true) := by
    rw [← List.all_eq_true]
    decide
  exact ⟨hne, helements, hword, splitParameters_undoes_join.1 spacedElements hne helements hword⟩

end Source

end NativeGlue
