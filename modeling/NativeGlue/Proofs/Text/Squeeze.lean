import NativeGlue.Proofs.Text.Collapse

/-!
Squeezed texts. To squeeze a text is to collapse it and to trim it, and the squeezed texts are those
that have one space for each run of blanks and no blank at either end. A text that goes on with
another character than a blank is squeezed part by part, with a space left between the parts or
none.
-/

namespace NativeGlue.Text

theorem join_cons_of_ne_nil (separator piece : Text) {pieces : List Text} (h : pieces ≠ []) :
    join separator (piece :: pieces) = piece ++ separator ++ join separator pieces := by
  obtain ⟨next, rest, rfl⟩ := List.exists_cons_of_ne_nil h
  exact join_cons_cons separator piece next rest

theorem trimEnd_word_append (word t : Text) (hword : ∀ c ∈ word, isBlank c = false) :
    trimEnd (word ++ t) = word ++ trimEnd t := by
  induction word with
  | nil => rfl
  | cons c word ih =>
    obtain ⟨hc, hlater⟩ := List.forall_mem_cons.mp hword
    rw [List.cons_append, trimEnd_cons, if_neg (by simp [hc]), ih hlater, List.cons_append]

theorem skipBlanks_blank (c : Char) (t : Text) (hc : isBlank c = true) :
    skipBlanks (c :: t) = skipBlanks t := by
  rw [skipBlanks, List.dropWhile_cons_of_pos hc, skipBlanks]

theorem skipBlanks_eq_self {t : Text} (h : t.head?.any isBlank = false) : skipBlanks t = t := by
  cases t with
  | nil => rfl
  | cons c t => exact skipBlanks_cons c t h

/-- Joined words, also when the first has begun before the text. -/
theorem join_wordsFrom (t : Text) :
    (∀ word, word ≠ [] → (∀ c ∈ word, isBlank c = false) →
      join [' '] (wordsFrom word t) = word ++ trimEnd (collapse t)) ∧
    join [' '] (words t) = trim (collapse t) := by
  induction t using collapse_induction with
  | nil =>
    refine ⟨fun word hne _ => ?_, rfl⟩
    rw [wordsFrom, if_neg (by simpa using hne)]
    simp [join, collapse, trimEnd, skipBlanks]
  | char c t hc ih =>
    have hsingle : ∀ d ∈ [c], isBlank d = false := List.forall_mem_singleton.mpr hc
    rw [collapse_char c t hc]
    constructor
    · intro word hne hword
      have hlonger : ∀ d ∈ word ++ [c], isBlank d = false :=
        List.forall_mem_append.mpr ⟨hword, hsingle⟩
      rw [wordsFrom_char word t hc, ih.1 _ (by simp) hlonger, List.append_assoc]
      exact congrArg (word ++ ·) (trimEnd_word_append [c] (collapse t) hsingle).symm
    · rw [words, wordsFrom_char [] t hc, List.nil_append, ih.1 [c] (by simp) hsingle, trim,
        skipBlanks_cons c _ hc]
      exact (trimEnd_word_append [c] (collapse t) hsingle).symm
  | gap c t hc ht ih =>
    have hstart : skipBlanks (collapse t) = collapse t :=
      skipBlanks_eq_self ((isBlank_head?_collapse t).trans ht)
    rw [trim, hstart] at ih
    have hnone : words t = [] ↔ trimEnd (collapse t) = [] := by
      rw [← ih.2]
      exact (join_eq_nil_iff fun w hw => (forall_mem_words t w hw).1).symm
    rw [collapse_gap c t hc ht]
    constructor
    · intro word hne hword
      rw [wordsFrom_blank t hc hne, trimEnd_cons]
      by_cases hnil : words t = []
      · rw [if_pos ⟨hnone.mp hnil, rfl⟩, hnil]
        simp [join]
      · rw [if_neg fun h => hnil (hnone.mpr h.1), join_cons_of_ne_nil _ _ hnil, ih.2]
        simp
    · have hread : words (c :: t) = words t := words_blanks_append [c] t (by simpa using hc)
      rw [hread, ih.2, trim, skipBlanks_blank ' ' _ rfl, hstart]
  | more c d t hc hd ih =>
    have hread (word : Text) : wordsFrom word (c :: d :: t) = wordsFrom word (d :: t) := by
      simp [wordsFrom, hc, hd]
    rw [collapse_more c d t hc hd]
    constructor
    · intro word hne hword
      rw [hread word, ih.1 word hne hword]
    · rw [words, hread []]
      exact ih.2

theorem squeeze_eq_trim_collapse (t : Text) : squeeze t = trim (collapse t) := (join_wordsFrom t).2

/-- One space for each run of blanks, and no blank at either end. -/
structure Squeezed (t : Text) : Prop where
  collapsed : collapse t = t
  first : t.head?.any isBlank = false
  last : t.getLast?.any isBlank = false

theorem isBlank_head?_skipBlanks (t : Text) : (skipBlanks t).head?.any isBlank = false := by
  have hstop := List.head?_dropWhile_not isBlank t
  rw [skipBlanks]
  cases hskip : t.dropWhile isBlank with
  | nil => rfl
  | cons c rest =>
    rw [hskip] at hstop
    simpa using hstop

theorem trimEnd_eq_self {t : Text} (h : t.getLast?.any isBlank = false) : trimEnd t = t := by
  rw [trimEnd, skipBlanks_eq_self (by rwa [List.head?_reverse]), List.reverse_reverse]

theorem trimEnd_append_blanks (t blanks : Text) (hblanks : ∀ c ∈ blanks, isBlank c = true) :
    trimEnd (t ++ blanks) = trimEnd t := by
  rw [trimEnd, skipBlanks, List.reverse_append,
    List.dropWhile_append_of_pos fun c hc => hblanks c (List.mem_reverse.mp hc), trimEnd,
    skipBlanks]

/-- Trimming takes nothing but blanks from the end of a text. -/
theorem exists_eq_trimEnd_append (t : Text) :
    ∃ blanks, t = trimEnd t ++ blanks ∧ ∀ c ∈ blanks, isBlank c = true := by
  induction t with
  | nil => exact ⟨[], rfl, nofun⟩
  | cons c t ih =>
    obtain ⟨blanks, heq, hblanks⟩ := ih
    rw [trimEnd_cons]
    split
    · next hnone =>
      rw [hnone.1, List.nil_append] at heq
      exact ⟨c :: t, rfl, List.forall_mem_cons.mpr ⟨hnone.2, heq ▸ hblanks⟩⟩
    · exact ⟨blanks, by rw [List.cons_append, ← heq], hblanks⟩

/-- Trimming takes blanks from both ends of a text and nothing else. -/
theorem exists_eq_append_trim (t : Text) :
    ∃ before after, t = before ++ (trim t ++ after) ∧ (∀ c ∈ before, isBlank c = true) ∧
      ∀ c ∈ after, isBlank c = true := by
  obtain ⟨after, hafter, hblank⟩ := exists_eq_trimEnd_append (skipBlanks t)
  refine ⟨t.takeWhile isBlank, after, ?_, fun c hc => ?_, hblank⟩
  · rw [trim, ← hafter]
    exact List.takeWhile_append_dropWhile.symm
  · exact List.all_eq_true.mp List.all_takeWhile c hc

theorem isBlank_of_trim_eq_nil {t : Text} (h : trim t = []) : ∀ c ∈ t, isBlank c = true := by
  obtain ⟨before, after, ht, hbefore, hafter⟩ := exists_eq_append_trim t
  rw [ht, h, List.nil_append, List.forall_mem_append]
  exact ⟨hbefore, hafter⟩

theorem mem_trim_iff (t : Text) {c : Char} (hc : isBlank c = false) : c ∈ trim t ↔ c ∈ t := by
  obtain ⟨before, after, ht, hbefore, hafter⟩ := exists_eq_append_trim t
  have hmem : c ∈ before ++ (trim t ++ after) ↔ c ∈ trim t := by
    simp [notMem_blanks hbefore hc, notMem_blanks hafter hc]
  rw [← ht] at hmem
  exact hmem.symm

theorem words_trim (t : Text) : words (trim t) = words t := by
  obtain ⟨before, after, ht, hbefore, hafter⟩ := exists_eq_append_trim t
  have hwords : words (before ++ (trim t ++ after)) = words (trim t) := by
    rw [words_blanks_append before _ hbefore, words_append_blanks _ after hafter]
  rw [← ht] at hwords
  exact hwords.symm

theorem isBlank_getLast?_trimEnd (t : Text) : (trimEnd t).getLast?.any isBlank = false := by
  rw [trimEnd, List.getLast?_reverse]
  exact isBlank_head?_skipBlanks t.reverse

theorem isBlank_head?_trimEnd {t : Text} (h : t.head?.any isBlank = false) :
    (trimEnd t).head?.any isBlank = false := by
  by_cases hnil : trimEnd t = []
  · rw [hnil]
    rfl
  · rwa [head?_trimEnd t hnil]

theorem isBlank_head?_trim (t : Text) : (trim t).head?.any isBlank = false :=
  isBlank_head?_trimEnd (isBlank_head?_skipBlanks t)

theorem isBlank_getLast?_trim (t : Text) : (trim t).getLast?.any isBlank = false :=
  isBlank_getLast?_trimEnd _

/-- Nothing is left of a text without words. -/
theorem trim_eq_nil_iff (t : Text) : trim t = [] ↔ words t = [] := by
  constructor
  · intro h
    rw [← words_trim, h]
    rfl
  · intro h
    by_contra hne
    obtain ⟨c, rest, htrim⟩ := List.exists_cons_of_ne_nil hne
    have hfirst := isBlank_head?_trim t
    rw [htrim] at hfirst
    refine squeeze_ne_nil rest c hfirst ?_
    rw [squeeze, ← htrim, words_trim, h]
    rfl

theorem squeezed_squeeze (t : Text) : Squeezed (squeeze t) := by
  rw [squeeze_eq_trim_collapse]
  refine ⟨?_, isBlank_head?_trim _, isBlank_getLast?_trim _⟩
  rw [← trim_collapse, collapse_collapse]

theorem Squeezed.squeeze_eq {t : Text} (h : Squeezed t) : squeeze t = t := by
  rw [squeeze_eq_trim_collapse, h.collapsed, trim, skipBlanks_eq_self h.first,
    trimEnd_eq_self h.last]

theorem collapse_append_char (t u : Text) (hu : u.head?.any isBlank = false) :
    collapse (t ++ u) = collapse t ++ collapse u := by
  induction t using collapse_induction with
  | nil => rfl
  | char c t hc ih =>
    rw [List.cons_append, collapse_char c _ hc, ih, collapse_char c t hc, List.cons_append]
  | gap c t hc ht ih =>
    have hnext : (t ++ u).head?.any isBlank = false := by cases t <;> assumption
    rw [List.cons_append, collapse_gap c _ hc hnext, ih, collapse_gap c t hc ht, List.cons_append]
  | more c d t hc hd ih =>
    rw [List.cons_append, List.cons_append, collapse_more c d _ hc hd, ← List.cons_append, ih,
      collapse_more c d t hc hd]

theorem trimEnd_append (t : Text) {u : Text} (hu : trimEnd u ≠ []) :
    trimEnd (t ++ u) = t ++ trimEnd u := by
  induction t with
  | nil => rfl
  | cons c t ih =>
    have hne : trimEnd (t ++ u) ≠ [] := by
      rw [ih]
      exact List.append_ne_nil_of_right_ne_nil t hu
    rw [List.cons_append, trimEnd_cons, if_neg fun h => hne h.1, ih, List.cons_append]

theorem skipBlanks_append_char (t : Text) (c : Char) (u : Text) (hc : isBlank c = false) :
    skipBlanks (t ++ c :: u) = skipBlanks t ++ c :: u := by
  rw [skipBlanks, List.dropWhile_append]
  cases hskip : t.dropWhile isBlank with
  | nil =>
    rw [skipBlanks, hskip]
    exact skipBlanks_cons c u hc
  | cons d rest =>
    rw [skipBlanks, hskip]
    rfl

/-- A collapsed text ends with one space or none behind its last word. -/
theorem exists_trimEnd_append (t : Text) :
    ∃ gap, (gap = [] ∨ gap = [' ']) ∧ collapse t = trimEnd (collapse t) ++ gap := by
  induction t using collapse_induction with
  | nil => exact ⟨[], .inl rfl, rfl⟩
  | char c t hc ih =>
    obtain ⟨gap, hgap, heq⟩ := ih
    refine ⟨gap, hgap, ?_⟩
    rw [collapse_char c t hc, trimEnd_cons, if_neg (by simp [hc]), List.cons_append, ← heq]
  | gap c t hc ht ih =>
    obtain ⟨gap, hgap, heq⟩ := ih
    rw [collapse_gap c t hc ht, trimEnd_cons]
    by_cases hnil : trimEnd (collapse t) = []
    · -- the text before the last blank is empty, so nothing stands behind it
      have hstart := isBlank_head?_collapse t
      rw [ht, heq, hnil, List.nil_append] at hstart
      rcases hgap with rfl | rfl
      · refine ⟨[' '], .inr rfl, ?_⟩
        rw [if_pos ⟨hnil, rfl⟩, heq, hnil]
        rfl
      · cases hstart
    · refine ⟨gap, hgap, ?_⟩
      rw [if_neg fun h => hnil h.1, List.cons_append, ← heq]
  | more c d t hc hd ih => rwa [collapse_more c d t hc hd]

/-- What may be left between two squeezed parts is blank. -/
theorem isBlank_of_gap {gap : Text} (h : gap = [] ∨ gap = [' ']) : ∀ c ∈ gap, isBlank c = true := by
  rcases h with rfl | rfl <;> simp [isBlank]

/-- Before a character that is no blank, at most one space is left of the blanks. -/
theorem exists_squeeze_append (t : Text) (c : Char) (u : Text) (hc : isBlank c = false) :
    ∃ gap, (gap = [] ∨ gap = [' ']) ∧
      squeeze (t ++ c :: u) = squeeze t ++ gap ++ squeeze (c :: u) := by
  have hword : collapse (c :: u) = c :: collapse u := collapse_char c u hc
  have hlast : trimEnd (c :: collapse u) ≠ [] := by
    rw [trimEnd_cons, if_neg (by simp [hc])]
    exact List.cons_ne_nil _ _
  obtain ⟨gap, hgap, heq⟩ := exists_trimEnd_append (skipBlanks t)
  refine ⟨gap, hgap, ?_⟩
  calc squeeze (t ++ c :: u)
      = trim (collapse t ++ c :: collapse u) := by
        rw [squeeze_eq_trim_collapse, collapse_append_char t (c :: u) hc, hword]
    _ = collapse (skipBlanks t) ++ trimEnd (c :: collapse u) := by
        rw [trim, skipBlanks_append_char _ c _ hc, trimEnd_append _ hlast, skipBlanks_collapse]
    _ = squeeze t ++ gap ++ squeeze (c :: u) := by
        rw [squeeze_eq_trim_collapse t, squeeze_eq_trim_collapse (c :: u), trim, trim,
          skipBlanks_collapse, ← heq, hword, skipBlanks_cons c _ hc]

theorem length_collapse_le (t : Text) : (collapse t).length ≤ t.length := by
  induction t using collapse_induction with
  | nil => exact Nat.le_refl _
  | char c t hc ih =>
    rw [collapse_char c t hc]
    exact Nat.succ_le_succ ih
  | gap c t hc ht ih =>
    rw [collapse_gap c t hc ht]
    exact Nat.succ_le_succ ih
  | more c d t hc hd ih =>
    rw [collapse_more c d t hc hd]
    exact Nat.le_succ_of_le ih

/-- A collapsed text goes on behind a space with another character than a blank. -/
theorem collapse_cons_eq_self_iff (c : Char) (t : Text) :
    collapse (c :: t) = c :: t ↔
      collapse t = t ∧ (isBlank c = true → c = ' ' ∧ t.head?.any isBlank = false) := by
  cases hc : isBlank c with
  | false =>
    rw [collapse_char c t hc]
    simp
  | true =>
    cases ht : t.head?.any isBlank with
    | false =>
      rw [collapse_gap c t hc ht, List.cons.injEq]
      exact ⟨fun h => ⟨h.2, fun _ => ⟨h.1.symm, rfl⟩⟩, fun h => ⟨(h.2 rfl).1.symm, h.1⟩⟩
    | true =>
      refine ⟨fun h => ?_, fun h => absurd (h.2 rfl).2 (by simp)⟩
      obtain ⟨d, u, rfl, hd⟩ := exists_cons_of_any_head? ht
      have hlength := length_collapse_le (d :: u)
      rw [← collapse_more c d u hc hd, h] at hlength
      exact absurd hlength (Nat.not_succ_le_self _)

theorem collapse_eq_self_append {t u : Text} (h : collapse (t ++ u) = t ++ u) :
    collapse t = t ∧ collapse u = u := by
  induction t with
  | nil => exact ⟨rfl, h⟩
  | cons c t ih =>
    obtain ⟨hrest, hblank⟩ := (collapse_cons_eq_self_iff c (t ++ u)).mp h
    refine ⟨(collapse_cons_eq_self_iff c t).mpr ⟨(ih hrest).1, fun hc => ?_⟩, (ih hrest).2⟩
    refine ⟨(hblank hc).1, ?_⟩
    cases t with
    | nil => rfl
    | cons d t => exact (hblank hc).2

theorem squeeze_append_blanks (t blanks : Text) (hblanks : ∀ c ∈ blanks, isBlank c = true) :
    squeeze (t ++ blanks) = squeeze t := by
  rw [squeeze, words_append_blanks t blanks hblanks, squeeze]

theorem getLast?_squeeze_ne_space (t : Text) : (squeeze t).getLast? ≠ some ' ' := by
  intro h
  have hlast := (squeezed_squeeze t).last
  rw [h] at hlast
  cases hlast

theorem squeeze_char_blanks (c : Char) (blanks : Text) (hc : isBlank c = false)
    (hblanks : ∀ d ∈ blanks, isBlank d = true) : squeeze (c :: blanks) = [c] := by
  rw [← List.singleton_append, squeeze_append_blanks [c] blanks hblanks, squeeze,
    words_word [c] (List.cons_ne_nil _ _) (List.forall_mem_singleton.mpr hc)]
  rfl

theorem getLast?_squeeze {t : Text} {c : Char} (h : t.getLast? = some c) (hc : isBlank c = false) :
    (squeeze t).getLast? = some c := by
  obtain ⟨start, rfl⟩ := List.getLast?_eq_some_iff.mp h
  obtain ⟨gap, -, heq⟩ := exists_squeeze_append start c [] hc
  rw [heq, squeeze_char_blanks c [] hc (by simp), List.getLast?_concat]

theorem join_append (separator : Text) {ps qs : List Text} (hps : ps ≠ []) (hqs : qs ≠ []) :
    join separator (ps ++ qs) = join separator ps ++ separator ++ join separator qs := by
  induction ps with
  | nil => exact absurd rfl hps
  | cons p ps ih =>
    rw [List.cons_append, join_cons_of_ne_nil _ _ (List.append_ne_nil_of_right_ne_nil ps hqs)]
    by_cases hnil : ps = []
    · rw [hnil]
      simp [join]
    · rw [ih hnil, join_cons_of_ne_nil _ _ hnil]
      simp only [List.append_assoc]

/-- A gap between words becomes one space. -/
theorem squeeze_gap (t u gap : Text) (hne : gap ≠ []) (hgap : ∀ c ∈ gap, isBlank c = true)
    (ht : words t ≠ []) (hu : words u ≠ []) :
    squeeze (t ++ (gap ++ u)) = squeeze t ++ ' ' :: squeeze u := by
  rw [squeeze, words_gap t gap u hne hgap, join_append _ ht hu, List.append_assoc]
  rfl

theorem prefix_collapse_iff (part t : Text) (hpart : ∀ c ∈ part, isBlank c = false) :
    part <+: collapse t ↔ part <+: t := by
  rw [← not_iff_not, ← dropStart?_eq_none_iff, ← dropStart?_eq_none_iff,
    dropStart?_collapse part t hpart, Option.map_eq_none_iff]

/-- A word is all of a text but the blanks at its ends just when it is the only one. -/
theorem trim_eq_word_iff (t word : Text) (hne : word ≠ [])
    (hword : ∀ c ∈ word, isBlank c = false) : trim t = word ↔ words t = [word] := by
  constructor
  · intro h
    rw [← words_trim, h, words_word word hne hword]
  · intro h
    have hsqueeze : collapse (trim t) = word := by
      rw [← trim_collapse, ← squeeze_eq_trim_collapse, squeeze, h]
      exact List.intercalate_singleton ..
    obtain ⟨rest, hrest⟩ := (prefix_collapse_iff word (trim t) hword).mp
      (hsqueeze ▸ List.prefix_rfl)
    rw [← hrest, collapse_word_append word rest hword] at hsqueeze
    have hnone : collapse rest = [] :=
      List.append_cancel_left (hsqueeze.trans (List.append_nil word).symm)
    rw [← hrest, (collapse_eq_nil_iff rest).mp hnone, List.append_nil]

theorem infix_of_infix_collapse {part t : Text} (hpart : ∀ c ∈ part, isBlank c = false)
    (h : part <:+: collapse t) : part <:+: t := by
  have hstart (u : Text) (hu : part <+: collapse u) : part <:+: u :=
    ((prefix_collapse_iff part u hpart).mp hu).isInfix
  induction t using collapse_induction with
  | nil => exact h
  | char c t hc ih =>
    rw [collapse_char c t hc] at h
    rcases List.infix_cons_iff.mp h with hprefix | hlater
    · exact hstart _ (by rwa [collapse_char c t hc])
    · exact List.infix_cons (ih hlater)
  | gap c t hc ht ih =>
    rw [collapse_gap c t hc ht] at h
    rcases List.infix_cons_iff.mp h with hprefix | hlater
    · exact hstart _ (by rwa [collapse_gap c t hc ht])
    · exact List.infix_cons (ih hlater)
  | more c d t hc hd ih =>
    rw [collapse_more c d t hc hd] at h
    exact List.infix_cons (ih h)

theorem trim_isInfix (t : Text) : trim t <:+: t := by
  have hend : trimEnd (skipBlanks t) <+: skipBlanks t := by
    rw [trimEnd, ← List.reverse_suffix, List.reverse_reverse]
    exact List.dropWhile_suffix _
  exact hend.isInfix.trans (List.dropWhile_suffix _).isInfix

/-- What occurs in a squeezed text and has no blanks was there before. -/
theorem infix_of_infix_squeeze {part t : Text} (hpart : ∀ c ∈ part, isBlank c = false)
    (h : part <:+: squeeze t) : part <:+: t := by
  rw [squeeze_eq_trim_collapse] at h
  exact infix_of_infix_collapse hpart (h.trans (trim_isInfix _))

end NativeGlue.Text
