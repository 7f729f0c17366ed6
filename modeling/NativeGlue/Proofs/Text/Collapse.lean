import NativeGlue.Proofs.Text.Splitting
import NativeGlue.Proofs.Text.Word

/-!
Texts up to their blanks. To collapse a text is to put one space for each of its runs of blanks.
Readers that see words, brackets or names read a collapsed text as they read the text, and a part
that they cut out of it is the collapsed part. Each of these facts goes by induction over the
runs: a blank before another blank is the case that a reader must not notice.
-/

namespace NativeGlue.Text

theorem ne_of_isBlank {c d : Char} (hc : isBlank c = true) (hd : isBlank d = false) : c ≠ d := by
  rintro rfl
  rw [hc] at hd
  cases hd

theorem isBlank_of_all {word : Text} (h : word.all isNamePart = true) :
    ∀ c ∈ word, isBlank c = false := fun c hc =>
  isBlank_of_isNamePart c (List.all_eq_true.mp h c hc)

theorem exists_cons_of_any_head? {t : Text} {p : Char → Bool} (h : t.head?.any p = true) :
    ∃ c u, t = c :: u ∧ p c = true := by
  cases t with
  | nil => cases h
  | cons c u => exact ⟨c, u, rfl, h⟩

/-- One space for each run of blanks. -/
def collapse : Text → Text
  | [] => []
  | c :: t =>
    if isBlank c then if t.head?.any isBlank then collapse t else ' ' :: collapse t
    else c :: collapse t

theorem collapse_nil : collapse [] = [] := rfl

theorem collapse_char (c : Char) (t : Text) (hc : isBlank c = false) :
    collapse (c :: t) = c :: collapse t := by
  rw [collapse, hc, if_neg (by simp)]

/-- The last blank of a run. -/
theorem collapse_gap (c : Char) (t : Text) (hc : isBlank c = true)
    (ht : t.head?.any isBlank = false) : collapse (c :: t) = ' ' :: collapse t := by
  rw [collapse, hc, if_pos rfl, ht, if_neg (by simp)]

theorem collapse_more (c d : Char) (t : Text) (hc : isBlank c = true) (hd : isBlank d = true) :
    collapse (c :: d :: t) = collapse (d :: t) := by
  rw [collapse, hc, if_pos rfl, List.head?_cons, Option.any_some, hd, if_pos rfl]

/-- Induction over the characters and the runs of blanks of a text. -/
theorem collapse_induction {P : Text → Prop} (nil : P [])
    (char : ∀ c t, isBlank c = false → P t → P (c :: t))
    (gap : ∀ c t, isBlank c = true → t.head?.any isBlank = false → P t → P (c :: t))
    (more : ∀ c d t, isBlank c = true → isBlank d = true → P (d :: t) → P (c :: d :: t))
    (t : Text) : P t := by
  induction t with
  | nil => exact nil
  | cons c t ih =>
    cases hc : isBlank c with
    | false => exact char c t hc ih
    | true =>
      cases ht : t.head?.any isBlank with
      | false => exact gap c t hc ht ih
      | true =>
        obtain ⟨d, u, rfl, hd⟩ := exists_cons_of_any_head? ht
        exact more c d u hc hd ih

theorem head?_collapse (t : Text) :
    (collapse t).head? = t.head?.map fun c => if isBlank c then ' ' else c := by
  induction t using collapse_induction with
  | nil => rfl
  | char c t hc ih =>
    rw [collapse_char c t hc]
    simp [hc]
  | gap c t hc ht ih =>
    rw [collapse_gap c t hc ht]
    simp [hc]
  | more c d t hc hd ih =>
    rw [collapse_more c d t hc hd, ih]
    simp [hc, hd]

/-- What tells characters apart, but not blanks from each other, sees the same first one. -/
theorem any_head?_collapse (t : Text) (p : Char → Bool)
    (hp : ∀ c, isBlank c = true → p c = p ' ') :
    (collapse t).head?.any p = t.head?.any p := by
  rw [head?_collapse]
  cases t with
  | nil => rfl
  | cons c t =>
    cases hc : isBlank c with
    | false => simp [hc]
    | true => simp [hc, hp c hc]

theorem isBlank_head?_collapse (t : Text) :
    (collapse t).head?.any isBlank = t.head?.any isBlank :=
  any_head?_collapse t isBlank fun _ hc => hc

theorem collapse_cons_congr {c d : Char} {t u : Text}
    (hcd : c = d ∨ isBlank c = true ∧ isBlank d = true) (h : collapse t = collapse u) :
    collapse (c :: t) = collapse (d :: u) := by
  have hhead : t.head?.any isBlank = u.head?.any isBlank := by
    rw [← isBlank_head?_collapse t, h, isBlank_head?_collapse u]
  rcases hcd with rfl | ⟨hc, hd⟩
  · simp only [collapse, h, hhead]
  · simp only [collapse, h, hhead, hc, hd, if_true]

theorem collapse_collapse (t : Text) : collapse (collapse t) = collapse t := by
  induction t using collapse_induction with
  | nil => rfl
  | char c t hc ih => rw [collapse_char c t hc, collapse_char c _ hc, ih]
  | gap c t hc ht ih =>
    rw [collapse_gap c t hc ht, collapse_gap ' ' _ rfl ((isBlank_head?_collapse t).trans ht), ih]
  | more c d t hc hd ih => rw [collapse_more c d t hc hd, ih]

theorem collapse_append_right (t : Text) {u v : Text} (h : collapse u = collapse v) :
    collapse (t ++ u) = collapse (t ++ v) := by
  induction t with
  | nil => exact h
  | cons c t ih => exact collapse_cons_congr (.inl rfl) ih

theorem collapse_append_collapse (t u : Text) : collapse (collapse t ++ u) = collapse (t ++ u) := by
  induction t using collapse_induction with
  | nil => rfl
  | char c t hc ih =>
    rw [collapse_char c t hc]
    exact collapse_cons_congr (.inl rfl) ih
  | gap c t hc ht ih =>
    rw [collapse_gap c t hc ht]
    exact collapse_cons_congr (.inr ⟨rfl, hc⟩) ih
  | more c d t hc hd ih =>
    rw [collapse_more c d t hc hd, ih]
    exact (collapse_more c d (t ++ u) hc hd).symm

theorem collapse_append {t t' u u' : Text} (ht : collapse t = collapse t')
    (hu : collapse u = collapse u') : collapse (t ++ u) = collapse (t' ++ u') := by
  rw [← collapse_append_collapse t u, ht, collapse_append_collapse]
  exact collapse_append_right t' hu

/-- A function that keeps a blank at the front goes on to keep runs of blanks apart from what it
does behind them. -/
theorem collapse_of_blank {f g : Text → Text}
    (hf : ∀ c t, isBlank c = true → f (c :: t) = c :: g t)
    (hg : ∀ c t, isBlank c = true → g (c :: t) = c :: g t) {c : Char} {t : Text}
    (hc : isBlank c = true) (hft : collapse (f (collapse t)) = collapse (f t))
    (hgt : collapse (g (collapse t)) = collapse (g t)) :
    collapse (f (collapse (c :: t))) = collapse (f (c :: t)) := by
  cases ht : t.head?.any isBlank with
  | false =>
    rw [collapse_gap c t hc ht, hf ' ' _ rfl, hf c t hc]
    exact collapse_cons_congr (.inr ⟨rfl, hc⟩) hgt
  | true =>
    obtain ⟨d, u, rfl, hd⟩ := exists_cons_of_any_head? ht
    rw [collapse_more c d u hc hd, hft, hf d u hd, hf c _ hc, hg d u hd, collapse_more c d _ hc hd]

theorem collapse_word_append (word t : Text) (hword : ∀ c ∈ word, isBlank c = false) :
    collapse (word ++ t) = word ++ collapse t := by
  induction word with
  | nil => rfl
  | cons c word ih =>
    obtain ⟨hc, hlater⟩ := List.forall_mem_cons.mp hword
    rw [List.cons_append, collapse_char c _ hc, ih hlater, List.cons_append]

/-- A run of blanks is one space. -/
theorem collapse_blanks {blanks : Text} (hne : blanks ≠ [])
    (hblanks : ∀ c ∈ blanks, isBlank c = true) : collapse blanks = [' '] := by
  induction blanks with
  | nil => exact absurd rfl hne
  | cons c blanks ih =>
    obtain ⟨hc, hlater⟩ := List.forall_mem_cons.mp hblanks
    cases blanks with
    | nil => exact collapse_gap c [] hc rfl
    | cons d blanks =>
      rw [collapse_more c d blanks hc (hlater d List.mem_cons_self)]
      exact ih (List.cons_ne_nil d blanks) hlater

theorem mem_collapse_iff (t : Text) (c : Char) (hc : isBlank c = false) :
    c ∈ collapse t ↔ c ∈ t := by
  have hother (d : Char) (hd : isBlank d = true) : c ≠ d := (ne_of_isBlank hd hc).symm
  induction t using collapse_induction with
  | nil => rfl
  | char d t hd ih => simp only [collapse_char d t hd, List.mem_cons, ih]
  | gap d t hd ht ih =>
    simp only [collapse_gap d t hd ht, List.mem_cons, ih, hother d hd, hother ' ' rfl]
  | more d e t hd he ih =>
    simp only [collapse_more d e t hd he, ih, List.mem_cons, hother d hd, false_or]

theorem wordsFrom_collapse (word t : Text) : wordsFrom word (collapse t) = wordsFrom word t := by
  induction t using collapse_induction generalizing word with
  | nil => rfl
  | char c t hc ih =>
    rw [collapse_char c t hc, wordsFrom, wordsFrom]
    simp [hc, ih]
  | gap c t hc ht ih =>
    rw [collapse_gap c t hc ht, wordsFrom, wordsFrom]
    simp [hc, ih, show isBlank ' ' = true from rfl]
  | more c d t hc hd ih =>
    rw [collapse_more c d t hc hd, ih]
    simp [wordsFrom, hc, hd]

theorem words_collapse (t : Text) : words (collapse t) = words t := wordsFrom_collapse [] t

theorem squeeze_collapse (t : Text) : squeeze (collapse t) = squeeze t := by
  rw [squeeze, words_collapse, squeeze]

theorem squeeze_congr {t u : Text} (h : collapse t = collapse u) : squeeze t = squeeze u := by
  rw [← squeeze_collapse t, h, squeeze_collapse]

theorem dropStart?_of_blank {start : Text} {c : Char} (t : Text) (hc : isBlank c = true)
    (hne : start ≠ []) (hstart : ∀ d ∈ start, isBlank d = false) :
    dropStart? start (c :: t) = none := by
  obtain ⟨d, start, rfl⟩ := List.exists_cons_of_ne_nil hne
  rw [dropStart?, if_neg (ne_of_isBlank hc (hstart d List.mem_cons_self)).symm]

/-- A beginning without blanks is taken from the collapsed text alike. -/
theorem dropStart?_collapse (start t : Text) (hstart : ∀ d ∈ start, isBlank d = false) :
    dropStart? start (collapse t) = (dropStart? start t).map collapse := by
  induction start generalizing t with
  | nil => rfl
  | cons d start ih =>
    cases t with
    | nil => rfl
    | cons c t =>
      cases hc : isBlank c with
      | false =>
        rw [collapse_char c t hc, dropStart?, dropStart?,
          ih t fun e he => hstart e (List.mem_cons_of_mem d he)]
        split <;> rfl
      | true =>
        rw [dropStart?_of_blank t hc (List.cons_ne_nil d start) hstart]
        have hhead := head?_collapse (c :: t)
        rw [List.head?_cons, Option.map_some, hc, if_pos rfl] at hhead
        obtain ⟨u, hu⟩ := List.head?_eq_some_iff.mp hhead
        rw [hu, dropStart?_of_blank u rfl (List.cons_ne_nil d start) hstart]
        rfl

theorem atNameBoundary_collapse (t : Text) :
    atNameBoundary (collapse t).head? = atNameBoundary t.head? := by
  rw [atNameBoundary, atNameBoundary, any_head?_collapse]
  intro c hc
  rw [isNamePart_of_isBlank c hc]
  rfl

theorem afterWordFrom?_blank (word t : Text) (before : Option Char) (c : Char) (hne : word ≠ [])
    (hword : ∀ d ∈ word, isBlank d = false) (hc : isBlank c = true) :
    afterWordFrom? word before (c :: t) = afterWordFrom? word none t := by
  rw [afterWordFrom?, dropStart?_of_blank t hc hne hword]
  refine afterWordFrom?_congr word t (some c) none ?_
  rw [atNameBoundary_some, isNamePart_of_isBlank c hc]
  rfl

theorem afterWordFrom?_collapse (word t : Text) (before : Option Char) (hne : word ≠ [])
    (hword : ∀ d ∈ word, isBlank d = false) :
    afterWordFrom? word before (collapse t) = (afterWordFrom? word before t).map collapse := by
  induction t using collapse_induction generalizing before with
  | nil => rfl
  | char c t hc ih =>
    have hdrop := dropStart?_collapse word (c :: t) hword
    rw [collapse_char c t hc] at hdrop ⊢
    rw [afterWordFrom?, afterWordFrom?, hdrop]
    cases dropStart? word (c :: t) with
    | none => exact ih (some c)
    | some after =>
      simp only [Option.map_some, atNameBoundary_collapse, ih]
      split <;> rfl
  | gap c t hc ht ih =>
    rw [collapse_gap c t hc ht, afterWordFrom?_blank word _ before ' ' hne hword rfl,
      afterWordFrom?_blank word t before c hne hword hc, ih]
  | more c d t hc hd ih =>
    rw [collapse_more c d t hc hd, ih, afterWordFrom?_blank word t before d hne hword hd,
      afterWordFrom?_blank word _ before c hne hword hc,
      afterWordFrom?_blank word t none d hne hword hd]

theorem hasWord_collapse (word t : Text) (hne : word ≠ [])
    (hword : ∀ d ∈ word, isBlank d = false) : hasWord word (collapse t) = hasWord word t := by
  rw [hasWord, afterWordFrom?_collapse word t none hne hword, Option.isSome_map, hasWord]

/-- Characters are taken from the front until a blank at the latest. -/
theorem takeWhile_collapse (p : Char → Bool) (t : Text) (hp : ∀ c, isBlank c = true → p c = false) :
    (collapse t).takeWhile p = t.takeWhile p ∧
      (collapse t).dropWhile p = collapse (t.dropWhile p) := by
  have hstop (c : Char) (u : Text) (hc : isBlank c = true) :
      (c :: u).takeWhile p = [] ∧ (c :: u).dropWhile p = c :: u := by
    simp [hp c hc]
  induction t using collapse_induction with
  | nil => exact ⟨rfl, rfl⟩
  | char c t hc ih =>
    rw [collapse_char c t hc]
    cases hpc : p c with
    | false => simp [hpc, collapse_char c t hc]
    | true => simp [hpc, ih]
  | gap c t hc ht ih =>
    rw [collapse_gap c t hc ht, (hstop c t hc).1, (hstop c t hc).2, (hstop ' ' _ rfl).1,
      (hstop ' ' _ rfl).2, collapse_gap c t hc ht]
    exact ⟨rfl, rfl⟩
  | more c d t hc hd ih =>
    rw [(hstop d t hd).1, (hstop d t hd).2] at ih
    rw [collapse_more c d t hc hd, (hstop c _ hc).1, (hstop c _ hc).2, collapse_more c d t hc hd]
    exact ih

/-- Characters are taken from the front together with the blanks among them. -/
theorem takeWhile_collapse_blank (p : Char → Bool) (t : Text)
    (hp : ∀ c, isBlank c = true → p c = true) :
    (collapse t).takeWhile p = collapse (t.takeWhile p) ∧
      (collapse t).dropWhile p = collapse (t.dropWhile p) := by
  induction t using collapse_induction with
  | nil => exact ⟨rfl, rfl⟩
  | char c t hc ih =>
    rw [collapse_char c t hc]
    cases hpc : p c with
    | false => simp [hpc, collapse_char c t hc, collapse_nil]
    | true => simp [hpc, ih, collapse_char c _ hc]
  | gap c t hc ht ih =>
    have hfront : (t.takeWhile p).head?.any isBlank = false := by
      cases t with
      | nil => rfl
      | cons d t => cases hd : p d <;> simp_all
    rw [collapse_gap c t hc ht, List.takeWhile_cons_of_pos (hp ' ' rfl),
      List.dropWhile_cons_of_pos (hp ' ' rfl), List.takeWhile_cons_of_pos (hp c hc),
      List.dropWhile_cons_of_pos (hp c hc), ih.1, ih.2, collapse_gap c _ hc hfront]
    exact ⟨rfl, rfl⟩
  | more c d t hc hd ih =>
    rw [collapse_more c d t hc hd, ih.1, ih.2, List.takeWhile_cons_of_pos (hp c hc),
      List.dropWhile_cons_of_pos (hp c hc), List.takeWhile_cons_of_pos (hp d hd),
      collapse_more c d _ hc hd]
    exact ⟨rfl, rfl⟩

theorem skipBlanks_collapse (t : Text) : skipBlanks (collapse t) = collapse (skipBlanks t) :=
  (takeWhile_collapse_blank isBlank t fun _ hc => hc).2

theorem collapse_eq_nil_iff (t : Text) : collapse t = [] ↔ t = [] := by
  rw [← List.head?_eq_none_iff, head?_collapse, Option.map_eq_none_iff, List.head?_eq_none_iff]

theorem trimEnd_cons (c : Char) (t : Text) :
    trimEnd (c :: t) = if trimEnd t = [] ∧ isBlank c = true then [] else c :: trimEnd t := by
  simp only [trimEnd, skipBlanks, List.reverse_cons, List.dropWhile_append, List.reverse_eq_nil_iff]
  cases h : t.reverse.dropWhile isBlank with
  | nil => cases hc : isBlank c <;> simp [hc]
  | cons d u => simp

theorem head?_trimEnd (t : Text) (h : trimEnd t ≠ []) : (trimEnd t).head? = t.head? := by
  cases t with
  | nil => exact absurd rfl h
  | cons c t =>
    rw [trimEnd_cons] at h ⊢
    split at h
    · exact absurd rfl h
    · next hkept => rw [if_neg hkept, List.head?_cons, List.head?_cons]

theorem trimEnd_collapse (t : Text) : trimEnd (collapse t) = collapse (trimEnd t) := by
  induction t using collapse_induction with
  | nil => rfl
  | char c t hc ih =>
    rw [collapse_char c t hc, trimEnd_cons, trimEnd_cons, if_neg (by simp [hc]),
      if_neg (by simp [hc]), collapse_char c _ hc, ih]
  | gap c t hc ht ih =>
    have hiff := collapse_eq_nil_iff (trimEnd t)
    rw [collapse_gap c t hc ht, trimEnd_cons, trimEnd_cons, ih]
    by_cases hnil : trimEnd t = []
    · rw [if_pos ⟨hiff.mpr hnil, rfl⟩, if_pos ⟨hnil, hc⟩, collapse_nil]
    · rw [if_neg fun h => hnil (hiff.mp h.1), if_neg fun h => hnil h.1, collapse_gap c _ hc]
      rwa [head?_trimEnd t hnil]
  | more c d t hc hd ih =>
    rw [collapse_more c d t hc hd, ih, trimEnd_cons c]
    by_cases hnil : trimEnd (d :: t) = []
    · rw [if_pos ⟨hnil, hc⟩, hnil]
    · have hhead := head?_trimEnd (d :: t) hnil
      obtain ⟨u, hu⟩ := List.head?_eq_some_iff.mp hhead
      rw [if_neg fun h => hnil h.1, hu, collapse_more c d u hc hd]

theorem trim_collapse (t : Text) : trim (collapse t) = collapse (trim t) := by
  rw [trim, skipBlanks_collapse, trimEnd_collapse, trim]

/-- What was read of an element counts up to its blanks. -/
theorem map_collapse_piecesFrom_congr (b : Brackets) (depth : Nat) {piece piece' : Text} (t : Text)
    (h : collapse piece = collapse piece') :
    (piecesFrom b depth piece t).map collapse = (piecesFrom b depth piece' t).map collapse := by
  induction t generalizing depth piece piece' with
  | nil =>
    rw [piecesFrom, piecesFrom, List.map_singleton, List.map_singleton, h]
  | cons c t ih =>
    rw [piecesFrom, piecesFrom]
    split
    · rw [List.map_cons, List.map_cons, h]
    · exact ih _ (collapse_append h rfl)

theorem map_collapse_piecesFrom (b : Brackets) (depth : Nat) (piece t : Text)
    (hb : ∀ c, isBlank c = true → c ≠ ',' ∧ b.opens c = false ∧ b.closes c = false) :
    (piecesFrom b depth piece (collapse t)).map collapse =
      (piecesFrom b depth piece t).map collapse := by
  have hblank (c : Char) (hc : isBlank c = true) (depth : Nat) (piece u : Text) :
      piecesFrom b depth piece (c :: u) = piecesFrom b depth (piece ++ [c]) u := by
    obtain ⟨hcomma, hopens, hcloses⟩ := hb c hc
    rw [piecesFrom, if_neg (by simp [hcomma])]
    simp [Brackets.depthAfter, hopens, hcloses]
  induction t using collapse_induction generalizing depth piece with
  | nil => rfl
  | char c t hc ih =>
    rw [collapse_char c t hc, piecesFrom, piecesFrom]
    split
    · rw [List.map_cons, List.map_cons, ih]
    · exact ih _ _
  | gap c t hc ht ih =>
    rw [collapse_gap c t hc ht, hblank ' ' rfl, hblank c hc, ih]
    exact map_collapse_piecesFrom_congr b depth t
      (collapse_append rfl (collapse_cons_congr (.inr ⟨rfl, hc⟩) rfl))
  | more c d t hc hd ih =>
    rw [collapse_more c d t hc hd, ih, hblank d hd, hblank c hc, hblank d hd, List.append_assoc]
    exact map_collapse_piecesFrom_congr b depth t
      (collapse_append rfl (collapse_more c d [] hc hd).symm)

/-- The elements of a list up to their blanks. -/
theorem map_collapse_pieces (b : Brackets) (t : Text)
    (hb : ∀ c, isBlank c = true → c ≠ ',' ∧ b.opens c = false ∧ b.closes c = false) :
    (pieces b (collapse t)).map collapse = (pieces b t).map collapse := by
  have hempty : (trim (collapse t)).isEmpty = (trim t).isEmpty := by
    rw [trim_collapse, Bool.eq_iff_iff, List.isEmpty_iff, List.isEmpty_iff, collapse_eq_nil_iff]
  rw [pieces, pieces, hempty]
  split
  · rfl
  · rw [trim_collapse, map_collapse_piecesFrom b 0 [] (trim t) hb]

end NativeGlue.Text
