import NativeGlue.Text.Commas

/-!
Texts taken apart where they were joined. Words end at every blank, and a list is cut at its
commas, so that joined words are the words again and joined elements are the elements with the
space before each.
-/

namespace NativeGlue.Text

theorem join_cons_cons (separator piece next : Text) (pieces : List Text) :
    join separator (piece :: next :: pieces) =
      piece ++ separator ++ join separator (next :: pieces) := by
  simp [join, List.intercalate_cons_cons]

theorem forall_mem_join (separator : Text) (pieces : List Text) (P : Char → Prop)
    (hseparator : ∀ c ∈ separator, P c) (hpieces : ∀ p ∈ pieces, ∀ c ∈ p, P c) :
    ∀ c ∈ join separator pieces, P c := by
  induction pieces with
  | nil => simp [join]
  | cons piece pieces ih =>
    cases pieces with
    | nil => simpa [join] using hpieces piece List.mem_cons_self
    | cons next pieces =>
      rw [join_cons_cons]
      simp only [List.mem_append]
      rintro c ((hc | hc) | hc)
      · exact hpieces piece List.mem_cons_self c hc
      · exact hseparator c hc
      · exact ih (fun p hp => hpieces p (List.mem_cons_of_mem piece hp)) c hc

theorem prefix_join (separator first : Text) (pieces : List Text) :
    first <+: join separator (first :: pieces) := by
  cases pieces with
  | nil => simp [join]
  | cons next pieces =>
    rw [join_cons_cons, List.append_assoc]
    exact List.prefix_append first _

theorem join_eq_nil_iff {separator : Text} {pieces : List Text} (h : ∀ p ∈ pieces, p ≠ []) :
    join separator pieces = [] ↔ pieces = [] := by
  cases pieces with
  | nil => exact ⟨fun _ => rfl, fun _ => rfl⟩
  | cons first rest =>
    obtain ⟨hfirst, -⟩ := List.forall_mem_cons.mp h
    refine ⟨fun hnil => ?_, fun hcons => absurd hcons (List.cons_ne_nil _ _)⟩
    exact absurd (List.prefix_nil.mp (hnil ▸ prefix_join separator first rest)) hfirst

/-- The last of several joined pieces ends the text. -/
theorem suffix_join (separator : Text) (pieces : List Text) (last : Text) :
    last <:+ join separator (pieces ++ [last]) := by
  induction pieces with
  | nil => simp [join]
  | cons piece pieces ih =>
    obtain ⟨next, rest, hrest⟩ := List.exists_cons_of_ne_nil
      (List.append_ne_nil_of_right_ne_nil pieces (List.cons_ne_nil last []))
    rw [List.cons_append, hrest, join_cons_cons, ← hrest]
    exact ih.trans (List.suffix_append _ _)

theorem wordsFrom_char (word t : Text) {c : Char} (hc : isBlank c = false) :
    wordsFrom word (c :: t) = wordsFrom (word ++ [c]) t := by
  rw [wordsFrom, hc, if_neg Bool.false_ne_true]

theorem wordsFrom_blank {word : Text} (t : Text) {c : Char} (hc : isBlank c = true)
    (hne : word ≠ []) : wordsFrom word (c :: t) = word :: words t := by
  rw [wordsFrom, if_pos hc, if_neg (by simpa using hne), words]

/-- A word that has begun is read. -/
theorem wordsFrom_ne_nil {word : Text} (t : Text) (hne : word ≠ []) : wordsFrom word t ≠ [] := by
  induction t generalizing word with
  | nil =>
    rw [wordsFrom, if_neg (by simpa using hne)]
    exact List.cons_ne_nil _ _
  | cons c t ih =>
    cases hc : isBlank c with
    | true =>
      rw [wordsFrom_blank t hc hne]
      exact List.cons_ne_nil _ _
    | false =>
      rw [wordsFrom_char word t hc]
      exact ih (by simp)

theorem words_cons_ne_nil (t : Text) {c : Char} (hc : isBlank c = false) : words (c :: t) ≠ [] := by
  rw [words, wordsFrom_char [] t hc]
  exact wordsFrom_ne_nil t (List.cons_ne_nil c [])

theorem wordsFrom_append_blank (word before after : Text) (c : Char) (hc : isBlank c = true) :
    wordsFrom word (before ++ c :: after) = wordsFrom word before ++ words after := by
  induction before generalizing word with
  | nil =>
    simp only [List.nil_append, wordsFrom, hc, if_true, words]
    split <;> rfl
  | cons d before ih =>
    simp only [List.cons_append, wordsFrom]
    split
    · split
      · exact ih []
      · rw [ih [], List.cons_append]
    · exact ih (word ++ [d])

/-- No word reaches across a blank. -/
theorem words_append_blank (before after : Text) (c : Char) (hc : isBlank c = true) :
    words (before ++ c :: after) = words before ++ words after :=
  wordsFrom_append_blank [] before after c hc

theorem words_blanks_append (blanks t : Text) (hblanks : ∀ c ∈ blanks, isBlank c = true) :
    words (blanks ++ t) = words t := by
  induction blanks with
  | nil => rfl
  | cons c blanks ih =>
    have hfirst := words_append_blank [] (blanks ++ t) c (hblanks c List.mem_cons_self)
    rw [List.nil_append] at hfirst
    rw [List.cons_append, hfirst, ih fun d hd => hblanks d (List.mem_cons_of_mem c hd)]
    rfl

theorem words_append_blanks (t blanks : Text) (hblanks : ∀ c ∈ blanks, isBlank c = true) :
    words (t ++ blanks) = words t := by
  cases blanks with
  | nil => rw [List.append_nil]
  | cons c blanks =>
    have hnone := words_blanks_append blanks [] fun d hd => hblanks d (List.mem_cons_of_mem c hd)
    rw [List.append_nil] at hnone
    rw [words_append_blank t blanks c (hblanks c List.mem_cons_self), hnone]
    exact List.append_nil (words t)

theorem words_gap (before gap after : Text) (hne : gap ≠ []) (hgap : ∀ c ∈ gap, isBlank c = true) :
    words (before ++ (gap ++ after)) = words before ++ words after := by
  obtain ⟨c, gap, rfl⟩ := List.exists_cons_of_ne_nil hne
  obtain ⟨hc, hlater⟩ := List.forall_mem_cons.mp hgap
  rw [List.cons_append, words_append_blank _ _ c hc, words_blanks_append gap after hlater]

theorem forall_mem_wordsFrom (word t : Text) (hword : ∀ c ∈ word, isBlank c = false) :
    ∀ w ∈ wordsFrom word t, w ≠ [] ∧ ∀ c ∈ w, isBlank c = false := by
  induction t generalizing word with
  | nil =>
    unfold wordsFrom
    split
    · exact nofun
    · next hne => simpa using ⟨by simpa using hne, hword⟩
  | cons c t ih =>
    unfold wordsFrom
    split
    · split
      · exact ih [] nofun
      · next hne =>
        rw [List.forall_mem_cons]
        exact ⟨⟨by simpa using hne, hword⟩, ih [] nofun⟩
    · next hblank =>
      apply ih (word ++ [c])
      simp only [List.mem_append, List.mem_singleton]
      rintro d (hd | rfl)
      · exact hword d hd
      · simpa using hblank

/-- Words have characters, and none of them is blank. -/
theorem forall_mem_words (t : Text) :
    ∀ w ∈ words t, w ≠ [] ∧ ∀ c ∈ w, isBlank c = false :=
  forall_mem_wordsFrom [] t nofun

theorem wordsFrom_append (piece word t : Text) (hword : ∀ c ∈ word, isBlank c = false) :
    wordsFrom piece (word ++ t) = wordsFrom (piece ++ word) t := by
  induction word generalizing piece with
  | nil => rw [List.nil_append, List.append_nil]
  | cons c word ih =>
    obtain ⟨hc, hlater⟩ := List.forall_mem_cons.mp hword
    rw [List.cons_append, wordsFrom_char _ _ hc, ih _ hlater, List.append_assoc,
      List.singleton_append]

theorem words_word (word : Text) (hne : word ≠ []) (hword : ∀ c ∈ word, isBlank c = false) :
    words word = [word] := by
  have hread := wordsFrom_append [] word [] hword
  rw [List.append_nil, List.nil_append, wordsFrom, if_neg (by simp [hne])] at hread
  exact hread

/-- Joined words are the words. -/
theorem words_join (ws : List Text)
    (hws : ∀ w ∈ ws, w ≠ [] ∧ ∀ c ∈ w, isBlank c = false) : words (join [' '] ws) = ws := by
  induction ws with
  | nil => rfl
  | cons w ws ih =>
    obtain ⟨hne, hword⟩ := hws w List.mem_cons_self
    cases ws with
    | nil => simpa [join] using words_word w hne hword
    | cons next ws =>
      rw [join_cons_cons, List.append_assoc, List.singleton_append,
        words_append_blank _ _ ' ' rfl, words_word w hne hword,
        ih fun v hv => hws v (List.mem_cons_of_mem w hv)]
      rfl

theorem words_squeeze (t : Text) : words (squeeze t) = words t :=
  words_join (words t) (forall_mem_words t)

theorem skipBlanks_cons (c : Char) (t : Text) (hc : isBlank c = false) :
    skipBlanks (c :: t) = c :: t := by
  rw [skipBlanks, List.dropWhile_cons, hc, if_neg (by simp)]

theorem notMem_blanks {gap : Text} (hgap : ∀ c ∈ gap, isBlank c = true) {c : Char}
    (hc : isBlank c = false) : c ∉ gap := by
  intro hmem
  rw [hgap c hmem] at hc
  cases hc

theorem skipBlanks_blanks_append (blanks t : Text) (hblanks : ∀ c ∈ blanks, isBlank c = true) :
    skipBlanks (blanks ++ t) = skipBlanks t := by
  rw [skipBlanks, List.dropWhile_append_of_pos hblanks, skipBlanks]

/-- A run of characters ends where another kind begins. -/
theorem takeWhile_append_stop {p : Char → Bool} {run rest : Text} (hrun : ∀ c ∈ run, p c = true)
    (hrest : rest.head?.any p = false) :
    (run ++ rest).takeWhile p = run ∧ (run ++ rest).dropWhile p = rest := by
  rw [List.takeWhile_append_of_pos hrun, List.dropWhile_append_of_pos hrun]
  cases rest with
  | nil => simp
  | cons c rest =>
    have hc : ¬ p c = true := Bool.not_eq_true _ ▸ hrest
    rw [List.takeWhile_cons_of_neg hc, List.dropWhile_cons_of_neg hc, List.append_nil]
    exact ⟨rfl, rfl⟩

/-- Trimming a text that begins with a word takes blanks from its end and nothing else. -/
theorem exists_trim_cons (c : Char) (t : Text) (hc : isBlank c = false) :
    ∃ tail blanks, trim (c :: t) = c :: tail ∧ t = tail ++ blanks ∧
      ∀ d ∈ blanks, isBlank d = true := by
  let blanks := ((c :: t).reverse.takeWhile isBlank).reverse
  have hblanks : ∀ d ∈ blanks, isBlank d = true := fun d hd =>
    List.all_eq_true.mp List.all_takeWhile d (List.mem_reverse.mp hd)
  have hsplit : trim (c :: t) ++ blanks = c :: t := by
    rw [trim, skipBlanks_cons c t hc, trimEnd, skipBlanks, ← List.reverse_append,
      List.takeWhile_append_dropWhile, List.reverse_reverse]
  cases htrim : trim (c :: t) with
  | nil =>
    rw [htrim, List.nil_append] at hsplit
    rw [hblanks c (hsplit ▸ List.mem_cons_self)] at hc
    cases hc
  | cons d tail =>
    rw [htrim, List.cons_append, List.cons.injEq] at hsplit
    exact ⟨tail, blanks, by rw [hsplit.1], hsplit.2.symm, hblanks⟩

theorem trimEnd_append_singleton (t : Text) (c : Char) (hc : isBlank c = false) :
    trimEnd (t ++ [c]) = t ++ [c] := by
  rw [trimEnd, List.reverse_append, List.reverse_singleton, List.singleton_append,
    skipBlanks_cons c t.reverse hc, List.reverse_cons, List.reverse_reverse]

/-- A text that begins and ends with a word has nothing to trim. -/
theorem trim_eq_self (t first last : Text)
    (hfirst : first ≠ [] ∧ ∀ c ∈ first, isBlank c = false) (hfront : first <+: t)
    (hlast : last ≠ [] ∧ ∀ c ∈ last, isBlank c = false) (hsuffix : last <:+ t) : trim t = t := by
  have hkept : ∀ start u : Text, start ≠ [] → (∀ c ∈ start, isBlank c = false) → start <+: u →
      skipBlanks u = u := by
    rintro start u hne hstart ⟨more, rfl⟩
    obtain ⟨c, start, rfl⟩ := List.exists_cons_of_ne_nil hne
    exact skipBlanks_cons c (start ++ more) (hstart c List.mem_cons_self)
  have hbegin : skipBlanks t = t := hkept first t hfirst.1 hfirst.2 hfront
  have hend : skipBlanks t.reverse = t.reverse :=
    hkept last.reverse t.reverse (by simpa using hlast.1)
      (fun c hc => hlast.2 c (List.mem_reverse.mp hc)) (List.reverse_prefix.mpr hsuffix)
  rw [trim, trimEnd, hbegin, hend, List.reverse_reverse]

theorem piecesFrom_append (b : Brackets) (depth : Nat) (piece before after : Text)
    (hbefore : ∀ c ∈ before, c ≠ ',' ∧ b.opens c = false ∧ b.closes c = false) :
    piecesFrom b depth piece (before ++ after) = piecesFrom b depth (piece ++ before) after := by
  induction before generalizing piece with
  | nil => rw [List.nil_append, List.append_nil]
  | cons c before ih =>
    obtain ⟨hcomma, hopen, hclose⟩ := hbefore c List.mem_cons_self
    have hdepth : b.depthAfter depth c = depth := by simp [Brackets.depthAfter, hopen, hclose]
    rw [List.cons_append, piecesFrom, if_neg (by simp [hcomma]), hdepth,
      ih _ fun d hd => hbefore d (List.mem_cons_of_mem c hd), List.append_assoc,
      List.singleton_append]

/-- Joined elements are the elements, with the space before all but the first. -/
theorem piecesFrom_join (b : Brackets) (piece first : Text) (rest : List Text)
    (hspace : b.opens ' ' = false ∧ b.closes ' ' = false)
    (hrest : ∀ p ∈ first :: rest, ∀ c ∈ p, c ≠ ',' ∧ b.opens c = false ∧ b.closes c = false) :
    piecesFrom b 0 piece (join ", ".toList (first :: rest)) =
      (piece ++ first) :: rest.map (' ' :: ·) := by
  induction rest generalizing piece first with
  | nil =>
    have hjoin : join ", ".toList [first] = first ++ [] := by simp [join]
    rw [hjoin, piecesFrom_append b 0 piece first [] (hrest first List.mem_cons_self)]
    rfl
  | cons next rest ih =>
    have hjoin : join ", ".toList (first :: next :: rest) =
        first ++ ',' :: ' ' :: join ", ".toList (next :: rest) := by
      simp [join_cons_cons]
    have hdepth : b.depthAfter 0 ' ' = 0 := by simp [Brackets.depthAfter, hspace]
    rw [hjoin, piecesFrom_append b 0 piece first _ (hrest first List.mem_cons_self), piecesFrom,
      if_pos (by simp), piecesFrom, if_neg (by simp), hdepth,
      ih _ next fun p hp => hrest p (List.mem_cons_of_mem first hp)]
    rfl

/-- Blanks at the end of a list do not change the words of its elements. -/
theorem map_squeeze_piecesFrom_append (b : Brackets) (depth : Nat) (piece t blanks : Text)
    (hb : ∀ c, isBlank c = true → c ≠ ',' ∧ b.opens c = false ∧ b.closes c = false)
    (hblanks : ∀ c ∈ blanks, isBlank c = true) :
    (piecesFrom b depth piece (t ++ blanks)).map squeeze =
      (piecesFrom b depth piece t).map squeeze := by
  induction t generalizing depth piece with
  | nil =>
    have hpiece : piecesFrom b depth piece blanks = [piece ++ blanks] := by
      have hread := piecesFrom_append b depth piece blanks [] fun c hc => hb c (hblanks c hc)
      rwa [List.append_nil, piecesFrom] at hread
    rw [List.nil_append, hpiece, piecesFrom, List.map_singleton, List.map_singleton, squeeze,
      words_append_blanks piece blanks hblanks, squeeze]
  | cons c t ih =>
    rw [List.cons_append, piecesFrom, piecesFrom]
    split
    · rw [List.map_cons, List.map_cons, ih]
    · exact ih _ _

/-- Trimming a list does not change the words of its elements. -/
theorem map_squeeze_pieces (b : Brackets) (c : Char) (t : Text) (hc : isBlank c = false)
    (hb : ∀ c, isBlank c = true → c ≠ ',' ∧ b.opens c = false ∧ b.closes c = false) :
    (pieces b (c :: t)).map squeeze = (piecesFrom b 0 [] (c :: t)).map squeeze := by
  obtain ⟨tail, blanks, htrim, rfl, hblanks⟩ := exists_trim_cons c t hc
  rw [pieces, htrim]
  exact (map_squeeze_piecesFrom_append b 0 [] (c :: tail) blanks hb hblanks).symm

theorem squeeze_cons_blank (t : Text) (c : Char) (hc : isBlank c = true) :
    squeeze (c :: t) = squeeze t := by
  have hwords : words (c :: t) = words t := words_blanks_append [c] t (by simpa using hc)
  rw [squeeze, hwords, squeeze]

theorem squeeze_ne_nil (t : Text) (c : Char) (hc : isBlank c = false) : squeeze (c :: t) ≠ [] :=
  mt (join_eq_nil_iff fun w hw => (forall_mem_words _ w hw).1).mp (words_cons_ne_nil t hc)

end NativeGlue.Text
