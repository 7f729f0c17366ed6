import NativeGlue.Header.TypeName
import NativeGlue.Proofs.Text.Splitting

/-!
The normal spelling of native types. It has a space between two words of a type unless a star
stands on either side of the space. A star therefore cuts a type in two parts, each of which is
spelled as it would be alone.
-/

namespace NativeGlue.Header

open Text

/-- A word before the rest of a type. A star at the place where they meet needs no space. -/
def attach (word rest : Text) : Text :=
  if rest = [] ∨ word.getLast? = some '*' ∨ rest.head? = some '*' then word ++ rest
  else word ++ ' ' :: rest

/-- The words of a type, with no more spaces than keep them apart. -/
def tight (t : Text) : Text := (words t).foldr attach []

theorem attach_nil (word : Text) : attach word [] = word := by
  rw [attach, if_pos (.inl rfl), List.append_nil]

theorem attach_append (front word rest : Text) (hword : word ≠ []) :
    attach (front ++ word) rest = front ++ attach word rest := by
  have hlast : (front ++ word).getLast? = word.getLast? := by
    simp [List.getLast?_append, List.getLast?_eq_some_getLast hword]
  unfold attach
  rw [hlast]
  split <;> simp only [List.append_assoc]

theorem attach_star (word rest : Text) (h : word.getLast? = some '*') :
    attach word rest = word ++ rest := by
  rw [attach, if_pos (.inr (.inl h))]

/-- What follows a star does not matter before it. -/
theorem attach_append_star (word front rest : Text) :
    attach word (front ++ '*' :: rest) = attach word front ++ '*' :: rest := by
  cases front with
  | nil => rw [attach_nil, List.nil_append, attach, if_pos (.inr (.inr rfl))]
  | cons c front =>
    unfold attach
    simp only [List.cons_append, List.head?_cons, reduceCtorEq, false_or]
    split <;> simp

theorem head?_attach (word rest : Text) (hword : word ≠ []) :
    (attach word rest).head? = word.head? := by
  obtain ⟨c, word, rfl⟩ := List.exists_cons_of_ne_nil hword
  unfold attach
  split <;> rfl

/-- No space is dropped inside a word. -/
theorem tightenFrom_append (afterStar : Bool) (word rest : Text) (hne : word ≠ [])
    (hword : ∀ c ∈ word, c ≠ ' ') :
    tightenFrom afterStar (word ++ rest) =
      word ++ tightenFrom (word.getLast? = some '*') rest := by
  induction word generalizing afterStar with
  | nil => exact absurd rfl hne
  | cons c word ih =>
    have hc := hword c List.mem_cons_self
    cases word with
    | nil => cases rest <;> simp [tightenFrom, hc]
    | cons d word =>
      have hlater := ih (decide (c = '*')) (List.cons_ne_nil d word)
        fun e he => hword e (List.mem_cons_of_mem c he)
      rw [List.cons_append, List.cons_append, tightenFrom, if_neg (by simp [hc]),
        ← List.cons_append, hlater, List.getLast?_cons_cons]
      rfl

/-- Joined words lose the spaces that a star makes needless. -/
theorem tightenFrom_join (afterStar : Bool) (ws : List Text)
    (hws : ∀ w ∈ ws, w ≠ [] ∧ ∀ c ∈ w, isBlank c = false) :
    tightenFrom afterStar (join [' '] ws) = ws.foldr attach [] := by
  induction ws generalizing afterStar with
  | nil => rfl
  | cons w ws ih =>
    rw [List.forall_mem_cons] at hws
    obtain ⟨hne, hword⟩ := hws.1
    have hspace : ∀ c ∈ w, c ≠ ' ' := by
      rintro c hc rfl
      cases hword ' ' hc
    cases ws with
    | nil =>
      have hjoin : join [' '] [w] = w ++ [] := by simp [join]
      rw [hjoin, tightenFrom_append afterStar w [] hne hspace, List.foldr_cons, List.foldr_nil,
        attach_nil]
      exact List.append_nil w
    | cons next ws =>
      have hnext : next ≠ [] := (hws.2 next List.mem_cons_self).1
      obtain ⟨d, more, hmore⟩ : ∃ d more, join [' '] (next :: ws) = d :: more :=
        List.exists_cons_of_ne_nil fun hnil =>
          hnext (List.prefix_nil.mp (hnil ▸ prefix_join [' '] next ws))
      have hhead : (List.foldr attach [] (next :: ws)).head? = some d := by
        obtain ⟨e, next, rfl⟩ := List.exists_cons_of_ne_nil hnext
        obtain ⟨rest, hrest⟩ := prefix_join [' '] (e :: next) ws
        rw [← hrest] at hmore
        rw [List.foldr_cons, head?_attach (e :: next) _ hnext, List.head?_cons]
        exact congrArg some (List.cons.inj hmore).1
      have hsome : List.foldr attach [] (next :: ws) ≠ [] := by
        intro hnil
        rw [hnil] at hhead
        cases hhead
      change _ = attach w (List.foldr attach [] (next :: ws))
      rw [join_cons_cons, List.append_assoc, tightenFrom_append afterStar w _ hne hspace,
        List.singleton_append, hmore, tightenFrom, ← hmore, ih false hws.2, ih _ hws.2]
      simp only [attach, hsome, hhead, false_or, Option.some.injEq]
      by_cases hstar : w.getLast? = some '*' ∨ d = '*'
      · rw [if_pos (by simpa using hstar), if_pos hstar]
      · rw [if_neg (by simpa using hstar), if_neg hstar]

theorem tightenFrom_squeeze (t : Text) : tightenFrom false (squeeze t) = tight t :=
  tightenFrom_join false (words t) (forall_mem_words t)

theorem foldr_attach_wordsFrom_append (front word t : Text) (hword : word ≠ []) :
    (wordsFrom (front ++ word) t).foldr attach [] =
      front ++ (wordsFrom word t).foldr attach [] := by
  induction t generalizing word with
  | nil =>
    rw [wordsFrom, wordsFrom, if_neg (by simp [hword]), if_neg (by simp [hword])]
    exact attach_append front word [] hword
  | cons c t ih =>
    cases hc : isBlank c with
    | true =>
      simp only [wordsFrom, hc, if_true, List.isEmpty_iff, hword, List.append_eq_nil_iff,
        and_false, if_false, List.foldr_cons]
      exact attach_append front word _ hword
    | false =>
      simp only [wordsFrom, hc, Bool.false_eq_true, if_false, List.append_assoc]
      exact ih (word ++ [c]) (by simp)

/-- A star at the end of a word takes what follows without a space. -/
theorem foldr_attach_wordsFrom_star (front t : Text) :
    (wordsFrom (front ++ ['*']) t).foldr attach [] = front ++ '*' :: tight t := by
  cases t with
  | nil =>
    rw [wordsFrom, if_neg (by simp)]
    exact attach_nil (front ++ ['*'])
  | cons c t =>
    cases hc : isBlank c with
    | true =>
      have hrest : tight (c :: t) = tight t := by
        rw [tight, words, wordsFrom, if_pos hc]
        rfl
      rw [wordsFrom, if_pos hc, if_neg (by simp), List.foldr_cons, attach_star _ _ (by simp),
        List.append_assoc, hrest]
      rfl
    | false =>
      simp only [tight, words, wordsFrom, hc, Bool.false_eq_true, if_false, List.nil_append]
      rw [foldr_attach_wordsFrom_append (front ++ ['*']) [c] t (by simp), List.append_assoc]
      rfl

theorem foldr_attach_wordsFrom (word before after : Text) :
    (wordsFrom word (before ++ '*' :: after)).foldr attach [] =
      (wordsFrom word before).foldr attach [] ++ '*' :: tight after := by
  induction before generalizing word with
  | nil =>
    have hword : (wordsFrom word []).foldr attach [] = word := by
      unfold wordsFrom
      split
      · next hnil => exact (List.isEmpty_iff.mp hnil).symm
      · exact attach_nil word
    rw [List.nil_append, hword, wordsFrom, if_neg (by decide)]
    exact foldr_attach_wordsFrom_star word after
  | cons c before ih =>
    rw [List.cons_append, wordsFrom, wordsFrom]
    split
    · split
      · exact ih []
      · rw [List.foldr_cons, List.foldr_cons, ih [], attach_append_star]
    · exact ih (word ++ [c])

/-- A star parts a type in two, and each part is spelled on its own. -/
theorem tight_star (before after : Text) :
    tight (before ++ '*' :: after) = tight before ++ '*' :: tight after :=
  foldr_attach_wordsFrom [] before after

/-- Blanks at the end of a type do not count. -/
theorem tight_append_blanks (t blanks : Text) (h : ∀ c ∈ blanks, isBlank c = true) :
    tight (t ++ blanks) = tight t := by
  rw [tight, words_append_blanks t blanks h, tight]

theorem tight_blanks_append (blanks t : Text) (h : ∀ c ∈ blanks, isBlank c = true) :
    tight (blanks ++ t) = tight t := by
  rw [tight, words_blanks_append blanks t h, tight]

theorem tight_word (word : Text) (hne : word ≠ []) (hword : ∀ c ∈ word, isBlank c = false) :
    tight word = word := by
  rw [tight, words_word word hne hword]
  exact attach_nil word

theorem head?_spaceAfterStars (t : Text) : (spaceAfterStars t).head? = t.head? := by
  fun_induction spaceAfterStars t <;> rfl

theorem spaceAfterStars_append (front t : Text) (h : '*' ∉ front) :
    spaceAfterStars (front ++ t) = front ++ spaceAfterStars t := by
  induction front with
  | nil => rfl
  | cons c front ih =>
    rw [List.mem_cons, not_or] at h
    rw [List.cons_append, spaceAfterStars, ih h.2]
    · rfl
    · rintro d rest rfl
      exact absurd rfl h.1

end NativeGlue.Header
