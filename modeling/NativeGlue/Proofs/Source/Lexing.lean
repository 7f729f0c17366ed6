import NativeGlue.Proofs.Source.Reading
import NativeGlue.Proofs.Text.Lines

/-!
The lexemes of a source file by their form. Each kind of lexeme has a form of its own, and the
character behind it tells whether it may end there. These rules leave one way to cut a file into
lexemes, and the reader of lexemes finds it. They know nothing of braces, parentheses or
statements.
-/

namespace NativeGlue.Source

open Text

/-- What stands between the quotes of a literal: no quote, backslash or line feed, except that a
backslash may stand before any character. -/
inductive LiteralBody (quote : Char) : Text → Prop
  | nil : LiteralBody quote []
  | escape {t : Text} (c : Char) (ht : LiteralBody quote t) : LiteralBody quote ('\\' :: c :: t)
  | plain {t : Text} (c : Char) (hc : c ≠ '\\' ∧ c ≠ '\n' ∧ c ≠ quote) (ht : LiteralBody quote t) :
    LiteralBody quote (c :: t)

def tripleQuote : Text := "\"\"\"".toList

/-- The three quotes that end a text block are the first ones not behind a backslash. -/
def IsBlockBody (body : Text) : Prop :=
  ∀ u v, body ++ tripleQuote = u ++ tripleQuote ++ v → (u.getLast? = some '\\' ↔ v ≠ [])

/-- A lexeme has the form of its kind and ends where the given character follows it. -/
def Lexeme.EndsBefore (l : Lexeme) (next : Option Char) : Prop :=
  match l with
  | blank c => isBlank c = true
  | comment body => ¬ "*/".toList <:+: body
  | lineComment body => '\n' ∉ body ∧ (next = none ∨ next = some '\n')
  | literal quote body => (quote = '"' ∨ quote = '\'') ∧ LiteralBody quote body ∧
      ¬ (quote = '"' ∧ body = [] ∧ next = some '"')
  | textBlock body => IsBlockBody body
  | mark c => isBlank c = false ∧ c ≠ '"' ∧ c ≠ '\'' ∧
      ¬ (c = '/' ∧ (next = some '*' ∨ next = some '/'))

/-- Lexemes, each in its form, that make up a whole text. -/
inductive Lexed : List Lexeme → Text → Prop
  | nil : Lexed [] []
  | cons {l : Lexeme} {ls : List Lexeme} {t : Text} (hl : l.EndsBefore t.head?)
    (hls : Lexed ls t) : Lexed (l :: ls) (l.spelling ++ t)

theorem literalBody?_append {quote : Char} {body : Text} (h : LiteralBody quote body)
    (hquote : quote ≠ '\\' ∧ quote ≠ '\n') (tail : Text) :
    literalBody? quote (body ++ quote :: tail) = some (body, tail) := by
  induction h with
  | nil =>
    rw [List.nil_append, literalBody?, if_neg (by simp [hquote]), if_pos rfl]
    exact fun c rest hc => absurd hc hquote.1
  | escape c ht ih =>
    rw [List.cons_append, List.cons_append, literalBody?, ih]
    rfl
  | plain c hc ht ih =>
    obtain ⟨hslash, hfeed, hne⟩ := hc
    rw [List.cons_append, literalBody?, if_neg (by simp [hslash, hfeed]), if_neg hne, ih]
    · rfl
    · exact fun d rest hd => absurd hd hslash

theorem literalBody_of_literalBody? {quote : Char} {t body tail : Text}
    (h : literalBody? quote t = some (body, tail)) : LiteralBody quote body := by
  fun_induction literalBody? quote t generalizing body tail with
  | case1 => cases h
  | case2 c rest ih =>
    obtain ⟨found, hfound, heq⟩ := Option.map_eq_some_iff.mp h
    cases heq
    exact .escape c (ih hfound)
  | case3 => cases h
  | case4 =>
    cases h
    exact .nil
  | case5 c rest hother hstop hquote ih =>
    obtain ⟨found, hfound, heq⟩ := Option.map_eq_some_iff.mp h
    cases heq
    simp only [Bool.or_eq_true, decide_eq_true_eq, not_or] at hstop
    exact .plain c ⟨hstop.2, hstop.1, hquote⟩ (ih hfound)

/-- A text block read behind `before` ends at the first three quotes that stand behind no
backslash. -/
theorem textBlockBody?_append (before : Char) (body tail : Text)
    (h : ∀ u v, body ++ tripleQuote = u ++ tripleQuote ++ v →
      ((before :: u).getLast? = some '\\' ↔ v ≠ [])) :
    textBlockBody? before (body ++ tripleQuote ++ tail) = some (body, tail) := by
  induction body generalizing before with
  | nil =>
    have hbefore : before ≠ '\\' := by
      intro hslash
      have hlast := h [] [] rfl
      simp [hslash] at hlast
    have hdrop : dropStart? "\"\"\"".toList ('"' :: '"' :: '"' :: tail) = some tail :=
      dropStart?_append tripleQuote tail
    have hcons : [] ++ tripleQuote ++ tail = '"' :: '"' :: '"' :: tail := rfl
    rw [hcons, textBlockBody?, if_neg hbefore, hdrop]
  | cons c body ih =>
    have hlater := ih c fun u v huv => by
      have hlast := h (c :: u) v (congrArg (c :: ·) huv)
      rwa [List.getLast?_cons_cons] at hlast
    have hnone : (if before = '\\' then none
        else dropStart? "\"\"\"".toList (c :: (body ++ tripleQuote ++ tail))) = none := by
      split
      · rfl
      · next hslash =>
        rw [dropStart?_eq_none_iff]
        intro hfront
        have hwithin : tripleQuote <+: c :: body ++ tripleQuote :=
          List.prefix_of_prefix_length_le hfront ⟨tail, by simp⟩ (by simp [tripleQuote])
        obtain ⟨v, hv⟩ := hwithin
        have hlast := h [] v hv.symm
        have hne : v ≠ [] := by
          rintro rfl
          have hlength := congrArg List.length hv
          simp [tripleQuote] at hlength
        exact hslash (by simpa using hlast.mpr hne)
    rw [List.cons_append, List.cons_append, textBlockBody?, hnone, hlater]
    rfl

theorem isBlockBody_of_textBlockBody? {before : Char} {t body tail : Text}
    (h : textBlockBody? before t = some (body, tail)) (u v : Text)
    (huv : body ++ tripleQuote = u ++ tripleQuote ++ v) :
    (before :: u).getLast? = some '\\' ↔ v ≠ [] := by
  induction t generalizing before body tail u with
  | nil => cases h
  | cons c rest ih =>
    unfold textBlockBody? at h
    split at h
    · next after heq =>
      cases h
      have hbefore : before ≠ '\\' := by
        rintro rfl
        simp at heq
      have hnil : u = [] ∧ v = [] := by
        have hlength := congrArg List.length huv
        simp only [List.nil_append, List.length_append] at hlength
        exact ⟨List.length_eq_zero_iff.mp (by omega), List.length_eq_zero_iff.mp (by omega)⟩
      simp [hnil, hbefore]
    · next hnone =>
      obtain ⟨found, hfound, heq⟩ := Option.map_eq_some_iff.mp h
      cases heq
      cases u with
      | cons d u =>
        obtain ⟨rfl, hinner⟩ := List.cons.inj huv
        rw [List.getLast?_cons_cons]
        exact ih hfound u hinner
      | nil =>
        have hne : v ≠ [] := by
          rintro rfl
          have hlength := congrArg List.length huv
          simp only [List.cons_append, List.length_cons, List.length_append, List.length_nil]
            at hlength
          omega
        have hfront : tripleQuote <+: c :: rest := by
          have hspelling := textBlockBody?_spelling hfound
          refine ⟨v ++ found.2, ?_⟩
          rw [← List.append_assoc, ← List.nil_append tripleQuote, ← huv, hspelling]
          simp [tripleQuote]
        simp only [List.getLast?_singleton, Option.some.injEq, hne, ne_eq, not_false_eq_true,
          iff_true]
        by_contra hslash
        rw [if_neg hslash] at hnone
        exact (dropStart?_eq_none_iff _ _).mp hnone hfront

/-- The quotes that open a text block take no other quotes with them. -/
theorem getLast?_quote_cons (u : Text) :
    ('"' :: u).getLast? = some '\\' ↔ u.getLast? = some '\\' := by
  cases u with
  | nil => simp
  | cons c u => rw [List.getLast?_cons_cons]

theorem lexeme?_blank (c : Char) (rest : Text) (hc : isBlank c = true) :
    lexeme? c rest = .ok (.blank c, rest) := by
  unfold lexeme?
  rw [if_pos hc]

theorem lexeme?_comment (body rest : Text) (h : ¬ "*/".toList <:+: body) :
    lexeme? '/' ('*' :: (body ++ '*' :: '/' :: rest)) = .ok (.comment body, rest) := by
  unfold lexeme?
  rw [if_neg (by decide)]
  simp only [commentBody?_append body rest h]

theorem lexeme?_lineComment (body rest : Text) (hbody : '\n' ∉ body)
    (hrest : rest.head? = none ∨ rest.head? = some '\n') :
    lexeme? '/' ('/' :: (body ++ rest)) = .ok (.lineComment body, rest) := by
  have hkept : ∀ c ∈ body, (!isFeed c) = true := by
    intro c hc
    simp only [isFeed, Bool.not_eq_true', beq_eq_false_iff_ne, ne_eq]
    rintro rfl
    exact hbody hc
  have hends : rest.takeWhile (!isFeed ·) = [] ∧ rest.dropWhile (!isFeed ·) = rest := by
    cases rest with
    | nil => exact ⟨rfl, rfl⟩
    | cons c rest =>
      obtain rfl : c = '\n' := by simpa using hrest
      exact ⟨rfl, rfl⟩
  have htake : (body ++ rest).takeWhile (!isFeed ·) = body := by
    rw [List.takeWhile_append_of_pos hkept, hends.1, List.append_nil]
  have hdrop : (body ++ rest).dropWhile (!isFeed ·) = rest := by
    rw [List.dropWhile_append_of_pos hkept, hends.2]
  unfold lexeme?
  rw [if_neg (by decide)]
  simp only [htake, hdrop]

theorem lexeme?_quote (quote : Char) (rest : Text) (hquote : quote = '"' ∨ quote = '\'')
    (hblock : ∀ after, quote = '"' → rest ≠ '"' :: '"' :: after) :
    lexeme? quote rest =
      match literalBody? quote rest with
      | some (body, tail) => .ok (.literal quote body, tail)
      | none => .error .openLiteral := by
  have hblank : isBlank quote = false := by rcases hquote with rfl | rfl <;> decide
  unfold lexeme?
  rw [hblank, if_neg (by decide)]
  split
  · simp at hquote
  · simp at hquote
  · next after => exact absurd rfl (hblock after rfl)
  · exact if_pos (by simpa using hquote)

theorem lexeme?_tripleQuote (after : Text) :
    lexeme? '"' ('"' :: '"' :: after) =
      match textBlockBody? '"' after with
      | some (body, tail) => .ok (.textBlock body, tail)
      | none => .error .openTextBlock := by
  unfold lexeme?
  exact if_neg (by decide)

theorem lexeme?_literal (quote : Char) (body rest : Text) (hquote : quote = '"' ∨ quote = '\'')
    (hbody : LiteralBody quote body)
    (hblock : ¬ (quote = '"' ∧ body = [] ∧ rest.head? = some '"')) :
    lexeme? quote (body ++ quote :: rest) = .ok (.literal quote body, rest) := by
  have hread := literalBody?_append hbody (by rcases hquote with rfl | rfl <;> decide) rest
  have hopen (after : Text) (hdouble : quote = '"') :
      body ++ quote :: rest ≠ '"' :: '"' :: after := by
    intro hopen
    cases hbody with
    | nil =>
      obtain ⟨-, rfl⟩ := List.cons.inj hopen
      exact hblock ⟨hdouble, rfl, rfl⟩
    | escape c ht => simp at hopen
    | plain c hc ht => exact hc.2.2 ((List.cons.inj hopen).1.trans hdouble.symm)
  rw [lexeme?_quote quote _ hquote hopen, hread]

theorem lexeme?_textBlock (body rest : Text) (hbody : IsBlockBody body) :
    lexeme? '"' ('"' :: '"' :: (body ++ tripleQuote ++ rest)) = .ok (.textBlock body, rest) := by
  have hread := textBlockBody?_append '"' body rest fun u v huv =>
    (getLast?_quote_cons u).trans (hbody u v huv)
  rw [lexeme?_tripleQuote, hread]

theorem lexeme?_mark (c : Char) (rest : Text) (hblank : isBlank c = false)
    (hdouble : c ≠ '"') (hsingle : c ≠ '\'')
    (hslash : ¬ (c = '/' ∧ (rest.head? = some '*' ∨ rest.head? = some '/'))) :
    lexeme? c rest = .ok (.mark c, rest) := by
  unfold lexeme?
  rw [hblank, if_neg (by simp)]
  split
  · exact absurd ⟨rfl, .inl rfl⟩ hslash
  · exact absurd ⟨rfl, .inr rfl⟩ hslash
  · exact absurd rfl hdouble
  · rw [if_neg (by simp [hdouble, hsingle])]

/-- A lexeme in its form is the one that is read. -/
theorem lexeme?_of_endsBefore (l : Lexeme) (t : Text) (h : l.EndsBefore t.head?) :
    ∃ c rest, l.spelling ++ t = c :: rest ∧ lexeme? c rest = .ok (l, t) := by
  cases l with
  | blank c => exact ⟨c, t, rfl, lexeme?_blank c t h⟩
  | comment body =>
    exact ⟨'/', '*' :: (body ++ '*' :: '/' :: t), by simp [Lexeme.spelling],
      lexeme?_comment body t h⟩
  | lineComment body =>
    exact ⟨'/', '/' :: (body ++ t), rfl, lexeme?_lineComment body t h.1
      (by simpa only [List.head?_eq_none_iff] using h.2)⟩
  | literal quote body =>
    exact ⟨quote, body ++ quote :: t, by simp [Lexeme.spelling],
      lexeme?_literal quote body t h.1 h.2.1 h.2.2⟩
  | textBlock body =>
    exact ⟨'"', '"' :: '"' :: (body ++ tripleQuote ++ t), by simp [Lexeme.spelling, tripleQuote],
      lexeme?_textBlock body t h⟩
  | mark c => exact ⟨c, t, rfl, lexeme?_mark c t h.1 h.2.1 h.2.2.1 h.2.2.2⟩

theorem endsBefore_lineComment (after : Text) :
    (Lexeme.lineComment (after.takeWhile (!isFeed ·))).EndsBefore
      (after.dropWhile (!isFeed ·)).head? := by
  refine ⟨fun hfeed => ?_, ?_⟩
  · simpa [isFeed] using List.all_eq_true.mp List.all_takeWhile '\n' hfeed
  · cases hdrop : after.dropWhile (!isFeed ·) with
    | nil => exact .inl rfl
    | cons d later =>
      have hstop := List.head?_dropWhile_not (!isFeed ·) after
      rw [hdrop] at hstop
      exact .inr (by simpa [isFeed] using hstop)

/-- The lexeme that is read has its form. -/
theorem endsBefore_of_lexeme? {c : Char} {rest tail : Text} {l : Lexeme}
    (h : lexeme? c rest = .ok (l, tail)) : l.EndsBefore tail.head? := by
  unfold lexeme? at h
  split at h
  · next hblank =>
    cases h
    exact hblank
  next hblank =>
  split at h
  · split at h
    · next body after hbody =>
      cases h
      exact not_infix_of_commentBody? hbody
    · cases h
  · next after =>
    cases h
    exact endsBefore_lineComment after
  · split at h
    · next body after hbody =>
      cases h
      exact fun u v huv =>
        (getLast?_quote_cons u).symm.trans (isBlockBody_of_textBlockBody? hbody u v huv)
    · cases h
  · next hcomment hline hblock =>
    split at h
    · next hquote =>
      split at h
      · next body after hbody =>
        cases h
        refine ⟨by simpa using hquote, literalBody_of_literalBody? hbody, ?_⟩
        rintro ⟨hdouble, rfl, hnext⟩
        obtain ⟨more, rfl⟩ := List.head?_eq_some_iff.mp hnext
        exact hblock more hdouble (hdouble ▸ literalBody?_spelling hbody)
      · cases h
    · next hquote =>
      cases h
      simp only [Bool.or_eq_true, decide_eq_true_eq, not_or] at hquote
      refine ⟨by simpa using hblank, hquote.1, hquote.2, ?_⟩
      rintro ⟨hslash, hnext | hnext⟩
      · obtain ⟨more, rfl⟩ := List.head?_eq_some_iff.mp hnext
        exact hcomment more hslash rfl
      · obtain ⟨more, rfl⟩ := List.head?_eq_some_iff.mp hnext
        exact hline more hslash rfl

/-- The rules of the lexemes fix how a text is cut into lexemes, and so it is read. -/
theorem lexed_iff (ls : List Lexeme) (t : Text) : Lexed ls t ↔ lexemes t = (ls, none) := by
  constructor
  · intro h
    induction h with
    | nil => rw [lexemes.eq_def]
    | cons hl hls ih =>
      obtain ⟨c, rest, hspelling, hlexeme⟩ := lexeme?_of_endsBefore _ _ hl
      rw [hspelling, lexemes_of_ok hlexeme, ih]
  · intro h
    fun_induction lexemes t generalizing ls with
    | case1 =>
      cases h
      exact .nil
    | case2 c rest fault hlexeme => cases h
    | case3 c rest l tail hlexeme _ more ih =>
      obtain ⟨rfl, hmore⟩ := Prod.mk.inj h
      rw [lexeme?_spelling hlexeme]
      exact .cons (endsBefore_of_lexeme? hlexeme) (ih _ (Prod.ext rfl hmore))

/-- A lexeme at the start of a text is the first of its lexemes. -/
theorem Lexed.exists_cons {ls : List Lexeme} {c : Char} {rest tail : Text} {l : Lexeme}
    (h : Lexed ls (c :: rest)) (hlexeme : lexeme? c rest = .ok (l, tail)) :
    ∃ more, ls = l :: more ∧ Lexed more tail := by
  rw [lexed_iff, lexemes_of_ok hlexeme] at h
  obtain ⟨rfl, hstop⟩ := Prod.mk.inj h
  exact ⟨_, rfl, (lexed_iff _ _).mpr (Prod.ext rfl hstop)⟩

namespace Scan

theorem run_cons (s : Scan) (l : Lexeme) (ls : List Lexeme) :
    s.run (l :: ls) = (s.read l).bind fun next => next.run ls := rfl

theorem run_cons_eq_ok_iff (s last : Scan) (l : Lexeme) (ls : List Lexeme) :
    s.run (l :: ls) = .ok last ↔ ∃ next, s.read l = .ok next ∧ next.run ls = .ok last := by
  rw [run_cons]
  cases s.read l with
  | error problem => exact ⟨nofun, nofun⟩
  | ok next => exact ⟨fun h => ⟨next, rfl, h⟩, fun ⟨_, hnext, h⟩ => Except.ok.inj hnext ▸ h⟩

theorem run_append (s : Scan) (ls more : List Lexeme) :
    s.run (ls ++ more) = (s.run ls).bind fun next => next.run more := by
  induction ls generalizing s with
  | nil => rfl
  | cons l ls ih =>
    rw [List.cons_append, run_cons, run_cons]
    cases s.read l with
    | error problem => rfl
    | ok next => exact ih next

/-- What every lexeme keeps, a run keeps. -/
theorem run_induction {P : Scan → Prop} {s last : Scan} {ls : List Lexeme}
    (hstep : ∀ l ∈ ls, ∀ s next : Scan, s.read l = .ok next → P s → P next)
    (hrun : s.run ls = .ok last) (h : P s) : P last := by
  induction ls generalizing s with
  | nil =>
    cases hrun
    exact h
  | cons l ls ih =>
    obtain ⟨next, hread, hlater⟩ := (run_cons_eq_ok_iff _ _ _ _).mp hrun
    exact ih (fun m hm => hstep m (List.mem_cons_of_mem l hm)) hlater
      (hstep l List.mem_cons_self s next hread h)

/-- A scan in the middle of a file has read the first of its lexemes. -/
theorem Reaches.exists_run {s last : Scan} {t u : Text} {ls : List Lexeme}
    (h : Reaches s t last u) (hls : Lexed ls t) :
    ∃ ahead behind, ls = ahead ++ behind ∧ Lexed behind u ∧ s.run ahead = .ok last := by
  induction h generalizing ls with
  | refl s t => exact ⟨[], ls, rfl, hls, rfl⟩
  | @step s next last c rest tail t l hlexeme hread hlater ih =>
    obtain ⟨more, rfl, hmore⟩ := hls.exists_cons hlexeme
    obtain ⟨ahead, behind, rfl, hbehind, hrun⟩ := ih hmore
    exact ⟨l :: ahead, behind, rfl, hbehind,
      (run_cons_eq_ok_iff _ _ _ _).mpr ⟨next, hread, hrun⟩⟩

end Scan

/-- A file can be read if it is made of lexemes that the scan accepts. -/
theorem read_eq_ok_iff (t : Text) (contents : Contents) :
    read t = .ok contents ↔
      ∃ ls last, Lexed ls t ∧ Scan.start.run ls = .ok last ∧ contents = last.finish := by
  simp only [lexed_iff]
  unfold read
  constructor
  · intro h
    cases hrun : Scan.start.run (lexemes t).1 with
    | error problem => simp [hrun, bind, Except.bind] at h
    | ok last =>
      cases hstop : (lexemes t).2 with
      | some fault => simp [hrun, hstop, bind, Except.bind] at h
      | none =>
        simp only [hrun, hstop, bind, Except.bind, pure, Except.pure, Except.ok.injEq] at h
        exact ⟨_, last, Prod.ext rfl hstop, hrun, h.symm⟩
  · rintro ⟨ls, last, hlexemes, hrun, rfl⟩
    simp only [hlexemes, hrun, bind, Except.bind, pure, Except.pure]

end NativeGlue.Source
