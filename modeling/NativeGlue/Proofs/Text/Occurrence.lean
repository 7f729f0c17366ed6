import Mathlib.Data.List.Basic
import NativeGlue.Text.Basic

/-!
Occurrences of one text in another. A text occurs in another if it is a run of consecutive
characters there, and it cannot reach across a character that it does not hold.
-/

namespace NativeGlue.Text

theorem dropStart?_append (start after : Text) :
    dropStart? start (start ++ after) = some after := by
  induction start with
  | nil => rfl
  | cons c start ih => simp [dropStart?, ih]

theorem dropStart?_eq_none_iff (start t : Text) : dropStart? start t = none ↔ ¬ start <+: t := by
  constructor
  · rintro h ⟨after, rfl⟩
    simp [dropStart?_append] at h
  · intro h
    cases hdrop : dropStart? start t with
    | none => rfl
    | some after => exact absurd ⟨after, (eq_append_of_dropStart? hdrop).symm⟩ h

theorem cut?_eq_none_iff (part t : Text) : cut? part t = none ↔ ¬ part <:+: t := by
  induction t with
  | nil =>
    simp only [cut?, Option.map_eq_none_iff, dropStart?_eq_none_iff, List.prefix_nil,
      List.infix_nil]
  | cons c rest ih =>
    rw [List.infix_cons_iff, not_or, ← ih, ← dropStart?_eq_none_iff, cut?]
    cases dropStart? part (c :: rest) <;> simp

theorem eq_append_of_cut? {part t before after : Text} (h : cut? part t = some (before, after)) :
    t = before ++ part ++ after := by
  induction t generalizing before with
  | nil =>
    obtain ⟨rest, hrest, heq⟩ := Option.map_eq_some_iff.mp h
    cases heq
    exact eq_append_of_dropStart? hrest
  | cons c t ih =>
    rw [cut?] at h
    split at h
    · next rest hrest =>
      cases h
      exact eq_append_of_dropStart? hrest
    · obtain ⟨found, hfound, heq⟩ := Option.map_eq_some_iff.mp h
      cases heq
      rw [List.cons_append, List.cons_append, ← ih hfound]

theorem occursIn_iff (part t : Text) : occursIn part t = true ↔ part <:+: t := by
  rw [occursIn, Option.isSome_iff_ne_none, ne_eq, cut?_eq_none_iff, Classical.not_not]

theorem occursIn_eq_false_iff (part t : Text) : occursIn part t = false ↔ ¬ part <:+: t := by
  rw [← occursIn_iff, Bool.not_eq_true]

theorem forall_mem_of_all {t : Text} {P : Char → Prop} [DecidablePred P]
    (h : (t.all fun c => decide (P c)) = true) : ∀ c ∈ t, P c :=
  fun c hc => of_decide_eq_true (List.all_eq_true.mp h c hc)

/-- What stands before the first of its kind is part of what stands before any. -/
theorem prefix_of_append_cons {c : Char} {before behind start rest : Text} (hstart : c ∉ start)
    (h : before ++ c :: behind = start ++ c :: rest) : start <+: before := by
  rcases List.append_eq_append_iff.mp h with ⟨more, rfl, hmore⟩ | ⟨more, rfl, -⟩
  · cases more with
    | nil => exact ⟨[], by simp⟩
    | cons d more =>
      obtain rfl : c = d := (List.cons.inj hmore).1
      exact absurd (List.mem_append_right before List.mem_cons_self) hstart
  · exact List.prefix_append start more

/-- A text is cut in one way only before the first place of a character. -/
theorem eq_of_append_cons_eq {c : Char} {front other rest more : Text} (hfront : c ∉ front)
    (hother : c ∉ other) (h : front ++ c :: rest = other ++ c :: more) : front = other :=
  (prefix_of_append_cons hfront h.symm).eq_of_length_le
    (prefix_of_append_cons hother h).length_le

theorem eq_of_dropWhile_ne {t u : Text} {c d : Char} (h : t.dropWhile (· != d) = c :: u) :
    c = d := by
  have hstop := List.head?_dropWhile_not (· != d) t
  rw [h] at hstop
  simpa using hstop

/-- An occurrence that lacks the first character of a text lies behind it. -/
theorem infix_of_infix_cons {part t : Text} {c : Char} (hc : c ∉ part) (h : part <:+: c :: t) :
    part <:+: t := by
  rcases List.infix_cons_iff.mp h with hstart | hrest
  · cases part with
    | nil => exact List.nil_infix
    | cons p part =>
      have hp : p = c := (List.cons_prefix_cons.mp hstart).1
      exact absurd (hp ▸ List.mem_cons_self) hc
  · exact hrest

/-- An occurrence lies on one side of any character that it lacks. -/
theorem infix_of_infix_append_cons {part t rest : Text} {c : Char} (hc : c ∉ part)
    (h : part <:+: t ++ c :: rest) : part <:+: t ∨ part <:+: rest := by
  rcases List.infix_append_iff_ne_nil.mp h with hleft | hright | ⟨left, right, -, hne, rfl, -, hpre⟩
  · exact Or.inl hleft
  · exact Or.inr (infix_of_infix_cons hc hright)
  · obtain ⟨d, right, rfl⟩ := List.exists_cons_of_ne_nil hne
    have hd : d = c := (List.cons_prefix_cons.mp hpre).1
    exact absurd (by simp [hd]) hc

/-- A beginning of a text does not reach to a character that it lacks. -/
theorem prefix_of_prefix_append_cons {part t rest : Text} {c : Char} (hc : c ∉ part)
    (h : part <+: t ++ c :: rest) : part <+: t := by
  have hfront : t ++ [c] <+: t ++ c :: rest :=
    (List.prefix_append_right_inj t).mpr ⟨rest, rfl⟩
  rcases List.prefix_or_prefix_of_prefix h hfront with hin | hout
  · rcases List.prefix_concat_iff.mp hin with rfl | hin
    · exact absurd (List.mem_append_right t List.mem_cons_self) hc
    · exact hin
  · exact absurd (hout.mem (List.mem_append_right t List.mem_cons_self)) hc

/-- An occurrence lies behind a beginning of which it has no character. -/
theorem infix_of_infix_gap_append {part gap rest : Text} (hgap : ∀ c ∈ gap, c ∉ part)
    (h : part <:+: gap ++ rest) : part <:+: rest := by
  induction gap with
  | nil => exact h
  | cons c gap ih =>
    rw [List.forall_mem_cons] at hgap
    exact ih hgap.2 (infix_of_infix_cons hgap.1 h)

/-- An occurrence in joined pieces lies in one of them if it lacks what separates them. -/
theorem infix_of_infix_join {part : Text} {separator : Text} (hpart : part ≠ [])
    (hne : separator ≠ []) (hsep : ∀ c ∈ separator, c ∉ part) (pieces : List Text)
    (h : part <:+: join separator pieces) : ∃ piece ∈ pieces, part <:+: piece := by
  induction pieces with
  | nil => exact absurd (List.infix_nil.mp h) hpart
  | cons piece pieces ih =>
    cases pieces with
    | nil => exact ⟨piece, List.mem_cons_self, by simpa [join] using h⟩
    | cons next pieces =>
      obtain ⟨c, gap, rfl⟩ := List.exists_cons_of_ne_nil hne
      have hsplit : join (c :: gap) (piece :: next :: pieces) =
          piece ++ c :: (gap ++ join (c :: gap) (next :: pieces)) := by
        simp [join, List.intercalate_cons_cons]
      rw [hsplit] at h
      rcases infix_of_infix_append_cons (hsep c List.mem_cons_self) h with hleft | hright
      · exact ⟨piece, List.mem_cons_self, hleft⟩
      · have hgap := infix_of_infix_gap_append (fun d hd => hsep d (List.mem_cons_of_mem c hd))
          hright
        obtain ⟨found, hmem, hin⟩ := ih hgap
        exact ⟨found, List.mem_cons_of_mem piece hmem, hin⟩

/-- A function that changes nothing but where two given characters meet keeps a text in which they
do not meet, whatever follows the text. -/
theorem append_of_copies (f : Text → Text) (first second : Char)
    (hf : ∀ c t, (c = first → t.head? ≠ some second) → f (c :: t) = c :: f t) (t rest : Text)
    (h : ¬ [first, second] <:+: t) (hlast : t.getLast? ≠ some first) :
    f (t ++ rest) = t ++ f rest := by
  induction t with
  | nil => rfl
  | cons c t ih =>
    have hlater := ih (fun hin => h (List.infix_cons hin))
      (fun hl => hlast (List.mem_getLast?_cons hl))
    rw [List.cons_append, hf, hlater, List.cons_append]
    rintro rfl hsecond
    cases t with
    | nil => exact hlast rfl
    | cons d t =>
      rw [List.cons_append, List.head?_cons, Option.some.injEq] at hsecond
      exact h (List.IsPrefix.isInfix ⟨t, by rw [hsecond]; rfl⟩)

end NativeGlue.Text
