import NativeGlue.Proofs.Text.Occurrence
import NativeGlue.Proofs.Text.Splitting
import NativeGlue.Text.Comment
import NativeGlue.Text.Lines

/-!
Line feeds and carriage returns of a text in parts. A carriage return is dropped before a line
feed only, so a text may be cut anywhere else, its last character stays, and nothing comes to
stand in it without a line feed that did not stand there before. A text without carriage returns is
read back as it was written.
-/

namespace NativeGlue.Text

theorem feeds_append (t u : Text) : feeds (t ++ u) = feeds t + feeds u := List.count_append

/-- A comment ends with its text, whatever follows. -/
theorem commentBody?_append (body rest : Text) (h : ¬ "*/".toList <:+: body) :
    commentBody? (body ++ '*' :: '/' :: rest) = some (body, rest) := by
  induction body with
  | nil => rfl
  | cons c body ih =>
    have hrest := ih fun hin => h (List.infix_cons hin)
    rw [List.cons_append, commentBody?, hrest]
    · rfl
    · intro after hc hafter
      cases body with
      | nil => cases hafter
      | cons d body =>
        have hd : d = '/' := (List.cons.inj hafter).1
        refine h (List.IsPrefix.isInfix ?_)
        rw [hc, hd]
        exact ⟨body, rfl⟩

/-- A comment ends at the first place where its end stands. -/
theorem commentBody?_eq_cut? (t : Text) : commentBody? t = cut? "*/".toList t := by
  fun_induction commentBody? t with
  | case1 => rfl
  | case2 rest => rfl
  | case3 c rest hother ih =>
    have hnone : dropStart? "*/".toList (c :: rest) = none := by
      rw [dropStart?_eq_none_iff]
      rintro ⟨after, hafter⟩
      obtain ⟨hstar, hslash⟩ := List.cons.inj hafter
      exact hother after hstar.symm hslash.symm
    rw [cut?, hnone, ih]

/-- The end of a comment does not stand in its body. -/
theorem not_infix_of_commentBody? {t body tail : Text} (h : commentBody? t = some (body, tail)) :
    ¬ "*/".toList <:+: body := by
  fun_induction commentBody? t generalizing body tail with
  | case1 => cases h
  | case2 rest =>
    cases h
    simp
  | case3 c rest hother ih =>
    obtain ⟨found, hfound, heq⟩ := Option.map_eq_some_iff.mp h
    cases heq
    intro hinside
    rcases List.infix_cons_iff.mp hinside with hstart | hlater
    · obtain ⟨hstar, hslash⟩ := List.cons_prefix_cons.mp hstart
      obtain ⟨more, hmore⟩ := hslash
      refine hother (more ++ '*' :: '/' :: found.2) hstar.symm ?_
      rw [eq_append_of_commentBody? hfound, ← hmore]
      rfl
    · exact ih hfound hlater

theorem joinReturns_cons (c : Char) (t : Text) (h : c = '\r' → t.head? ≠ some '\n') :
    joinReturns (c :: t) = c :: joinReturns t := by
  rw [joinReturns]
  rintro rest rfl rfl
  exact h rfl rfl

theorem joinReturns_append (t rest : Text)
    (h : t.getLast? = some '\r' → rest.head? ≠ some '\n') :
    joinReturns (t ++ rest) = joinReturns t ++ joinReturns rest := by
  fun_induction joinReturns t with
  | case1 => rfl
  | case2 t ih =>
    have hlater := ih fun hl => h (List.mem_getLast?_cons (List.mem_getLast?_cons hl))
    rw [List.cons_append, List.cons_append, joinReturns, hlater, List.cons_append]
  | case3 c t hother ih =>
    have hfirst : c = '\r' → (t ++ rest).head? ≠ some '\n' := by
      rintro rfl
      cases t with
      | nil => exact h rfl
      | cons d t =>
        intro hd
        rw [List.cons_append, List.head?_cons, Option.some.injEq] at hd
        exact hother t rfl (hd ▸ rfl)
    have hlater := ih fun hl => h (List.mem_getLast?_cons hl)
    rw [List.cons_append, joinReturns_cons c _ hfirst, hlater, List.cons_append]

theorem joinReturns_eq_self (t : Text) (h : '\r' ∉ t) : joinReturns t = t := by
  induction t with
  | nil => rfl
  | cons c t ih =>
    rw [List.mem_cons, not_or] at h
    rw [joinReturns_cons c t fun hc => absurd hc.symm h.1, ih h.2]

theorem joinReturns_plain_append (t rest : Text) (h : '\r' ∉ t) :
    joinReturns (t ++ rest) = t ++ joinReturns rest := by
  rw [joinReturns_append t rest fun hlast => absurd (List.mem_of_getLast? hlast) h,
    joinReturns_eq_self t h]

theorem getLast?_joinReturns (t : Text) : (joinReturns t).getLast? = t.getLast? := by
  fun_induction joinReturns t with
  | case1 => rfl
  | case2 t ih => rw [List.getLast?_cons, ih, List.getLast?_cons_cons, List.getLast?_cons]
  | case3 c t hother ih => rw [List.getLast?_cons, ih, List.getLast?_cons]

theorem feeds_joinReturns (t : Text) : feeds (joinReturns t) = feeds t := by
  unfold feeds
  fun_induction joinReturns t with
  | case1 => rfl
  | case2 t ih =>
    rw [List.count_cons_self, ih, List.count_cons_of_ne (by decide), List.count_cons_self]
  | case3 c t hother ih => rw [List.count_cons, List.count_cons, ih]

theorem mem_of_mem_joinReturns {t : Text} {c : Char} (h : c ∈ joinReturns t) : c ∈ t := by
  fun_induction joinReturns t with
  | case1 => exact h
  | case2 t ih =>
    rcases List.mem_cons.mp h with rfl | h
    · simp
    · simp [ih h]
  | case3 d t hother ih =>
    rcases List.mem_cons.mp h with rfl | h
    · exact List.mem_cons_self
    · exact List.mem_cons_of_mem d (ih h)

theorem prefix_of_prefix_joinReturns {part t : Text} (hpart : '\n' ∉ part)
    (h : part <+: joinReturns t) : part <+: t := by
  fun_induction joinReturns t generalizing part with
  | case1 => exact h
  | case2 t ih =>
    cases part with
    | nil => exact List.nil_prefix
    | cons p part =>
      have hp : p = '\n' := (List.cons_prefix_cons.mp h).1
      exact absurd (hp ▸ List.mem_cons_self) hpart
  | case3 c t hother ih =>
    cases part with
    | nil => exact List.nil_prefix
    | cons p part =>
      obtain ⟨hp, hrest⟩ := List.cons_prefix_cons.mp h
      rw [List.mem_cons, not_or] at hpart
      exact List.cons_prefix_cons.mpr ⟨hp, ih hpart.2 hrest⟩

/-- Without its carriage returns a text holds no new part that lacks a line feed. -/
theorem infix_of_infix_joinReturns {part t : Text} (hpart : '\n' ∉ part)
    (h : part <:+: joinReturns t) : part <:+: t := by
  fun_induction joinReturns t with
  | case1 => exact h
  | case2 t ih =>
    exact List.infix_cons (List.infix_cons (ih (infix_of_infix_cons hpart h)))
  | case3 c t hother ih =>
    rcases List.infix_cons_iff.mp h with hfirst | hrest
    · rw [← joinReturns_cons c t fun hc hfeed => by
        obtain ⟨rest, rfl⟩ : ∃ rest, t = '\n' :: rest := by
          cases t with
          | nil => cases hfeed
          | cons d rest => exact ⟨rest, by rw [Option.some.inj hfeed]⟩
        exact hother rest hc rfl] at hfirst
      exact (prefix_of_prefix_joinReturns hpart hfirst).isInfix
    · exact List.infix_cons (ih hrest)

theorem unifyLineEnds_eq_self (t : Text) (h : '\r' ∉ t) : unifyLineEnds t = t := by
  fun_induction unifyLineEnds t with
  | case1 => rfl
  | case2 rest ih => simp at h
  | case3 c rest hother ih =>
    rw [List.mem_cons, not_or] at h
    rw [if_neg (Ne.symm h.1), ih h.2]

theorem return_notMem_unifyLineEnds (t : Text) : '\r' ∉ unifyLineEnds t := by
  fun_induction unifyLineEnds t with
  | case1 => exact List.not_mem_nil
  | case2 rest ih => simpa using ih
  | case3 c rest hother ih =>
    rw [List.mem_cons, not_or]
    refine ⟨?_, ih⟩
    split_ifs with hc
    · decide
    · exact Ne.symm hc

end NativeGlue.Text
