import NativeGlue.Proofs.Source.LineNumbers

/-!
The ends of literals. Backslashes take the next character with them, so that a character stands
for itself behind an even number of them. A string or character literal ends at the first quote
that does, unless a line feed that does comes before it. A text block ends at the first three
quotes without a backslash directly before them.
-/

namespace NativeGlue.Source

open Text

section Backslashes

/-- The number of backslashes at the end. -/
def backslashes (t : Text) : Nat := (t.reverse.takeWhile (· = '\\')).length

/-- No backslash takes the next character with it. -/
def IsFree (t : Text) : Prop := backslashes t % 2 = 0

instance (t : Text) : Decidable (IsFree t) := inferInstanceAs (Decidable (_ = _))

theorem backslashes_le (t : Text) : backslashes t ≤ t.length := by
  rw [← List.length_reverse]
  exact (List.takeWhile_prefix _).length_le

theorem backslashes_cons (c : Char) (t : Text) :
    backslashes (c :: t) = if backslashes t = t.length ∧ c = '\\' then t.length + 1
      else backslashes t := by
  unfold backslashes
  rw [List.reverse_cons, List.takeWhile_append, List.length_reverse]
  by_cases hall : (t.reverse.takeWhile (· = '\\')).length = t.length
  · by_cases hc : c = '\\'
    · simp [hall, hc]
    · simp [hall, hc]
  · simp [hall]

theorem isFree_nil : IsFree [] := rfl

theorem isFree_cons_of_ne (c : Char) (t : Text) (hc : c ≠ '\\') :
    IsFree (c :: t) ↔ IsFree t := by
  rw [IsFree, backslashes_cons, if_neg fun h => hc h.2, IsFree]

theorem isFree_escape (c : Char) (t : Text) : IsFree ('\\' :: c :: t) ↔ IsFree t := by
  have hle := backslashes_le t
  unfold IsFree
  by_cases hc : c = '\\'
  · simp only [backslashes_cons, hc, List.length_cons, and_true]
    split_ifs <;> omega
  · simp only [backslashes_cons, hc, List.length_cons, and_true, and_false, if_false]
    split_ifs <;> omega

end Backslashes

/-- The first place of a delimiter behind such a text as `P` asks for. -/
structure FirstEnd (P : Text → Prop) (delimiter t body tail : Text) : Prop where
  split : t = body ++ delimiter ++ tail
  before : P body
  first : ∀ u v, t = u ++ delimiter ++ v → P u → body.length ≤ u.length

/-- Of two places of a delimiter in one text, the earlier one ends no later. -/
theorem exists_append_of_length_le {delimiter body tail u v : Text}
    (h : body ++ delimiter ++ tail = u ++ delimiter ++ v) (hle : u.length ≤ body.length) :
    ∃ w, body ++ delimiter = u ++ delimiter ++ w := by
  have hfront : u ++ delimiter <+: body ++ delimiter ++ tail := h ▸ List.prefix_append _ v
  obtain ⟨w, hw⟩ := List.prefix_of_prefix_length_le hfront (List.prefix_append _ tail) (by
    rw [List.length_append, List.length_append]
    omega)
  exact ⟨w, hw.symm⟩

/-- The quote is the first free one, and no free line feed stands before it. -/
structure EndsLiteral (quote : Char) (t body tail : Text) : Prop extends
    FirstEnd IsFree [quote] t body tail where
  same_line : ∀ u v, body = u ++ '\n' :: v → ¬ IsFree u

/-- No backslash stands directly before. -/
def IsUnescaped (t : Text) : Prop := t.getLast? ≠ some '\\'

/-- The three quotes are the first with no backslash directly before them. -/
def EndsTextBlock (t body tail : Text) : Prop := FirstEnd IsUnescaped tripleQuote t body tail

section Literals

variable {quote : Char} {body : Text}

theorem LiteralBody.isFree (h : LiteralBody quote body) : IsFree body := by
  induction h with
  | nil => exact isFree_nil
  | escape c ht ih => exact (isFree_escape c _).mpr ih
  | plain c hc ht ih => exact (isFree_cons_of_ne c _ hc.1).mpr ih

/-- No quote and no line feed in a literal is free. -/
theorem LiteralBody.ne_of_isFree (h : LiteralBody quote body) (hquote : quote ≠ '\\')
    (u v : Text) (c : Char) (hsplit : body = u ++ c :: v) (hu : IsFree u) :
    c ≠ quote ∧ c ≠ '\n' := by
  induction h generalizing u with
  | nil => simp at hsplit
  | @escape t d ht ih =>
    -- the character is the backslash, the one that it takes, or stands behind both
    rcases u with _ | ⟨e, _ | ⟨f, u⟩⟩
    · obtain ⟨rfl, -⟩ := List.cons.inj hsplit
      exact ⟨hquote.symm, by decide⟩
    · obtain ⟨rfl, -⟩ := List.cons.inj hsplit
      exact absurd hu (by decide)
    · simp only [List.cons_append, List.cons.injEq] at hsplit
      obtain ⟨rfl, rfl, hsplit⟩ := hsplit
      exact ih u hsplit ((isFree_escape d u).mp hu)
  | @plain t d hd ht ih =>
    rcases u with _ | ⟨e, u⟩
    · obtain ⟨rfl, -⟩ := List.cons.inj hsplit
      exact ⟨hd.2.2, hd.2.1⟩
    · simp only [List.cons_append, List.cons.injEq] at hsplit
      obtain ⟨rfl, hsplit⟩ := hsplit
      exact ih u hsplit ((isFree_cons_of_ne d u hd.1).mp hu)

theorem LiteralBody.of_ne (hfree : IsFree body)
    (hne : ∀ u v c, body = u ++ c :: v → IsFree u → c ≠ quote ∧ c ≠ '\n') :
    LiteralBody quote body := by
  fun_induction literalBody? quote body with
  | case1 => exact .nil
  | case2 c rest ih =>
    refine .escape c (ih ((isFree_escape c rest).mp hfree) fun u v d hsplit hu => ?_)
    exact hne ('\\' :: c :: u) v d (by rw [hsplit]; rfl) ((isFree_escape c u).mpr hu)
  | case3 c rest hother hstop =>
    rcases Bool.or_eq_true_iff.mp hstop with hfeed | hslash
    · exact absurd (of_decide_eq_true hfeed) (hne [] rest c rfl isFree_nil).2
    · obtain rfl := of_decide_eq_true hslash
      cases rest with
      | nil => exact absurd hfree (by decide)
      | cons d rest => exact absurd rfl (hother d rest rfl)
  | case4 rest hother hstop => exact absurd rfl (hne [] rest quote rfl isFree_nil).1
  | case5 c rest hother hstop hquote ih =>
    simp only [Bool.or_eq_true, decide_eq_true_eq, not_or] at hstop
    refine .plain c ⟨hstop.2, hstop.1, hquote⟩ (ih ((isFree_cons_of_ne c rest hstop.2).mp hfree) ?_)
    intro u v d hsplit hu
    exact hne (c :: u) v d (by rw [hsplit]; rfl) ((isFree_cons_of_ne c u hstop.2).mpr hu)

theorem literalBody?_eq_some_iff (hquote : quote ≠ '\\' ∧ quote ≠ '\n') (t tail : Text) :
    literalBody? quote t = some (body, tail) ↔ EndsLiteral quote t body tail := by
  constructor
  · intro h
    have hbody := literalBody_of_literalBody? h
    have hsplit : t = body ++ [quote] ++ tail := by
      rw [literalBody?_spelling h, List.append_assoc]
      rfl
    refine ⟨⟨hsplit, hbody.isFree, fun u v huv hu => ?_⟩, fun u v huv hu => ?_⟩
    · -- an earlier free quote would stand in the body
      by_contra hshort
      rw [hsplit, List.append_assoc, List.append_assoc, List.append_eq_append_iff] at huv
      rcases huv with ⟨w, rfl, -⟩ | ⟨w, rfl, hrest⟩
      · exact hshort (by rw [List.length_append]; omega)
      · cases w with
        | nil => exact hshort (by rw [List.append_nil])
        | cons c w =>
          obtain ⟨rfl, -⟩ := List.cons.inj hrest
          exact (hbody.ne_of_isFree hquote.1 u w quote rfl hu).1 rfl
    · exact (hbody.ne_of_isFree hquote.1 u v '\n' huv hu).2 rfl
  · intro h
    have hbody : LiteralBody quote body := by
      refine .of_ne h.before fun u v c huv hu => ⟨?_, ?_⟩
      · rintro rfl
        have hle := h.first u (v ++ [c] ++ tail) (by rw [h.split, huv]; simp) hu
        rw [huv, List.length_append, List.length_cons] at hle
        omega
      · rintro rfl
        exact h.same_line u v huv hu
    rw [h.split, List.append_assoc]
    exact literalBody?_append hbody hquote tail

theorem isBlockBody_iff (body : Text) : IsBlockBody body ↔
    IsUnescaped body ∧
      ∀ u v, body ++ tripleQuote = u ++ tripleQuote ++ v → IsUnescaped u → v = [] := by
  constructor
  · intro h
    refine ⟨fun hlast => ?_, fun u v huv hu => ?_⟩
    · exact (h body [] (List.append_nil _).symm).mp hlast rfl
    · by_contra hne
      exact hu ((h u v huv).mpr hne)
  · rintro ⟨hbody, hfirst⟩ u v huv
    constructor
    · rintro hlast rfl
      rw [List.append_nil] at huv
      exact hbody (List.append_cancel_right huv ▸ hlast)
    · intro hne
      by_contra hu
      exact hne (hfirst u v huv hu)

theorem textBlockBody?_eq_some_iff (t tail : Text) :
    textBlockBody? '"' t = some (body, tail) ↔ EndsTextBlock t body tail := by
  constructor
  · intro h
    have hbody : IsBlockBody body := fun u v huv =>
      (getLast?_quote_cons u).symm.trans (isBlockBody_of_textBlockBody? h u v huv)
    obtain ⟨hlast, hfirst⟩ := (isBlockBody_iff body).mp hbody
    have hsplit := textBlockBody?_spelling h
    refine ⟨hsplit, hlast, fun u v huv hu => ?_⟩
    by_contra hshort
    obtain ⟨w, hw⟩ := exists_append_of_length_le (hsplit.symm.trans huv) (by omega)
    obtain rfl := hfirst u w hw hu
    rw [List.append_nil] at hw
    exact hshort (by rw [List.append_cancel_right hw])
  · intro h
    have hbody : IsBlockBody body := by
      refine (isBlockBody_iff body).mpr ⟨h.before, fun u v huv hu => ?_⟩
      have hle := h.first u (v ++ tail) (by rw [h.split, huv, List.append_assoc]) hu
      have hlength := congrArg List.length huv
      simp only [List.length_append] at hlength
      exact List.length_eq_zero_iff.mp (by omega)
    rw [h.split]
    exact textBlockBody?_append '"' body tail fun u v huv =>
      (getLast?_quote_cons u).trans (hbody u v huv)

end Literals

theorem Lexeme.breaksLine_eq_false {l : Lexeme} (h : ¬ "\\\n".toList <:+: l.spelling) :
    l.breaksLine = false := by
  cases l with
  | literal quote body =>
    refine (occursIn_eq_false_iff _ _).mpr fun hin => h (hin.trans ⟨[quote], [quote], ?_⟩)
    rfl
  | blank c | comment body | lineComment body | textBlock body | mark c => rfl

namespace Scan

/-- Where no backslash stands before a line feed, a scan counts the lines that it has read. -/
theorem Reaches.exists_line_eq {s last : Scan} {t u : Text} (h : Reaches s t last u) :
    ∃ before, t = before ++ u ∧
      (¬ "\\\n".toList <:+: before → last.line = s.line + feeds before) := by
  induction h with
  | refl s t => exact ⟨[], rfl, fun _ => (Int.add_zero s.line).symm⟩
  | @step s next last c rest tail t l hlexeme hread hlater ih =>
    obtain ⟨before, rfl, hline⟩ := ih
    refine ⟨l.spelling ++ before, ?_, fun hkept => ?_⟩
    · rw [lexeme?_spelling hlexeme, List.append_assoc]
    · have hlines : l.lines = feeds l.spelling := by
        refine Lexeme.lines_eq_feeds (endsBefore_of_lexeme? hlexeme)
          (Lexeme.breaksLine_eq_false fun hin => hkept ?_)
        exact hin.trans (List.prefix_append l.spelling before).isInfix
      rw [hline fun hin => hkept (hin.trans (List.suffix_append l.spelling before).isInfix),
        read_line hread, hlines, feeds_append]
      omega

theorem Reaches.read_eq_error {s : Scan} {t rest : Text} {c : Char} {fault : Fault}
    (h : Reaches .start t s (c :: rest)) (hlexeme : lexeme? c rest = .error fault) :
    Source.read t = .error ⟨s.line, fault⟩ := by
  rw [read_eq_readFrom, h.readFrom_eq, s.readFrom_of_error hlexeme]

end Scan

/-- Every literal and every text block of a file is skipped from its opener to the end that it
has, or is reported on the line of its opener where it has none. -/
theorem read_literal_outcomes (t rest : Text) (s : Scan) (quote : Char)
    (h : Scan.Reaches .start t s (quote :: rest)) (hquote : quote = '"' ∨ quote = '\'') :
    (∃ before, t = before ++ quote :: rest ∧
      (¬ "\\\n".toList <:+: before → s.line = 1 + feeds before)) ∧
    ((∀ after, quote = '"' → rest ≠ '"' :: '"' :: after) →
      (∀ body tail, EndsLiteral quote rest body tail →
        Scan.Reaches .start t (s.dropPending.putText [quote, quote]) tail) ∧
      ((∀ body tail, ¬ EndsLiteral quote rest body tail) →
        Source.read t = .error ⟨s.line, .openLiteral⟩)) ∧
    ∀ after, quote = '"' → rest = '"' :: '"' :: after →
      (∀ body tail, EndsTextBlock after body tail →
        Scan.Reaches .start t (s.dropPending.textBlock body) tail) ∧
      ((∀ body tail, ¬ EndsTextBlock after body tail) →
        Source.read t = .error ⟨s.line, .openTextBlock⟩) := by
  refine ⟨h.exists_line_eq, fun hblock => ?_, ?_⟩
  · have hlexeme := lexeme?_quote quote rest hquote hblock
    have hiff (body tail : Text) : literalBody? quote rest = some (body, tail) ↔
        EndsLiteral quote rest body tail :=
      literalBody?_eq_some_iff (by rcases hquote with rfl | rfl <;> decide) rest tail
    constructor
    · intro body tail hends
      rw [(hiff body tail).mpr hends] at hlexeme
      exact h.trans (.step hlexeme rfl (.refl _ _))
    · intro hnone
      have hbody : literalBody? quote rest = none :=
        Option.eq_none_iff_forall_ne_some.mpr fun found hfound =>
          hnone found.1 found.2 ((hiff _ _).mp hfound)
      rw [hbody] at hlexeme
      exact h.read_eq_error hlexeme
  · rintro after rfl rfl
    have hlexeme := lexeme?_tripleQuote after
    constructor
    · intro body tail hends
      rw [(textBlockBody?_eq_some_iff after tail).mpr hends] at hlexeme
      exact h.trans (.step hlexeme rfl (.refl _ _))
    · intro hnone
      have hbody : textBlockBody? '"' after = none :=
        Option.eq_none_iff_forall_ne_some.mpr fun found hfound =>
          hnone found.1 found.2 ((textBlockBody?_eq_some_iff _ _).mp hfound)
      rw [hbody] at hlexeme
      exact h.read_eq_error hlexeme

/-- A character literal of one escaped backslash. -/
def slashLiteral : Text := "'\\\\';".toList

/-- Its second backslash takes no quote with it. -/
theorem slashLiteral_ends :
    Scan.Reaches .start slashLiteral .start slashLiteral ∧
      EndsLiteral '\'' "\\\\';".toList "\\\\".toList [';'] ∧
      Scan.Reaches .start slashLiteral (Scan.start.putText "''".toList) [';'] := by
  have hopen : Scan.Reaches .start slashLiteral .start ('\'' :: "\\\\';".toList) := .refl _ _
  have hends : EndsLiteral '\'' "\\\\';".toList "\\\\".toList [';'] :=
    (literalBody?_eq_some_iff (by decide) _ _).mp (by decide)
  have houtcomes := read_literal_outcomes _ _ _ _ hopen (.inr rfl)
  exact ⟨hopen, hends, (houtcomes.2.1 fun _ h => absurd h (by decide)).1 _ _ hends⟩

/-- A text block that holds two backslashes. -/
def slashBlock : Text := "\"\"\"\\\\\"\"\"".toList

/-- A string literal that holds a backslash and a line feed. -/
def feedLiteral : Text := "\"\\\n\"".toList

/-- By the count of the backslashes before them, the three quotes would end the text block, and
the line feed would end the literal too early. -/
theorem backslashes_miscounted :
    (∃ s after body tail, Scan.Reaches .start slashBlock s ('"' :: '"' :: '"' :: after) ∧
      FirstEnd IsFree tripleQuote after body tail ∧
      Source.read slashBlock = .error ⟨s.line, .openTextBlock⟩) ∧
    ∃ s rest body tail, Scan.Reaches .start feedLiteral s ('"' :: rest) ∧
      FirstEnd IsFree ['"'] rest body tail ∧ '\n' ∈ body ∧
      Source.read feedLiteral = .ok ⟨[], []⟩ := by
  constructor
  · refine ⟨.start, "\\\\\"\"\"".toList, "\\\\".toList, [], .refl _ _, ?_, ?_⟩
    · refine ⟨by decide, by decide, fun u v huv hu => ?_⟩
      rcases u with _ | ⟨c, _ | ⟨d, u⟩⟩
      · exact absurd (List.cons.inj huv).1 (by decide)
      · obtain ⟨rfl, -⟩ := List.cons.inj huv
        exact absurd hu (by decide)
      · exact Nat.le_add_left 2 u.length
    · have hopen : Scan.Reaches .start slashBlock .start slashBlock := .refl _ _
      exact hopen.read_eq_error (lexeme?_tripleQuote _)
  · have hends : EndsLiteral '"' "\\\n\"".toList "\\\n".toList [] :=
      (literalBody?_eq_some_iff (by decide) _ _).mp (by decide)
    refine ⟨.start, _, _, [], .refl _ _, hends.toFirstEnd, by decide, ?_⟩
    exact eq_ok_of_toOption (by decide +kernel)

end NativeGlue.Source
