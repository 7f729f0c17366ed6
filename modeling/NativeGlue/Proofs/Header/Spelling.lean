import NativeGlue.Proofs.Header.Outline
import NativeGlue.Proofs.Text.Squeeze

/-!
Reading a prototype, whatever its spacing. The return type ends before the last call macro in front
of the parenthesis: an earlier one would have two words or more behind it, where a prototype has
its name alone. The parameter list ends with the parenthesis before the semicolon.
-/

namespace NativeGlue

open Text
open Outline (Blanks oneBlank)
open HeaderOutline (Gap Identifier)

def HeaderOutline.oneSpace : Gap := ⟨oneBlank, List.cons_ne_nil _ _⟩

theorem HeaderOutline.Gap.isBlank_head? (gap : Gap) (rest : Text) :
    (gap.text ++ rest).head?.any isBlank = true := by
  obtain ⟨c, more, htext⟩ := List.exists_cons_of_ne_nil gap.nonempty
  rw [htext]
  exact gap.blank c (htext ▸ List.mem_cons_self)

namespace Header

/-- A prototype as it may be spelled. The result stands between the two macros, with blanks at both
ends. -/
structure SpelledPrototype where
  result : Text
  opened : result.head?.any isBlank = true
  closed : result.getLast?.any isBlank = true
  hasWord : trim result ≠ []
  isType : ∀ c ∈ result, endsReturnType c = false
  nameGap : Gap
  name : Identifier
  listGap : Blanks
  list : Text
  isList : ∀ c ∈ list, c ≠ ';' ∧ isBrace c = false
  endGap : Blanks

namespace SpelledPrototype

/-- The name and the blanks around it. -/
def heading (s : SpelledPrototype) : Text := s.nameGap.text ++ (s.name.text ++ s.listGap.text)

/-- What stands behind the opening parenthesis. -/
def closing (s : SpelledPrototype) : Text := s.list ++ ')' :: (s.endGap.text ++ [';'])

def text (s : SpelledPrototype) : Text :=
  exportMacro ++ (s.result ++ (callMacro ++ (s.heading ++ '(' :: s.closing)))

/-- The signature of a prototype that begins on the given line. -/
def signature (s : SpelledPrototype) (line : Int) : Signature :=
  Prototype.signature ⟨s.result, s.name.text, s.list, []⟩ line

end SpelledPrototype

section Call

theorem untilSemicolon?_append (t rest : Text) (h : ∀ c ∈ t, c ≠ ';' ∧ isBrace c = false) :
    untilSemicolon? (t ++ ';' :: rest) = some (t, rest) := by
  induction t with
  | nil => rfl
  | cons c t ih =>
    rw [List.forall_mem_cons] at h
    rw [List.cons_append, untilSemicolon?, if_neg h.1.1, h.1.2, if_neg Bool.false_ne_true, ih h.2]
    rfl

theorem beforeClosing?_append (t : Text) (gap : Blanks) :
    beforeClosing? (t ++ ')' :: gap.text) = some t := by
  have hsplit : t ++ ')' :: gap.text = (t ++ [')']) ++ gap.text := by simp
  rw [beforeClosing?, hsplit, trimEnd_append_blanks _ _ gap.blank,
    trimEnd_append_singleton t ')' rfl]
  simp

namespace SpelledPrototype

variable (s : SpelledPrototype)

theorem untilSemicolon?_closing (rest : Text) :
    untilSemicolon? (s.closing ++ rest) = some (s.list ++ ')' :: s.endGap.text, rest) := by
  have hsplit : s.closing ++ rest = (s.list ++ ')' :: s.endGap.text) ++ ';' :: rest := by
    simp [closing]
  rw [hsplit]
  apply untilSemicolon?_append
  simp only [List.forall_mem_append, List.forall_mem_cons]
  exact ⟨s.isList, ⟨by decide, rfl⟩, fun c hc =>
    (HeaderOutline.separates_eq_false c
      (HeaderOutline.isTypePart_of_isBlank (s.endGap.blank c hc))).2.1⟩

/-- A prototype is read behind its call macro. -/
theorem afterCall?_heading (type rest : Text) :
    afterCall? type (s.heading ++ '(' :: (s.closing ++ rest)) =
      some ⟨type, s.name.text, s.list, rest⟩ := by
  let inside := s.closing ++ rest
  obtain ⟨c, more, hname, -, hword⟩ := s.name.exists_cons
  have hhead : (s.heading ++ '(' :: inside).head?.any isBlank = true := by
    rw [heading, List.append_assoc]
    exact s.nameGap.isBlank_head? _
  have hskip : skipBlanks (s.heading ++ '(' :: inside) =
      s.name.text ++ (s.listGap.text ++ '(' :: inside) := by
    rw [heading, List.append_assoc, List.append_assoc,
      skipBlanks_blanks_append _ _ s.nameGap.blank, hname, List.cons_append,
      skipBlanks_cons c _ (HeaderOutline.isBlank_of_isAsciiWord c (hword c List.mem_cons_self))]
  have hstop : (s.listGap.text ++ '(' :: inside).head?.any isAsciiWord = false := by
    cases hlist : s.listGap.text with
    | nil => rfl
    | cons e more =>
      have he := s.listGap.blank e (hlist ▸ List.mem_cons_self)
      by_contra hword
      rw [HeaderOutline.isBlank_of_isAsciiWord e (by simpa using hword)] at he
      cases he
  obtain ⟨htake, hdrop⟩ := takeWhile_append_stop s.name.isWord.chars hstop
  have hopen : skipBlanks (s.listGap.text ++ '(' :: inside) = '(' :: inside := by
    rw [skipBlanks_blanks_append _ _ s.listGap.blank, skipBlanks_cons '(' _ rfl]
  unfold afterCall?
  simp only [inside] at hhead hskip htake hdrop hopen
  simp only [hhead, hskip, htake, hdrop, s.name.isName, hopen, Bool.and_self, if_true,
    s.untilSemicolon?_closing, Option.bind_some, beforeClosing?_append, Option.map_some]

end SpelledPrototype

/-- A prototype has one word between the call macro and the parenthesis. -/
theorem words_of_afterCall? {type front inside : Text} {p : Prototype} (hfront : '(' ∉ front)
    (h : afterCall? type (front ++ '(' :: inside) = some p) : words front = [p.name] := by
  unfold afterCall? at h
  generalize ht : front ++ '(' :: inside = t at h
  dsimp only at h
  split at h
  · next after hafter =>
    obtain ⟨⟨list, rest⟩, -, h⟩ := Option.bind_eq_some_iff.mp h
    obtain ⟨parameters, -, rfl⟩ := Option.map_eq_some_iff.mp h
    split_ifs at hafter with hname
    let before := t.takeWhile isBlank
    let named := skipBlanks t
    let name := named.takeWhile isAsciiWord
    let unnamed := named.dropWhile isAsciiWord
    let gap := unnamed.takeWhile isBlank
    have hword : HeaderOutline.IsWord name :=
      (Identifier.mk name (Bool.and_eq_true_iff.mp hname).2).isWord
    have hblank (u : Text) : ∀ c ∈ u.takeWhile isBlank, isBlank c = true :=
      List.all_eq_true.mp List.all_takeWhile
    have hread : front ++ '(' :: inside = (before ++ (name ++ gap)) ++ '(' :: after := by
      calc front ++ '(' :: inside = before ++ named := ht.trans List.takeWhile_append_dropWhile.symm
        _ = before ++ (name ++ unnamed) := congrArg _ List.takeWhile_append_dropWhile.symm
        _ = before ++ (name ++ (gap ++ skipBlanks unnamed)) :=
          congrArg (fun u => before ++ (name ++ u)) List.takeWhile_append_dropWhile.symm
        _ = (before ++ (name ++ gap)) ++ '(' :: after := by
          rw [hafter, List.append_assoc, List.append_assoc]
    have hplain : '(' ∉ before ++ (name ++ gap) := by
      rw [List.mem_append, List.mem_append, not_or, not_or]
      exact ⟨notMem_blanks (hblank t) rfl, hword.notMem '(' (by decide),
        notMem_blanks (hblank unnamed) rfl⟩
    rw [eq_of_append_cons_eq hfront hplain hread, words_blanks_append before _ (hblank t),
      words_append_blanks name gap (hblank unnamed),
      words_word name hword.nonempty hword.isBlank_of_mem]
  · cases h

/-- A call macro that has another behind it is part of the return type. -/
theorem SpelledPrototype.afterCall?_earlier (s : SpelledPrototype) (type more : Text) (gap : Gap)
    (inside : Text) (hmore : '(' ∉ more) :
    afterCall? type (more ++ (gap.text ++ (callMacro ++ (s.heading ++ '(' :: inside)))) = none := by
  let front := more ++ (gap.text ++ (callMacro ++ s.heading))
  have hwords : words front = words more ++ [callMacro, s.name.text] := by
    have hcall : words callMacro = [callMacro] := rfl
    rw [words_gap more gap.text _ gap.nonempty gap.blank, heading,
      words_gap callMacro _ _ s.nameGap.nonempty s.nameGap.blank, hcall,
      words_append_blanks _ _ s.listGap.blank,
      words_word _ s.name.isWord.nonempty s.name.isWord.isBlank_of_mem]
    rfl
  have hfront : '(' ∉ front := by
    simp only [front, heading, List.mem_append, not_or]
    exact ⟨hmore, notMem_blanks gap.blank rfl, by decide, notMem_blanks s.nameGap.blank rfl,
      s.name.isWord.notMem '(' (by decide), notMem_blanks s.listGap.blank rfl⟩
  have hsplit : more ++ (gap.text ++ (callMacro ++ (s.heading ++ '(' :: inside))) =
      front ++ '(' :: inside := by
    simp [front]
  rw [hsplit, Option.eq_none_iff_forall_ne_some]
  intro p hp
  have hlength := congrArg List.length (hwords.symm.trans (words_of_afterCall? hfront hp))
  simp at hlength

end Call

section Result

theorem afterExportFrom?_blanks (type gap blanks rest : Text)
    (hblanks : ∀ c ∈ blanks, isBlank c = true) :
    afterExportFrom? type gap (blanks ++ rest) = afterExportFrom? type (gap ++ blanks) rest := by
  induction blanks generalizing gap with
  | nil => rw [List.nil_append, List.append_nil]
  | cons c blanks ih =>
    have hc := hblanks c List.mem_cons_self
    have hdrop : dropStart? callMacro (c :: (blanks ++ rest)) = none := by
      change (if 'J' = c then _ else none) = none
      rw [if_neg]
      rintro rfl
      cases hc
    rw [List.cons_append, afterExportFrom?, hdrop, Option.bind_none, ite_self, hc,
      if_pos rfl, ih _ fun d hd => hblanks d (List.mem_cons_of_mem c hd), List.append_assoc,
      List.singleton_append]

theorem afterExportFrom?_call (type gap after : Text) (p : Prototype) (hgap : gap ≠ [])
    (h : afterCall? type after = some p) :
    afterExportFrom? type gap (callMacro ++ after) = some p := by
  have hdrop : dropStart? callMacro ('J' :: (callMacro.tail ++ after)) = some after :=
    dropStart?_append callMacro after
  change afterExportFrom? type gap ('J' :: (callMacro.tail ++ after)) = some p
  rw [afterExportFrom?, hdrop, Option.bind_some, h]
  simp [hgap]

/-- A word that begins before a blank ends before it. -/
theorem exists_eq_append_of_dropStart? {word t tail after : Text}
    (hword : ∀ c ∈ word, isBlank c = false) (htail : tail.head?.any isBlank = true)
    (h : dropStart? word (t ++ tail) = some after) :
    ∃ more, t = word ++ more ∧ after = more ++ tail := by
  rcases List.append_eq_append_iff.mp (eq_append_of_dropStart? h) with
    ⟨more, hmore, hrest⟩ | ⟨more, hmore, hrest⟩
  · cases more with
    | nil => exact ⟨[], by rw [hmore, List.append_nil, List.append_nil], hrest.symm⟩
    | cons c more =>
      have hblank : isBlank c = true := by rwa [hrest] at htail
      rw [hword c (by simp [hmore])] at hblank
      cases hblank
  · exact ⟨more, hmore, hrest⟩

/-- A return type is read to its end where no call macro inside it is that of a prototype. -/
theorem afterExportFrom?_type {core tail : Text} (type gap : Text) (hne : core ≠ [])
    (hends : ∀ c ∈ core, endsReturnType c = false) (hlast : core.getLast?.any isBlank = false)
    (htail : tail.head?.any isBlank = true)
    (hcall : ∀ type more, more <:+ core → afterCall? type (more ++ tail) = none) :
    afterExportFrom? type gap (core ++ tail) = afterExportFrom? (type ++ gap ++ core) [] tail := by
  induction core generalizing type gap with
  | nil => exact absurd rfl hne
  | cons c core ih =>
    obtain ⟨hc, hlater⟩ := List.forall_mem_cons.mp hends
    have hread : (dropStart? callMacro (c :: (core ++ tail))).bind (afterCall? type) = none := by
      rw [Option.bind_eq_none_iff]
      intro after hafter
      obtain ⟨more, hmore, rfl⟩ := exists_eq_append_of_dropStart? (t := c :: core)
        (isBlank_of_all rfl) htail hafter
      exact hcall type more ⟨callMacro, hmore.symm⟩
    have hstep : afterExportFrom? type gap (c :: (core ++ tail)) =
        if isBlank c then afterExportFrom? type (gap ++ [c]) (core ++ tail)
        else afterExportFrom? (type ++ gap ++ [c]) [] (core ++ tail) := by
      rw [afterExportFrom?, hread, ite_self, hc]
      rfl
    rw [List.cons_append, hstep]
    cases core with
    | nil =>
      have hblank : isBlank c = false := hlast
      rw [hblank, if_neg Bool.false_ne_true]
      rfl
    | cons d core =>
      have hnext (type gap : Text) := ih type gap (List.cons_ne_nil d core) hlater hlast
        fun type more hmore => hcall type more (hmore.trans (List.suffix_cons c _))
      rw [hnext, hnext, ← List.append_assoc type gap [c], List.append_nil, ite_self,
        List.append_assoc, List.singleton_append]

namespace SpelledPrototype

variable (s : SpelledPrototype)

/-- The blanks around the return type part it from the macros. -/
theorem exists_result_eq : ∃ before after : Gap,
    s.result = before.text ++ (trim s.result ++ after.text) := by
  obtain ⟨before, after, hresult, hbefore, hafter⟩ := exists_eq_append_trim s.result
  have hfirst : before ≠ [] := by
    rintro rfl
    have hopened := s.opened
    rw [hresult, List.nil_append, List.head?_append_of_ne_nil _ s.hasWord,
      isBlank_head?_trim] at hopened
    cases hopened
  have hlast : after ≠ [] := by
    rintro rfl
    have hclosed := s.closed
    rw [hresult, List.append_nil, List.getLast?_append_of_ne_nil _ s.hasWord,
      isBlank_getLast?_trim] at hclosed
    cases hclosed
  exact ⟨⟨⟨before, hbefore⟩, hfirst⟩, ⟨⟨after, hafter⟩, hlast⟩, hresult⟩

/-- A prototype is read as it is spelled, whatever follows it. -/
theorem prototype?_text (rest : Text) :
    prototype? (s.text ++ rest) = some ⟨trim s.result, s.name.text, s.list, rest⟩ := by
  obtain ⟨before, after, hresult⟩ := s.exists_result_eq
  let call := callMacro ++ (s.heading ++ '(' :: (s.closing ++ rest))
  let typed := trim s.result ++ (after.text ++ call)
  have htext : s.text ++ rest = exportMacro ++ (before.text ++ typed) := by
    rw [text, hresult]
    simp [typed, call]
  have hisType : ∀ c ∈ trim s.result, endsReturnType c = false := fun c hc =>
    s.isType c ((trim_isInfix s.result).subset hc)
  have hread : afterExportFrom? [] [] typed = some ⟨trim s.result, s.name.text, s.list, rest⟩ := by
    rw [afterExportFrom?_type [] [] s.hasWord hisType (isBlank_getLast?_trim _),
      afterExportFrom?_blanks _ _ after.text _ after.blank]
    · exact afterExportFrom?_call _ _ _ _ after.nonempty (s.afterCall?_heading _ rest)
    · exact after.isBlank_head? call
    · intro type more hmore
      refine s.afterCall?_earlier type more after _ fun hopen => ?_
      cases hisType '(' (hmore.subset hopen)
  have hstop : typed.head?.any isBlank = false := by
    rw [List.head?_append_of_ne_nil _ s.hasWord, isBlank_head?_trim]
  obtain ⟨htake, hdrop⟩ := takeWhile_append_stop before.blank hstop
  rw [htext, prototype?, dropStart?_append, Option.bind_some]
  unfold afterExport?
  rw [htake, hdrop]
  simp [before.nonempty, hread]

end SpelledPrototype

end Result

end Header

end NativeGlue
