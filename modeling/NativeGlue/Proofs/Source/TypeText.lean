import NativeGlue.Proofs.Source.Annotation

/-!
The texts of types: identifiers joined by dots, with type arguments in angle brackets or without,
nested to any depth. Whatever their arguments, they hold nothing that a reader of parameters looks
for, and they end where a type may end.
-/

namespace NativeGlue.Source

open Text

/-- A text in which a reader of parameters finds no annotation, no modifier and no dots in a
row. -/
structure Inert (t : Text) : Prop where
  bare : '@' ∉ t
  unmodified : hasWord "final".toList t = false
  apart : ¬ ['.', '.'] <:+: t

/-- No annotation, modifier or row of dots goes across the character. -/
def separates (c : Char) : Bool := !(isNamePart c || c == '@' || c == '.')

theorem isNamePart_of_separates {c : Char} (h : separates c = true) : isNamePart c = false := by
  rw [separates, Bool.not_eq_true', Bool.or_eq_false_iff, Bool.or_eq_false_iff] at h
  exact h.1.1

theorem separates_of_isBlank {c : Char} (h : isBlank c = true) : separates c = true := by
  have hat : c ≠ '@' := ne_of_isBlank h rfl
  have hdot : c ≠ '.' := ne_of_isBlank h rfl
  simp [separates, isNamePart_of_isBlank c h, hat, hdot]

theorem final_isNamePart : ∀ c ∈ "final".toList, isNamePart c = true :=
  List.all_eq_true.mp (by decide)

/-- Dots stay apart when a text goes on behind a dot with no dot next to it. -/
theorem apart_append_dot {t u : Text} (ht : ¬ ['.', '.'] <:+: t) (hu : ¬ ['.', '.'] <:+: u)
    (hlast : t.getLast? ≠ some '.') (hfirst : u.head? ≠ some '.') :
    ¬ ['.', '.'] <:+: t ++ '.' :: u := by
  intro h
  rcases List.infix_append_iff_ne_nil.mp h with hleft | hright |
    ⟨left, right, hl, hr, heq, ⟨start, rfl⟩, -⟩
  · exact ht hleft
  · rcases List.infix_cons_iff.mp hright with hstart | hlater
    · obtain ⟨rest, rfl⟩ := (List.cons_prefix_cons.mp hstart).2
      exact hfirst rfl
    · exact hu hlater
  · obtain ⟨d, right, rfl⟩ := List.exists_cons_of_ne_nil hr
    rcases left with _ | ⟨c, _ | ⟨e, left⟩⟩
    · exact hl rfl
    · cases heq
      exact hlast (by simp)
    · simp at heq

namespace Inert

theorem nil : Inert [] := ⟨List.not_mem_nil, rfl, by simp⟩

theorem append_cons {t u : Text} {c : Char} (ht : Inert t) (hc : separates c = true)
    (hu : Inert u) : Inert (t ++ c :: u) where
  bare := by
    rw [List.mem_append, List.mem_cons, not_or, not_or]
    refine ⟨ht.bare, ?_, hu.bare⟩
    rintro rfl
    cases hc
  unmodified := by
    rw [hasWord_append_cons _ t u c (by decide) final_isNamePart (isNamePart_of_separates hc),
      ht.unmodified, hu.unmodified]
    rfl
  apart h := by
    have hdot : c ∉ ['.', '.'] := by
      simp only [List.mem_cons, List.not_mem_nil, or_false, or_self]
      rintro rfl
      cases hc
    exact (infix_of_infix_append_cons hdot h).elim ht.apart hu.apart

theorem gap_append {gap t : Text} (hgap : ∀ c ∈ gap, separates c = true) (ht : Inert t) :
    Inert (gap ++ t) := by
  induction gap with
  | nil => exact ht
  | cons c gap ih =>
    obtain ⟨hc, hlater⟩ := List.forall_mem_cons.mp hgap
    exact nil.append_cons hc (ih hlater)

theorem append_gap {t gap : Text} (ht : Inert t) (hgap : ∀ c ∈ gap, separates c = true) :
    Inert (t ++ gap) := by
  cases gap with
  | nil => rwa [List.append_nil]
  | cons c gap =>
    obtain ⟨hc, hlater⟩ := List.forall_mem_cons.mp hgap
    have hrest := gap_append hlater nil
    rw [List.append_nil] at hrest
    exact ht.append_cons hc hrest

theorem append_gap_append {t gap u : Text} (ht : Inert t) (hne : gap ≠ [])
    (hgap : ∀ c ∈ gap, separates c = true) (hu : Inert u) : Inert (t ++ (gap ++ u)) := by
  obtain ⟨c, gap, rfl⟩ := List.exists_cons_of_ne_nil hne
  obtain ⟨hc, hlater⟩ := List.forall_mem_cons.mp hgap
  exact ht.append_cons hc (gap_append hlater hu)

theorem join {c : Char} (hc : separates c = true) {pieces : List Text}
    (h : ∀ piece ∈ pieces, Inert piece) : Inert (join [c] pieces) := by
  induction pieces with
  | nil => exact nil
  | cons piece pieces ih =>
    obtain ⟨hpiece, hlater⟩ := List.forall_mem_cons.mp h
    cases pieces with
    | nil => simpa [Text.join] using hpiece
    | cons next pieces =>
      rw [join_cons_cons, List.append_assoc]
      exact hpiece.append_cons hc (ih hlater)

/-- A text goes on behind a dot if there is no dot next to it. -/
theorem append_dot {t u : Text} (ht : Inert t) (hu : Inert u) (hlast : t.getLast? ≠ some '.')
    (hfirst : u.head? ≠ some '.') : Inert (t ++ '.' :: u) where
  bare := by
    rw [List.mem_append, List.mem_cons, not_or, not_or]
    exact ⟨ht.bare, by decide, hu.bare⟩
  unmodified := by
    rw [hasWord_append_cons _ t u '.' (by decide) final_isNamePart (by decide), ht.unmodified,
      hu.unmodified]
    rfl
  apart := apart_append_dot ht.apart hu.apart hlast hfirst

end Inert

/-- An identifier other than the modifier `final`. The other keywords are admitted, and the
primitive types with them. -/
structure Identifier where
  text : Text
  starts : text.head?.any isNameStart = true
  parts : ∀ c ∈ text, isNamePart c = true
  free : text ≠ "final".toList

/-- A text with blanks around it. -/
structure Padded where
  before : Outline.Blanks
  inner : Text
  after : Outline.Blanks

def Padded.text (p : Padded) : Text := p.before.text ++ (p.inner ++ p.after.text)

/-- An identifier, a name qualified by what stands before its dot, or either of them with type
arguments. -/
inductive TypeText : Text → Prop
  | name (n : Identifier) : TypeText n.text
  | qualified {t : Text} (ht : TypeText t) (n : Identifier) : TypeText (t ++ '.' :: n.text)
  | generic {t : Text} (ht : TypeText t) (gap : Outline.Blanks) {arguments : List Padded}
    (harguments : ∀ a ∈ arguments, TypeText a.inner) :
    TypeText (t ++ (gap.text ++ '<' :: (join [','] (arguments.map Padded.text) ++ ['>'])))

/-- What a reader of parameters relies on in a type. -/
structure Declares (t : Text) : Prop where
  starts : t.head?.any isNameStart = true
  ends : t.getLast?.any endsType = true
  inert : Inert t

theorem Identifier.inert (n : Identifier) : Inert n.text where
  bare h := by cases n.parts '@' h
  unmodified := by
    rw [hasWord_name "final".toList n.text (by decide) n.parts]
    exact decide_eq_false n.free
  apart h := by cases n.parts '.' (h.subset List.mem_cons_self)

theorem Identifier.declares (n : Identifier) : Declares n.text where
  starts := n.starts
  ends := by
    obtain ⟨c, rest, htext, -⟩ := exists_cons_of_any_head? n.starts
    have hlast := List.getLast?_eq_some_getLast (htext ▸ List.cons_ne_nil c rest : n.text ≠ [])
    rw [hlast, Option.any_some, endsType, n.parts _ (List.getLast_mem _)]
    rfl
  inert := n.inert

theorem Declares.getLast?_ne_dot {t : Text} (h : Declares t) : t.getLast? ≠ some '.' := by
  intro hlast
  have hends := h.ends
  rw [hlast] at hends
  cases hends

theorem Declares.head?_ne_dot {t : Text} (h : Declares t) : t.head? ≠ some '.' := by
  intro hhead
  have hstarts := h.starts
  rw [hhead] at hstarts
  cases hstarts

theorem Declares.append {t u : Text} (ht : t.head?.any isNameStart = true)
    (hu : u.getLast?.any endsType = true) (h : Inert (t ++ u)) : Declares (t ++ u) where
  starts := by
    obtain ⟨c, rest, rfl, hc⟩ := exists_cons_of_any_head? ht
    exact hc
  ends := by
    obtain ⟨c, hlast, hc⟩ := (Option.any_eq_true _ _).mp hu
    rw [List.getLast?_append, hlast]
    exact hc
  inert := h

theorem Padded.inert {p : Padded} (h : Inert p.inner) : Inert p.text :=
  .gap_append (fun c hc => separates_of_isBlank (p.before.blank c hc))
    (h.append_gap fun c hc => separates_of_isBlank (p.after.blank c hc))

theorem TypeText.declares {t : Text} (h : TypeText t) : Declares t := by
  induction h with
  | name n => exact n.declares
  | @qualified t _ n ih =>
    have hinert := ih.inert.append_dot n.inert ih.getLast?_ne_dot n.declares.head?_ne_dot
    refine .append ih.starts ?_ hinert
    obtain ⟨c, hlast, hc⟩ := (Option.any_eq_true _ _).mp n.declares.ends
    rw [List.getLast?_cons, hlast]
    exact hc
  | @generic t _ gap arguments _ ih iharguments =>
    have hlist : Inert (join [','] (arguments.map Padded.text) ++ ['>']) := by
      refine (Inert.join rfl ?_).append_cons rfl .nil
      intro piece hpiece
      obtain ⟨a, ha, rfl⟩ := List.mem_map.mp hpiece
      exact Padded.inert (iharguments a ha).inert
    have hgap := ih.inert.append_gap fun c hc => separates_of_isBlank (gap.blank c hc)
    have hinert := hgap.append_cons (c := '<') rfl hlist
    rw [List.append_assoc] at hinert
    refine .append ih.starts ?_ hinert
    simp [List.getLast?_append, List.getLast?_cons, endsType]

end NativeGlue.Source
