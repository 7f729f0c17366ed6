import NativeGlue.Proofs.Source.Outline
import NativeGlue.Proofs.Source.Spacing
import NativeGlue.Proofs.Text.Squeeze

/-!
Annotations in front of something. The argument list of an annotation ends where its parentheses
are paired, at any depth, and the annotation without a list ends with its name, so each of them is
erased as a whole whatever follows it. Annotations and the modifier `final` in front of a
parameter leave nothing but blanks.
-/

namespace NativeGlue

open Text

namespace Source

/-- Every parenthesis of the text has its partner in it. -/
inductive Paired : Text → Prop
  | nil : Paired []
  | other (c : Char) {t : Text} (hopen : c ≠ '(') (hclose : c ≠ ')') (ht : Paired t) :
    Paired (c :: t)
  | group {inside after : Text} (hinside : Paired inside) (hafter : Paired after) :
    Paired ('(' :: (inside ++ ')' :: after))

/-- Paired parentheses are passed over at any depth. -/
theorem cutClosing?_paired {t : Text} (h : Paired t) (depth : Int) (hdepth : 1 ≤ depth)
    (rest : Text) :
    cutClosing? depth (t ++ rest) =
      (cutClosing? depth rest).map fun cut => (t ++ cut.1, cut.2) := by
  induction h generalizing depth rest with
  | nil => simp
  | other c hopen hclose ht ih =>
    rw [List.cons_append, cutClosing?_cons, if_neg fun h => hclose h.1, if_neg hopen,
      if_neg hclose, ih depth hdepth rest, Option.map_map]
    rfl
  | @group inside after hinside hafter ihinside ihafter =>
    have hclosing (u : Text) : cutClosing? (depth + 1) (')' :: u) =
        (cutClosing? depth u).map fun cut => (')' :: cut.1, cut.2) := by
      rw [cutClosing?_cons, if_neg (by omega), if_neg (by decide), if_pos rfl,
        Int.add_sub_cancel]
    rw [List.cons_append, List.append_assoc, List.cons_append, cutClosing?_cons,
      if_neg (by simp), if_pos rfl, ihinside (depth + 1) (by omega), hclosing,
      ihafter depth hdepth, Option.map_map, Option.map_map, Option.map_map]
    simp [Function.comp_def]

theorem cutClosing?_group {inside : Text} (h : Paired inside) (rest : Text) :
    cutClosing? 1 (inside ++ ')' :: rest) = some (inside, rest) := by
  rw [cutClosing?_paired h 1 (by omega), cutClosing?_cons, if_pos ⟨rfl, rfl⟩]
  simp

/-- The at sign and the dotted name that begin an annotation. -/
structure AnnotationName where
  gap : Outline.Blanks
  name : Text
  starts : name.head?.any isNameStart = true
  parts : ∀ c ∈ name, isDottedNamePart c = true

def AnnotationName.text (n : AnnotationName) : Text := '@' :: (n.gap.text ++ n.name)

theorem isNamePart_of_isNameStart {c : Char} (h : isNameStart c = true) : isNamePart c = true := by
  rw [isNameStart, Bool.or_eq_true, Bool.or_eq_true] at h
  rcases h with (hletter | hunderscore) | hdollar
  · have halnum : c.isAlphanum = true := by
      rw [Char.isAlphanum, show c.isAlpha = true from hletter, Bool.true_or]
    simp [isNamePart, isWord, isAsciiWord, halnum]
  · simp [isNamePart, isWord, isAsciiWord, hunderscore]
  · simp [isNamePart, hdollar]

theorem isBlank_of_isNameStart {c : Char} (h : isNameStart c = true) : isBlank c = false :=
  isBlank_of_isNamePart c (isNamePart_of_isNameStart h)

theorem isDottedNamePart_of_isBlank {c : Char} (h : isBlank c = true) :
    isDottedNamePart c = false := by
  have hdot : c ≠ '.' := ne_of_isBlank h rfl
  simp [isDottedNamePart, isNamePart_of_isBlank c h, hdot]

theorem AnnotationName.afterAnnotationName? (n : AnnotationName) (rest : Text)
    (hrest : rest.head?.any isDottedNamePart = false) :
    afterAnnotationName? (n.gap.text ++ n.name ++ rest) = some rest := by
  obtain ⟨c, name, hname, hstart⟩ := exists_cons_of_any_head? n.starts
  have hparts : ∀ d ∈ name, isDottedNamePart d = true := fun d hd =>
    n.parts d (hname ▸ List.mem_cons_of_mem c hd)
  have hdrop : (name ++ rest).dropWhile isDottedNamePart = rest :=
    (takeWhile_append_stop hparts hrest).2
  have hskip : skipBlanks (n.gap.text ++ n.name ++ rest) = c :: (name ++ rest) := by
    rw [List.append_assoc, skipBlanks_blanks_append _ _ n.gap.blank, hname, List.cons_append,
      skipBlanks_cons c _ (isBlank_of_isNameStart hstart)]
  unfold Source.afterAnnotationName?
  rw [hskip]
  simp only [hstart, if_true, hdrop]

/-- An annotation, whose argument list, if it has one, is of the given kind. -/
inductive IsAnnotation (Inside : Text → Prop) : Text → Prop
  | bare (n : AnnotationName) : IsAnnotation Inside n.text
  | applied (n : AnnotationName) (gap : Outline.Blanks) {inside : Text} (h : Inside inside) :
    IsAnnotation Inside (n.text ++ (gap.text ++ '(' :: (inside ++ [')'])))

theorem eraseAnnotations_append (t rest : Text) (h : '@' ∉ t) :
    eraseAnnotations (t ++ rest) = t ++ eraseAnnotations rest := by
  induction t with
  | nil => rfl
  | cons c t ih =>
    have hc : c ≠ '@' := by
      rintro rfl
      exact h List.mem_cons_self
    rw [List.cons_append, eraseAnnotations_cons c _ hc,
      ih fun hmem => h (List.mem_cons_of_mem c hmem), List.cons_append]

/-- What ends an annotation that has no argument list. -/
structure EndsName (rest : Text) : Prop where
  part : rest.head?.any isDottedNamePart = false
  list : (skipBlanks rest).head? ≠ some '('

theorem eraseAnnotations_bare (n : AnnotationName) {rest : Text} (h : EndsName rest) :
    eraseAnnotations (n.text ++ rest) = ' ' :: eraseAnnotations rest := by
  have hargs : afterArguments? rest = some rest := by
    refine afterArguments?_other fun tail htail => h.list ?_
    rw [htail, List.head?_cons]
  rw [AnnotationName.text, List.cons_append, eraseAnnotations_at,
    n.afterAnnotationName? rest h.part]
  simp only [hargs]

/-- An annotation with an argument list is erased up to the end of the list. One whose list never
ends stays, with all that follows it. -/
theorem eraseAnnotations_open (n : AnnotationName) (gap : Outline.Blanks) (t : Text) :
    eraseAnnotations (n.text ++ (gap.text ++ '(' :: t)) =
      match cutClosing? 1 t with
      | some cut => ' ' :: eraseAnnotations cut.2
      | none => n.text ++ (gap.text ++ '(' :: t) := by
  have hpart : (gap.text ++ '(' :: t).head?.any isDottedNamePart = false := by
    obtain ⟨blanks, hblanks⟩ := gap
    cases blanks with
    | nil => rfl
    | cons c blanks => exact isDottedNamePart_of_isBlank (hblanks c List.mem_cons_self)
  have hskip : skipBlanks (gap.text ++ '(' :: t) = '(' :: t := by
    rw [skipBlanks_blanks_append _ _ gap.blank, skipBlanks_cons '(' _ rfl]
  rw [AnnotationName.text, List.cons_append, eraseAnnotations_at, n.afterAnnotationName? _ hpart]
  simp only [afterArguments?_open hskip]
  cases cutClosing? 1 t <;> rfl

theorem eraseAnnotations_applied (n : AnnotationName) (gap : Outline.Blanks) {inside : Text}
    (h : Paired inside) (rest : Text) :
    eraseAnnotations (n.text ++ (gap.text ++ '(' :: (inside ++ ')' :: rest))) =
      ' ' :: eraseAnnotations rest := by
  rw [eraseAnnotations_open, cutClosing?_group h]

/-- An annotation leaves a space, whatever it holds and however deep it nests. -/
theorem eraseAnnotations_annotation {note rest : Text} (h : IsAnnotation Paired note)
    (hrest : EndsName rest) :
    eraseAnnotations (note ++ rest) = ' ' :: eraseAnnotations rest := by
  cases h with
  | bare n => exact eraseAnnotations_bare n hrest
  | applied n gap hinside => simpa using eraseAnnotations_applied n gap hinside rest

/-- A blank, or the at sign of an annotation. -/
def isStop (c : Char) : Bool := isBlank c || c == '@'

/-- Blanks, modifiers `final` and annotations, each of them ended by a blank, by the next at sign
or by its own argument list. -/
inductive Front : Text → Prop
  | nil : Front []
  | blank {c : Char} {t : Text} (hc : isBlank c = true) (ht : Front t) : Front (c :: t)
  | final {t : Text} (ht : Front t) (hstop : t.head?.any isStop = true) :
    Front ("final".toList ++ t)
  | bare (n : AnnotationName) {t : Text} (ht : Front t) (hstop : t.head?.any isStop = true) :
    Front (n.text ++ t)
  | applied (n : AnnotationName) (gap : Outline.Blanks) {inside t : Text} (hinside : Paired inside)
    (ht : Front t) : Front (n.text ++ (gap.text ++ '(' :: (inside ++ ')' :: t)))

/-- What is left of a front whose annotations are erased. -/
inductive Modifiers : Text → Prop
  | nil : Modifiers []
  | blank {c : Char} {t : Text} (hc : isBlank c = true) (ht : Modifiers t) : Modifiers (c :: t)
  | final {c : Char} {t : Text} (hc : isBlank c = true) (ht : Modifiers t) :
    Modifiers ("final".toList ++ c :: t)

theorem Front.head?_skipBlanks {front : Text} (h : Front front) (rest : Text)
    (hrest : (skipBlanks rest).head? ≠ some '(') :
    (skipBlanks (front ++ rest)).head? ≠ some '(' := by
  induction h with
  | nil => exact hrest
  | @blank c t hc ht ih =>
    rw [List.cons_append, skipBlanks_blank c _ hc]
    exact ih
  | final ht hstop ih =>
    rw [show "final".toList = 'f' :: "inal".toList from rfl, List.cons_append, List.cons_append,
      skipBlanks_cons 'f' _ rfl]
    simp
  | bare n ht hstop ih =>
    rw [AnnotationName.text, List.cons_append, List.cons_append, skipBlanks_cons '@' _ rfl]
    simp
  | applied n gap hinside ht ih =>
    rw [AnnotationName.text, List.cons_append, List.cons_append, skipBlanks_cons '@' _ rfl]
    simp

theorem isDottedNamePart_of_isStop {c : Char} (h : isStop c = true) :
    isDottedNamePart c = false := by
  rcases Bool.or_eq_true_iff.mp h with hblank | hat
  · exact isDottedNamePart_of_isBlank hblank
  · rw [eq_of_beq hat]
    rfl

/-- The annotations of a front become spaces. -/
theorem Front.exists_modifiers {front : Text} (h : Front front) (rest : Text)
    (hrest : (skipBlanks rest).head? ≠ some '(') :
    ∃ modifiers, Modifiers modifiers ∧
      (front.head?.any isStop = true → modifiers.head?.any isBlank = true) ∧
      eraseAnnotations (front ++ rest) = modifiers ++ eraseAnnotations rest := by
  induction h with
  | nil => exact ⟨[], .nil, id, rfl⟩
  | @blank c t hc ht ih =>
    obtain ⟨modifiers, hmodifiers, -, heq⟩ := ih
    refine ⟨c :: modifiers, .blank hc hmodifiers, fun _ => hc, ?_⟩
    rw [List.cons_append, eraseAnnotations_cons c _ (ne_of_isBlank hc rfl), heq, List.cons_append]
  | @final t ht hstop ih =>
    obtain ⟨modifiers, hmodifiers, hblank, heq⟩ := ih
    obtain ⟨c, later, rfl, hc⟩ := exists_cons_of_any_head? (hblank hstop)
    have hlater : Modifiers later := by
      cases hmodifiers with
      | blank _ h => exact h
      | final _ _ => cases hc
    refine ⟨"final".toList ++ c :: later, .final hc hlater, (fun h => by cases h), ?_⟩
    rw [List.append_assoc, eraseAnnotations_append _ _ (by decide), heq, List.append_assoc]
  | @bare n t ht hstop ih =>
    obtain ⟨modifiers, hmodifiers, -, heq⟩ := ih
    have hends : EndsName (t ++ rest) := by
      refine ⟨?_, ht.head?_skipBlanks rest hrest⟩
      obtain ⟨c, u, rfl, hc⟩ := exists_cons_of_any_head? hstop
      exact isDottedNamePart_of_isStop hc
    refine ⟨' ' :: modifiers, .blank rfl hmodifiers, fun _ => rfl, ?_⟩
    rw [List.append_assoc, eraseAnnotations_bare n hends, heq, List.cons_append]
  | applied n gap hinside ht ih =>
    obtain ⟨modifiers, hmodifiers, -, heq⟩ := ih
    refine ⟨' ' :: modifiers, .blank rfl hmodifiers, fun _ => rfl, ?_⟩
    rw [List.append_assoc, List.append_assoc, List.cons_append, List.append_assoc,
      List.cons_append, eraseAnnotations_applied n gap hinside, heq, List.cons_append]

/-- The modifiers become blanks. -/
theorem Modifiers.exists_blanks {modifiers : Text} (h : Modifiers modifiers)
    (before : Option Char) (hbefore : atNameBoundary before = true) (rest : Text) :
    ∃ blanks, (∀ c ∈ blanks, isBlank c = true) ∧
      eraseFinalFrom before (modifiers ++ rest) = blanks ++ eraseFinalFrom none rest := by
  induction h generalizing before with
  | nil => exact ⟨[], by simp, eraseFinalFrom_congr rest hbefore⟩
  | @blank c t hc ht ih =>
    obtain ⟨blanks, hblanks, heq⟩ := ih none rfl
    refine ⟨c :: blanks, List.forall_mem_cons.mpr ⟨hc, hblanks⟩, ?_⟩
    rw [List.cons_append, eraseFinalFrom_blank before c _ hc, heq, List.cons_append]
  | @final c t hc ht ih =>
    obtain ⟨blanks, hblanks, heq⟩ := ih none rfl
    refine ⟨' ' :: blanks, List.forall_mem_cons.mpr ⟨rfl, hblanks⟩, ?_⟩
    have hstarts : startsFinal before ("final".toList ++ c :: (t ++ rest)) = true := by
      rw [startsFinal, hbefore, dropStart?_append]
      exact hc
    obtain ⟨d, later, hsame, -, herase⟩ := eraseFinalFrom_final hstarts
    obtain ⟨rfl, rfl⟩ := List.cons.inj (List.append_cancel_left hsame)
    rw [List.append_assoc, List.cons_append, herase, eraseFinalFrom_congr _ (boundary_of_blank hc),
      heq, List.cons_append]

/-- A parameter is read as if nothing stood in front of it. -/
theorem Front.readParameter_append {front t : Text} (h : Front front)
    (hstart : t.head?.any isNameStart = true) (hbare : '@' ∉ t)
    (hfinal : hasWord "final".toList t = false) :
    readParameter (front ++ t) = readDeclarator (squeeze t) := by
  obtain ⟨c, rest, rfl, hc⟩ := exists_cons_of_any_head? hstart
  have hblank : isBlank c = false := isBlank_of_isNameStart hc
  have hlist : (skipBlanks (c :: rest)).head? ≠ some '(' := by
    rw [skipBlanks_cons c rest hblank, List.head?_cons]
    rintro ⟨⟩
    cases hc
  obtain ⟨modifiers, hmodifiers, -, herase⟩ := h.exists_modifiers (c :: rest) hlist
  obtain ⟨blanks, hblanks, hleft⟩ := hmodifiers.exists_blanks none rfl (c :: rest)
  have hkept : eraseFinalFrom none (c :: rest) = c :: rest := eraseFinal_eq_self _ hfinal
  have hsqueeze : squeeze (eraseFinal (eraseAnnotations (front ++ c :: rest))) =
      squeeze (c :: rest) := by
    rw [herase, eraseAnnotations_eq_self _ hbare, eraseFinal, hleft, hkept, squeeze,
      words_blanks_append blanks _ hblanks, squeeze]
  rw [readParameter, hsqueeze]
  exact if_neg (by simpa using squeeze_ne_nil rest c hblank)

end Source

end NativeGlue
