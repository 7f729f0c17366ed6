import NativeGlue.Proofs.Source.Annotation
import NativeGlue.Proofs.Source.Closing

/-!
Erasing annotations. An annotation is a dotted name behind an at sign, with or without a group in
parentheses that closes at its own end. Each annotation of a text leaves a space and nothing else
changes, whatever the groups hold. A last annotation whose group never closes stays as it is, so
that a statement with it has no parameter list that closes.
-/

namespace NativeGlue.Source

open Text
open Outline (Blanks noBlanks oneBlank)

/-- A group in parentheses that closes exactly at its last character. -/
structure Group where
  text : Text
  opens : text.head? = some '('
  closes : IsLeast (closings text 0) (text.length - 1)

/-- An annotation and the text behind it, which goes on neither the name nor the annotation. -/
structure Note where
  name : AnnotationName
  group : Option (Blanks × Group)
  after : Text
  noAt : '@' ∉ after
  ends : group = none → EndsName after

namespace Note

def groupText (n : Note) : Text := (n.group.map fun g => g.1.text ++ g.2.text).getD []

def text (n : Note) : Text := n.name.text ++ (n.groupText ++ n.after)

/-- What erasing leaves of an annotation and the text behind it. -/
def erased (n : Note) : Text := ' ' :: n.after

end Note

/-- A text with annotations in it. -/
structure NotedText where
  opening : Text
  noAt : '@' ∉ opening
  notes : List Note

namespace NotedText

def text (t : NotedText) : Text := t.opening ++ t.notes.flatMap Note.text

def erased (t : NotedText) : Text := t.opening ++ t.notes.flatMap Note.erased

end NotedText

/-- An annotation whose group never closes. -/
structure OpenNote where
  name : AnnotationName
  gap : Blanks
  group : Text
  opens : group.head? = some '('
  never : closings group 0 = ∅

def OpenNote.text (n : OpenNote) : Text := n.name.text ++ (n.gap.text ++ n.group)

section Erasure

variable {rest : Text}

/-- What ends an annotation still ends it when another annotation follows, or nothing. -/
theorem EndsName.append {after : Text} (h : EndsName after) (hrest : ∀ c ∈ rest.head?, c = '@') :
    EndsName (after ++ rest) := by
  have hpart : rest.head?.any isDottedNamePart = false ∧ (skipBlanks rest).head? ≠ some '(' := by
    cases rest with
    | nil => exact ⟨rfl, nofun⟩
    | cons c rest =>
      obtain rfl : c = '@' := hrest c rfl
      rw [skipBlanks_cons '@' rest rfl]
      exact ⟨rfl, by simp⟩
  constructor
  · cases after with
    | nil => exact hpart.1
    | cons c after => exact h.part
  · have hlist := h.list
    rw [skipBlanks] at hlist
    rw [skipBlanks, List.dropWhile_append]
    split
    · exact hpart.2
    · next hblank =>
      rwa [List.head?_append_of_ne_nil _ fun hnil => hblank (by rw [hnil]; rfl)]

theorem cutClosing?_eq (t : Text) :
    cutClosing? 1 t =
      (closing? ('(' :: t)).map fun close => (t.take (close - 1), t.drop close) := by
  rw [closing?_open, cutClosing?, Option.map_map]
  rfl

theorem Group.cutClosing?_append (g : Group) {inside : Text} (h : g.text = '(' :: inside)
    (rest : Text) : (cutClosing? 1 (inside ++ rest)).map Prod.snd = some rest := by
  have hread := Source.closing?_append h g.closes rest
  rw [h, List.cons_append] at hread
  rw [cutClosing?_eq, hread]
  exact congrArg some List.drop_left

theorem Note.eraseAnnotations_append (n : Note) (hrest : ∀ c ∈ rest.head?, c = '@') :
    eraseAnnotations (n.text ++ rest) = n.erased ++ eraseAnnotations rest := by
  have hafter : eraseAnnotations (n.after ++ rest) = n.after ++ eraseAnnotations rest :=
    Source.eraseAnnotations_append n.after rest n.noAt
  cases hgroup : n.group with
  | none =>
    have htext : n.text ++ rest = n.name.text ++ (n.after ++ rest) := by
      simp [text, groupText, hgroup]
    rw [htext, eraseAnnotations_bare n.name ((n.ends hgroup).append hrest), hafter, erased,
      List.cons_append]
  | some found =>
    obtain ⟨gap, group⟩ := found
    obtain ⟨inside, hinside⟩ := List.head?_eq_some_iff.mp group.opens
    have htext : n.text ++ rest =
        n.name.text ++ (gap.text ++ '(' :: (inside ++ (n.after ++ rest))) := by
      simp [text, groupText, hgroup, hinside]
    obtain ⟨cut, hcut, hbehind⟩ :=
      Option.map_eq_some_iff.mp (group.cutClosing?_append hinside (n.after ++ rest))
    rw [htext, eraseAnnotations_open, hcut]
    dsimp only
    rw [hbehind, hafter, erased, List.cons_append]

theorem head?_notes (notes : List Note) (hrest : ∀ c ∈ rest.head?, c = '@') :
    ∀ c ∈ (notes.flatMap Note.text ++ rest).head?, c = '@' := by
  cases notes with
  | nil => exact hrest
  | cons n notes =>
    intro c hc
    rw [List.flatMap_cons, Note.text, AnnotationName.text] at hc
    exact (Option.some.inj hc).symm

/-- The annotations are erased one after the other. -/
theorem eraseAnnotations_notes (notes : List Note) (hrest : ∀ c ∈ rest.head?, c = '@') :
    eraseAnnotations (notes.flatMap Note.text ++ rest) =
      notes.flatMap Note.erased ++ eraseAnnotations rest := by
  induction notes with
  | nil => rfl
  | cons n notes ih =>
    rw [List.flatMap_cons, List.append_assoc, n.eraseAnnotations_append (head?_notes notes hrest),
      ih, List.flatMap_cons, List.append_assoc]

theorem NotedText.eraseAnnotations_append (t : NotedText) (hrest : ∀ c ∈ rest.head?, c = '@') :
    eraseAnnotations (t.text ++ rest) = t.erased ++ eraseAnnotations rest := by
  rw [text, List.append_assoc, Source.eraseAnnotations_append _ _ t.noAt,
    eraseAnnotations_notes t.notes hrest, erased, List.append_assoc]

theorem NotedText.eraseAnnotations_text (t : NotedText) : eraseAnnotations t.text = t.erased := by
  have herase : eraseAnnotations (t.text ++ []) = t.erased ++ eraseAnnotations [] :=
    t.eraseAnnotations_append nofun
  rwa [List.append_nil, eraseAnnotations, List.append_nil] at herase

theorem cutClosing?_eq_none {inside : Text} (h : closings ('(' :: inside) 0 = ∅) :
    cutClosing? 1 inside = none := by
  have hstart : ('(' :: inside).drop 0 = '(' :: inside := rfl
  rw [cutClosing?_eq, ← hstart, (closing?_eq_none_iff hstart).mpr h, Option.map_none]

/-- An annotation whose group never closes is kept, with all that its group holds. -/
theorem OpenNote.eraseAnnotations_text (n : OpenNote) : eraseAnnotations n.text = n.text := by
  obtain ⟨inside, hgroup⟩ := List.head?_eq_some_iff.mp n.opens
  rw [text, hgroup, eraseAnnotations_open, cutClosing?_eq_none (hgroup ▸ n.never)]

theorem NotedText.eraseAnnotations_openNote (t : NotedText) (last : OpenNote) :
    eraseAnnotations (t.text ++ last.text) = t.erased ++ last.text := by
  have hat : ∀ c ∈ last.text.head?, c = '@' := fun c hc => (Option.some.inj hc).symm
  rw [t.eraseAnnotations_append hat, last.eraseAnnotations_text]

end Erasure

section Report

theorem AnnotationName.notMem_text (n : AnnotationName) {c : Char} (hat : c ≠ '@')
    (hblank : isBlank c = false) (hpart : isDottedNamePart c = false) : c ∉ n.text := by
  rw [text, List.mem_cons, List.mem_append, not_or, not_or]
  refine ⟨hat, notMem_blanks n.gap.blank hblank, fun hmem => ?_⟩
  rw [n.parts c hmem] at hpart
  cases hpart

/-- A text from its first parenthesis on. -/
def fromParenthesis (t : Text) : Text := t.dropWhile (· != '(')

/-- A list that is open before an open annotation is open behind it. -/
theorem cutParameters_openNote (t : Text) (n : OpenNote)
    (h : closings (fromParenthesis t) 0 = ∅) :
    cutParameters (t ++ n.text) = .error .openParameterList := by
  obtain ⟨inner, hgroup⟩ := List.head?_eq_some_iff.mp n.opens
  let name := n.name.text ++ n.gap.text
  have hname : '(' ∉ name ∧ ')' ∉ name := by
    rw [List.mem_append, List.mem_append, not_or, not_or]
    exact ⟨⟨n.name.notMem_text (by decide) rfl rfl, notMem_blanks n.gap.blank rfl⟩,
      n.name.notMem_text (by decide) rfl rfl, notMem_blanks n.gap.blank rfl⟩
  have htext : n.text = name ++ n.group := (List.append_assoc _ _ _).symm
  obtain ⟨inside, hlist, hnone⟩ : ∃ inside,
      (t ++ n.text).dropWhile (· != '(') = '(' :: inside ∧ closings ('(' :: inside) 0 = ∅ := by
    rw [List.dropWhile_append]
    cases hlist : t.dropWhile (· != '(') with
    | nil =>
      have hrun : ∀ c ∈ name, (c != '(') = true := fun c hc =>
        bne_iff_ne.mpr fun heq => hname.1 (heq ▸ hc)
      have hdrop : n.text.dropWhile (· != '(') = n.group := by
        rw [htext]
        exact (takeWhile_append_stop hrun (by rw [hgroup]; rfl)).2
      exact ⟨inner, by rw [List.isEmpty_nil, if_pos rfl, hdrop, hgroup], hgroup ▸ n.never⟩
    | cons c u =>
      obtain rfl := eq_of_dropWhile_ne hlist
      refine ⟨u ++ n.text, rfl, ?_⟩
      rw [← List.cons_append, htext]
      exact closings_append_eq_empty rfl (hlist ▸ h) hname hgroup n.never
  rw [cutParameters_open hlist, cutClosing?_eq_none hnone]

/-- What stands behind a list that closes is checked with the open annotation. -/
theorem cutParameters_closed {t : Text} {close : Nat}
    (h : IsLeast (closings (fromParenthesis t) 0) close) (rest : Text) :
    ∃ words parameters, cutParameters (t ++ rest) =
      .ok ⟨words, parameters, squeeze ((fromParenthesis t).drop (close + 1) ++ rest)⟩ := by
  rw [fromParenthesis] at h ⊢
  cases hlist : t.dropWhile (· != '(') with
  | nil =>
    rw [hlist] at h
    cases h.1.2.1
  | cons c u =>
    obtain rfl := eq_of_dropWhile_ne hlist
    rw [hlist] at h
    have hclose : close ≤ u.length := Nat.le_of_lt_succ h.1.2.1
    have hwhole : (t ++ rest).dropWhile (· != '(') = '(' :: (u ++ rest) := by
      rw [List.dropWhile_append, hlist]
      rfl
    have hread : cutClosing? 1 (u ++ rest) =
        some ((u ++ rest).take (close - 1), (u ++ rest).drop close) := by
      rw [cutClosing?_eq, ← List.cons_append, closing?_append rfl h rest, Option.map_some]
    have hbehind : (u ++ rest).drop close = ('(' :: u).drop (close + 1) ++ rest :=
      List.drop_append_of_le_length hclose
    refine ⟨words ((t ++ rest).takeWhile (· != '(')), (u ++ rest).take (close - 1), ?_⟩
    rw [cutParameters_open hwhole, hread, hbehind]

theorem checkTrailer_openNote (t : Text) (n : OpenNote)
    (h : ¬ "throws ".toList <+: squeeze (t ++ n.text)) :
    checkTrailer (squeeze (t ++ n.text)) =
      .error (.textAfterParameters (squeeze (t ++ n.text))) := by
  have hne : squeeze (t ++ n.text) ≠ [] := by
    obtain ⟨gap, -, heq⟩ := exists_squeeze_append t '@'
      (n.name.gap.text ++ n.name.name ++ (n.gap.text ++ n.group)) rfl
    have htext : n.text = '@' :: (n.name.gap.text ++ n.name.name ++ (n.gap.text ++ n.group)) := rfl
    rw [htext, heq]
    exact List.append_ne_nil_of_right_ne_nil _ (squeeze_ne_nil _ '@' rfl)
  rw [checkTrailer, if_neg]
  rw [Bool.or_eq_true, List.isEmpty_iff, List.isPrefixOf_iff_prefix, not_or]
  exact ⟨hne, h⟩

theorem readNativeMethod_openNote (t : NotedText) (last : OpenNote) (owner : Option Text)
    (line : Int) : readNativeMethod owner line (t.text ++ last.text) =
      readErased owner line (t.erased ++ last.text) := by
  rw [readNativeMethod_eq, t.eraseAnnotations_openNote last]

end Report

/-- Every annotation is erased, and nothing else. A last annotation whose group never closes is
kept: it leaves the parameter list open, or stands behind it where only `throws` may stand. A group
closes at the first place up to which as many parentheses close as open. -/
theorem eraseAnnotations_exact :
    (∀ t : NotedText, eraseAnnotations t.text = t.erased) ∧
    (∀ (t : NotedText) (last : OpenNote),
      eraseAnnotations (t.text ++ last.text) = t.erased ++ last.text ∧
      ∀ owner line,
        (closings (fromParenthesis t.erased) 0 = ∅ →
          readNativeMethod owner line (t.text ++ last.text) = .error .openParameterList) ∧
        ∀ close, IsLeast (closings (fromParenthesis t.erased) 0) close →
          let trailer := squeeze ((fromParenthesis t.erased).drop (close + 1) ++ last.text)
          ¬ "throws ".toList <+: trailer →
            readNativeMethod owner line (t.text ++ last.text) =
              .error (.textAfterParameters trailer)) ∧
    ∀ (t : Text) (start : Nat), t[start]? = some '(' →
      (∀ c, (closing? (t.drop start)).map (start + ·) = some c ↔ IsLeast (closings t start) c) ∧
        (closing? (t.drop start) = none ↔ closings t start = ∅) := by
  refine ⟨NotedText.eraseAnnotations_text, fun t last => ?_, fun t start hopen => ?_⟩
  · refine ⟨t.eraseAnnotations_openNote last, fun owner line => ⟨fun hnone => ?_, ?_⟩⟩
    · rw [readNativeMethod_openNote, readErased, cutParameters_openNote _ last hnone]
      rfl
    · intro close hleast trailer htrailer
      obtain ⟨words, parameters, hcut⟩ := cutParameters_closed hleast last.text
      rw [readNativeMethod_openNote, readErased, hcut]
      simp only [bind, Except.bind, checkTrailer_openNote _ last htrailer, trailer]
  · obtain ⟨hwithin, hchar⟩ := List.getElem?_eq_some_iff.mp hopen
    have hdrop : t.drop start = '(' :: t.drop (start + 1) := by
      rw [List.drop_eq_getElem_cons hwithin, hchar]
    exact ⟨closing?_eq_some_iff hdrop, closing?_eq_none_iff hdrop⟩

def fastGroup : Group :=
  ⟨"(a = @B(1))".toList, rfl, (closing?_eq_some_iff rfl 10).mp rfl⟩

def fastNote : Note where
  name := ⟨oneBlank, "Fast".toList, rfl, List.all_eq_true.mp rfl⟩
  group := some (⟨['\n'], List.all_eq_true.mp rfl⟩, fastGroup)
  after := " ".toList
  noAt := by decide
  ends hnone := absurd hnone (Option.some_ne_none _)

def keepNote : Note where
  name := ⟨noBlanks, "a.Keep".toList, rfl, List.all_eq_true.mp rfl⟩
  group := none
  after := " native void f(".toList
  noAt := by decide
  ends _ := ⟨rfl, fun h => absurd (Option.some.inj h) (by decide)⟩

def sizeNote : OpenNote where
  name := ⟨noBlanks, "Size".toList, rfl, List.all_eq_true.mp rfl⟩
  gap := noBlanks
  group := "(min = (1) int a".toList
  opens := rfl
  never := (closing?_eq_none_iff rfl).mp rfl

def fastMethod : NotedText := ⟨"public ".toList, by decide, [fastNote, keepNote]⟩

def plainMethod : NotedText := ⟨"native void f() ".toList, by decide, []⟩

theorem fastMethod_erased :
    fastMethod.text = "public @ Fast\n(a = @B(1)) @a.Keep native void f(".toList ∧
      eraseAnnotations fastMethod.text = "public     native void f(".toList ∧
      readNativeMethod none 1 (fastMethod.text ++ sizeNote.text) = .error .openParameterList ∧
      readNativeMethod none 1 (plainMethod.text ++ sizeNote.text) =
        .error (.textAfterParameters "@Size(min = (1) int a".toList) ∧
      IsLeast (closings "f(a, (b))".toList 1) 8 := by
  obtain ⟨herase, hopen, hclosing⟩ := eraseAnnotations_exact
  refine ⟨by decide, herase fastMethod, ?_, ?_, ?_⟩
  · exact ((hopen fastMethod sizeNote).2 none 1).1 ((closing?_eq_none_iff rfl).mp (by decide))
  · exact ((hopen plainMethod sizeNote).2 none 1).2 1 ((closing?_eq_some_iff rfl _).mp (by decide))
      (by decide)
  · exact ((hclosing "f(a, (b))".toList 1 (by decide)).1 8).mp (by decide)

end NativeGlue.Source
