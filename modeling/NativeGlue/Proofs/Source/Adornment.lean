import NativeGlue.Proofs.Source.AnnotationScan

/-!
Texts with annotations before their words. A scan holds such a text with its annotations
shortened, on the same lines and with the words it had, and once the annotations are erased
nothing but blanks is left of them, so the texts agree up to their blanks.
-/

namespace NativeGlue.Source

open Text

/-- Annotations, each of them followed by a space. -/
def annotationsText (notes : List Text) : Text := (notes.map (· ++ [' '])).flatten

theorem annotationsText_cons (note : Text) (notes : List Text) (t : Text) :
    annotationsText (note :: notes) ++ t =
      note ++ ' ' :: (annotationsText notes ++ t) := by
  simp [annotationsText]

/-- The second text is the first with annotations before some of its words. -/
inductive Adorned (IsOne : Text → Prop) : Text → Text → Prop
  | nil : Adorned IsOne [] []
  | blank {c : Char} {t u : Text} (hc : isBlank c = true) (h : Adorned IsOne t u) :
    Adorned IsOne (c :: t) (c :: u)
  | word {notes : List Text} {word t u : Text} (hnotes : ∀ a ∈ notes, IsOne a)
    (hne : word ≠ []) (hword : ∀ c ∈ word, isBlank c = false)
    (hends : t.head?.all isBlank = true) (h : Adorned IsOne t u) :
    Adorned IsOne (word ++ t) (annotationsText notes ++ (word ++ u))

/-- An annotation as it is written, within a line. -/
def IsWritten (note : Text) : Prop := IsAnnotation Arguments note ∧ '\n' ∉ note

/-- An annotation as a statement holds it. -/
def IsHeld (note : Text) : Prop := IsAnnotation Paired note ∧ '\n' ∉ note

namespace Scan

theorem reaches_annotations {written : List Text} (h : ∀ a ∈ written, IsWritten a) (s : Scan)
    (hpending : s.pending = none) (rest : Text) :
    ∃ held, (∀ a ∈ held, IsHeld a) ∧
      Reaches s (annotationsText written ++ rest) (s.takeAll (annotationsText held)) rest := by
  induction written generalizing s with
  | nil => exact ⟨[], by simp, .refl s rest⟩
  | cons a written ih =>
    obtain ⟨⟨hone, hfeed⟩, hlater⟩ := List.forall_mem_cons.mp h
    obtain ⟨first, hfirst, hfeed', hreaches⟩ := reaches_annotation hone hfeed s hpending
      (' ' :: (annotationsText written ++ rest))
    have hnone : (s.takeAll first).pending = none := (s.takeAll_pending first).trans hpending
    have hspace := (s.takeAll first).reaches_take ' ' (annotationsText written ++ rest) hnone
      (by decide)
    obtain ⟨held, hheld, hmore⟩ := ih hlater ((s.takeAll first).take ' ')
      (by rw [take_pending, hnone])
    refine ⟨first :: held, List.forall_mem_cons.mpr ⟨⟨hfirst, hfeed'⟩, hheld⟩, ?_⟩
    have hall : s.takeAll (annotationsText (first :: held)) =
        ((s.takeAll first).take ' ').takeAll (annotationsText held) := by
      rw [← List.append_nil (annotationsText (first :: held)), annotationsText_cons,
        takeAll_append, List.append_nil]
      rfl
    rw [annotationsText_cons, hall]
    exact (hreaches.trans hspace).trans hmore

/-- A scan reads a text with annotations as the text with shorter ones. -/
theorem reaches_adorned {t u : Text} (h : Adorned IsWritten t u)
    (hplain : ∀ c ∈ t, isPlain c = true) (s : Scan) (hpending : s.pending = none) (rest : Text) :
    ∃ held, Adorned IsHeld t held ∧ Reaches s (u ++ rest) (s.takeAll held) rest := by
  induction h generalizing s with
  | nil => exact ⟨[], .nil, .refl s rest⟩
  | @blank c t u hc _ ih =>
    obtain ⟨hfirst, hlater⟩ := List.forall_mem_cons.mp hplain
    obtain ⟨held, hheld, hreaches⟩ := ih hlater (s.take c) (by rw [take_pending, hpending])
    have hblank := s.reaches_take c (u ++ rest) hpending hfirst
    exact ⟨c :: held, .blank hc hheld, hblank.trans hreaches⟩
  | @word written word t u hwritten hne hword hends _ ih =>
    obtain ⟨hfirst, hlater⟩ := List.forall_mem_append.mp hplain
    obtain ⟨held, hheld, hreaches⟩ := reaches_annotations hwritten s hpending (word ++ (u ++ rest))
    have hnone : (s.takeAll (annotationsText held)).pending = none :=
      (s.takeAll_pending _).trans hpending
    have hnext := reaches_takeAll _ word (u ++ rest) hnone hfirst
    obtain ⟨tail, htail, hmore⟩ := ih hlater ((s.takeAll (annotationsText held)).takeAll word)
      ((takeAll_pending _ word).trans hnone)
    refine ⟨annotationsText held ++ (word ++ tail), .word hheld hne hword hends htail, ?_⟩
    rw [takeAll_append, takeAll_append, List.append_assoc, List.append_assoc]
    exact (hreaches.trans hnext).trans hmore

end Scan

theorem hasWord_annotationsText (notes : List Text) {word t : Text} (hne : word ≠ [])
    (hword : ∀ c ∈ word, isNamePart c = true) (h : hasWord word t = true) :
    hasWord word (annotationsText notes ++ t) = true := by
  induction notes with
  | nil => exact h
  | cons note notes ih =>
    rw [annotationsText_cons, hasWord_append_cons word _ _ ' ' hne hword (by decide), ih,
      Bool.or_true]

theorem feeds_annotationsText {notes : List Text} (h : ∀ a ∈ notes, '\n' ∉ a) :
    feeds (annotationsText notes) = 0 := by
  refine List.count_eq_zero.mpr fun hmem => ?_
  obtain ⟨spaced, hspaced, hin⟩ := List.mem_flatten.mp hmem
  obtain ⟨a, ha, rfl⟩ := List.mem_map.mp hspaced
  rcases List.mem_append.mp hin with hin | hin
  · exact h a ha hin
  · exact absurd hin (by decide)

namespace Adorned

variable {IsOne : Text → Prop}

/-- There need not be any annotations. -/
theorem refl (t : Text) : Adorned IsOne t t := by
  induction hlength : t.length using Nat.strong_induction_on generalizing t with
  | _ n ih =>
  subst hlength
  cases t with
  | nil => exact .nil
  | cons c t =>
    cases hc : isBlank c with
    | true => exact .blank hc (ih t.length (Nat.lt_succ_self _) t rfl)
    | false =>
      obtain ⟨hword, hafter⟩ : (∀ d ∈ t.takeWhile (!isBlank ·), isBlank d = false) ∧
          (t.dropWhile (!isBlank ·)).head?.all isBlank = true := by
        have hstop := List.head?_dropWhile_not (!isBlank ·) t
        refine ⟨fun d hd => by simpa using List.mem_takeWhile_imp hd, ?_⟩
        cases h : t.dropWhile (!isBlank ·) with
        | nil => rfl
        | cons d rest => simpa [h] using hstop
      have hshort := length_dropWhile_le (!isBlank ·) t
      have hrest := ih _ (Nat.lt_succ_of_le hshort) (t.dropWhile (!isBlank ·)) rfl
      have hall := @word IsOne [] (c :: t.takeWhile (!isBlank ·)) _ _ (by simp) (by simp)
        (List.forall_mem_cons.mpr ⟨hc, hword⟩) hafter hrest
      rwa [List.cons_append, List.takeWhile_append_dropWhile] at hall

/-- One annotation before a word. -/
theorem one {note word t u : Text} (hnote : IsOne note) (hne : word ≠ [])
    (hword : ∀ c ∈ word, isBlank c = false) (hends : t.head?.all isBlank = true)
    (h : Adorned IsOne t u) : Adorned IsOne (word ++ t) (note ++ ' ' :: (word ++ u)) := by
  have hall := Adorned.word (List.forall_mem_singleton.mpr hnote) hne hword hends h
  rwa [annotationsText_cons] at hall

/-- Behind a word the texts end together, or the same blank comes next in both. -/
theorem blank_or_nil {t u : Text} (h : Adorned IsOne t u) (hends : t.head?.all isBlank = true) :
    (t = [] ∧ u = []) ∨
      ∃ c t' u', t = c :: t' ∧ u = c :: u' ∧ isBlank c = true ∧ Adorned IsOne t' u' := by
  cases h with
  | nil => exact .inl ⟨rfl, rfl⟩
  | blank hc h => exact .inr ⟨_, _, _, rfl, rfl, hc, h⟩
  | @word notes word t u _ hne hword _ _ =>
    obtain ⟨c, word, rfl⟩ := List.exists_cons_of_ne_nil hne
    have hc : isBlank c = true := hends
    rw [hword c List.mem_cons_self] at hc
    cases hc

/-- The words of the text are still words. -/
theorem hasWord_of_hasWord {t u word : Text} (h : Adorned IsOne t u) (hne : word ≠ [])
    (hword : ∀ c ∈ word, isNamePart c = true) (hin : hasWord word t = true) :
    hasWord word u = true := by
  induction h with
  | nil => exact hin
  | @blank c t u hc _ ih =>
    have hpart := isNamePart_of_isBlank c hc
    rw [hasWord_cons word t c hne hword hpart] at hin
    rw [hasWord_cons word u c hne hword hpart]
    exact ih hin
  | @word notes first t u _ _ _ hends h ih =>
    refine hasWord_annotationsText notes hne hword ?_
    rcases h.blank_or_nil hends with ⟨rfl, rfl⟩ | ⟨c, t, u, rfl, rfl, hc, -⟩
    · exact hin
    · have hpart := isNamePart_of_isBlank c hc
      rw [hasWord_append_cons word first t c hne hword hpart, Bool.or_eq_true] at hin
      rw [hasWord_cons word t c hne hword hpart, hasWord_cons word u c hne hword hpart] at ih
      rw [hasWord_append_cons word first u c hne hword hpart, Bool.or_eq_true]
      exact hin.imp_right ih

theorem feeds_eq {t u : Text} (h : Adorned IsHeld t u) : feeds u = feeds t := by
  induction h with
  | nil => rfl
  | @blank c t u _ _ ih =>
    rw [show feeds (c :: u) = feeds [c] + feeds u from feeds_append [c] u, ih]
    exact (feeds_append [c] t).symm
  | word hnotes _ _ _ _ ih =>
    rw [feeds_append, feeds_append, feeds_append, ih,
      feeds_annotationsText fun a ha => (hnotes a ha).2, Nat.zero_add]

/-- The text starts as it did, or with an annotation. -/
theorem exists_head? {c : Char} {t u : Text} (h : Adorned IsOne (c :: t) u)
    (hone : ∀ a, IsOne a → a.head? = some '@') :
    ∃ d v, u = d :: v ∧ (d = c ∨ d = '@') := by
  generalize ht : c :: t = text at h
  cases h with
  | nil => cases ht
  | blank _ h =>
    cases ht
    exact ⟨c, _, rfl, .inl rfl⟩
  | @word notes word t' u' hnotes hne _ _ _ =>
    cases notes with
    | nil =>
      obtain ⟨d, word, rfl⟩ := List.exists_cons_of_ne_nil hne
      cases ht
      exact ⟨c, _, rfl, .inl rfl⟩
    | cons note notes =>
      have hhead := hone note (hnotes note List.mem_cons_self)
      obtain ⟨rest, rfl⟩ := List.head?_eq_some_iff.mp hhead
      rw [annotationsText_cons]
      exact ⟨'@', _, rfl, .inr rfl⟩

end Adorned

theorem IsAnnotation.head?_eq {Inside : Text → Prop} {note : Text}
    (h : IsAnnotation Inside note) : note.head? = some '@' := by
  cases h <;> rfl

theorem head?_skipBlanks_annotationsText {notes : List Text}
    (h : ∀ a ∈ notes, IsHeld a) {t : Text} (ht : (skipBlanks t).head? ≠ some '(') :
    (skipBlanks (annotationsText notes ++ t)).head? ≠ some '(' := by
  cases notes with
  | nil => exact ht
  | cons note notes =>
    have hhead := (h note List.mem_cons_self).1.head?_eq
    obtain ⟨rest, rfl⟩ := List.head?_eq_some_iff.mp hhead
    rw [annotationsText_cons, List.cons_append, skipBlanks_cons '@' _ rfl]
    simp

/-- Erased annotations leave blanks. -/
theorem eraseAnnotations_annotationsText {notes : List Text}
    (h : ∀ a ∈ notes, IsHeld a) :
    ∃ blanks, (∀ c ∈ blanks, isBlank c = true) ∧ ∀ t, (skipBlanks t).head? ≠ some '(' →
      eraseAnnotations (annotationsText notes ++ t) = blanks ++ eraseAnnotations t := by
  induction notes with
  | nil => exact ⟨[], by simp, fun _ _ => rfl⟩
  | cons note notes ih =>
    obtain ⟨hone, hlater⟩ := List.forall_mem_cons.mp h
    obtain ⟨blanks, hblanks, heq⟩ := ih hlater
    refine ⟨' ' :: ' ' :: blanks, by simpa [isBlank] using hblanks, fun t ht => ?_⟩
    have hends : EndsName (' ' :: (annotationsText notes ++ t)) := by
      refine ⟨rfl, ?_⟩
      rw [skipBlanks_blank ' ' _ rfl]
      exact head?_skipBlanks_annotationsText hlater ht
    rw [annotationsText_cons, eraseAnnotations_annotation hone.1 hends,
      eraseAnnotations_cons ' ' _ (by decide), heq t ht]
    rfl

/-- Without its annotations the text is what it was, up to its blanks. -/
theorem Adorned.exists_spaced {t u : Text} (h : Adorned IsHeld t u)
    (ht : ∀ c ∈ t, c ≠ '@' ∧ c ≠ '(') :
    ∃ erased, Spaced t erased ∧
      (t.head?.all isBlank = true → collapse t = collapse erased) ∧
      ∀ rest, eraseAnnotations (u ++ rest) = erased ++ eraseAnnotations rest := by
  induction h with
  | nil => exact ⟨[], rfl, fun _ => rfl, fun _ => rfl⟩
  | @blank c t u hc _ ih =>
    obtain ⟨-, hlater⟩ := List.forall_mem_cons.mp ht
    obtain ⟨erased, hspaced, -, herase⟩ := ih hlater
    have hspace (v : Text) : collapse (c :: v) = collapse (' ' :: v) :=
      collapse_cons_congr (.inr ⟨hc, rfl⟩) rfl
    have hcollapse : collapse (c :: t) = collapse (c :: erased) := by
      rw [hspace, hspaced, ← hspace]
    refine ⟨c :: erased, collapse_cons_congr (.inl rfl) hcollapse, fun _ => hcollapse, ?_⟩
    intro rest
    rw [List.cons_append, eraseAnnotations_cons c _ (ne_of_isBlank hc rfl), herase,
      List.cons_append]
  | @word notes word t u hnotes hne hword hends _ ih =>
    obtain ⟨hfirst, hlater⟩ := List.forall_mem_append.mp ht
    obtain ⟨erased, -, hcollapse, herase⟩ := ih hlater
    obtain ⟨blanks, hblanks, hleft⟩ := eraseAnnotations_annotationsText hnotes
    obtain ⟨c, word, rfl⟩ := List.exists_cons_of_ne_nil hne
    have hc : isBlank c = false := hword c List.mem_cons_self
    refine ⟨blanks ++ ((c :: word) ++ erased), ?_, ?_, fun rest => ?_⟩
    · have hgap : collapse [' '] = collapse (' ' :: blanks) := by
        rw [collapse_blanks (List.cons_ne_nil ' ' blanks)
          (List.forall_mem_cons.mpr ⟨rfl, hblanks⟩)]
        rfl
      exact collapse_append hgap (collapse_append_right (c :: word) (hcollapse hends))
    · intro hblank
      have hfront : isBlank c = true := hblank
      rw [hc] at hfront
      cases hfront
    · have hbare : '@' ∉ c :: word := fun hmem => (hfirst '@' hmem).1 rfl
      have hlist : (skipBlanks ((c :: word) ++ (u ++ rest))).head? ≠ some '(' := by
        rw [List.cons_append, skipBlanks_cons c _ hc, List.head?_cons]
        rintro ⟨⟩
        exact (hfirst '(' List.mem_cons_self).2 rfl
      rw [List.append_assoc, List.append_assoc, hleft _ hlist,
        eraseAnnotations_append _ _ hbare, herase, List.append_assoc, List.append_assoc]

end NativeGlue.Source
