import NativeGlue.Proofs.JavaType
import NativeGlue.Proofs.Source.TypeText

/-!
The ways to write one parameter. Array brackets may stand behind the type, behind the name or on
both sides, the last pair may be three dots, and blanks, annotations and modifiers may stand where
the source language admits them. All of these are read as the same name and the same type, whose
brackets are closed.
-/

namespace NativeGlue.Source

open Text

/-- A number of bracket pairs with any blanks before and between the brackets. -/
inductive Pairs : Nat → Text → Prop
  | none : Pairs 0 []
  | more (before between : Outline.Blanks) {n : Nat} {rest : Text} (hrest : Pairs n rest) :
    Pairs (n + 1) (before.text ++ '[' :: (between.text ++ ']' :: rest))

theorem bracketText_succ (n : Nat) : bracketText (n + 1) = "[]".toList ++ bracketText n := rfl

theorem bracketText_add (m n : Nat) : bracketText (m + n) = bracketText m ++ bracketText n := by
  rw [bracketText, List.replicate_add, List.flatten_append, bracketText, bracketText]

theorem pairs_bracketText (n : Nat) : Pairs n (bracketText n) := by
  induction n with
  | zero => exact .none
  | succ n ih => exact .more ⟨[], by simp⟩ ⟨[], by simp⟩ ih

theorem Pairs.close_append {n : Nat} {pairs : Text} (h : Pairs n pairs) (t : Text) :
    JavaType.close (t ++ pairs) = JavaType.close t ++ bracketText n := by
  induction h generalizing t with
  | none => rw [List.append_nil, show bracketText 0 = [] from rfl, List.append_nil]
  | @more before between n rest _ ih =>
    have hpair := JavaType.close_pair t before.text between.text [] before.blank between.blank
      (by simp)
    have hsplit : t ++ (before.text ++ '[' :: (between.text ++ ']' :: rest)) =
        t ++ before.text ++ '[' :: between.text ++ [']'] ++ rest := by simp
    rw [hsplit, ih, hpair, bracketText_succ, List.append_assoc]

theorem close_squeeze (t : Text) : JavaType.close (squeeze t) = JavaType.close t := by
  rw [JavaType.close, (squeezed_squeeze t).squeeze_eq, JavaType.close]

/-- The brackets behind a type are counted, wherever they stood. -/
theorem read_brackets {m : Nat} {pairs : Text} (h : Pairs m pairs) (type : Text) (n : Nat) :
    JavaType.read (squeeze (type ++ pairs) ++ bracketText n) =
      JavaType.read (type ++ bracketText (m + n)) := by
  have hclose : JavaType.close (squeeze (type ++ pairs) ++ bracketText n) =
      JavaType.close (type ++ bracketText (m + n)) := by
    rw [(pairs_bracketText n).close_append, close_squeeze, h.close_append,
      (pairs_bracketText (m + n)).close_append, bracketText_add, List.append_assoc]
  rw [JavaType.read, JavaType.normalize_eq_dotsAsArray, hclose, JavaType.read,
    JavaType.normalize_eq_dotsAsArray]

/-- The brackets that a reader of declarators counts are squeezed pairs. -/
theorem Pairs.exists_squeeze {n : Nat} {pairs : Text} (h : Pairs n pairs) (t : Text) :
    ∃ squeezed, bracketPairs? squeezed = some n ∧ squeeze (t ++ pairs) = squeeze t ++ squeezed := by
  induction h generalizing t with
  | none => exact ⟨[], rfl, by simp⟩
  | @more before between n rest _ ih =>
    obtain ⟨later, hcount, hlater⟩ := ih [']']
    obtain ⟨gap, hgap, hopen⟩ :=
      exists_squeeze_append (t ++ before.text) '[' (between.text ++ ']' :: rest) rfl
    obtain ⟨inner, hinner, hclose⟩ := exists_squeeze_append ('[' :: between.text) ']' rest rfl
    refine ⟨gap ++ '[' :: (inner ++ ']' :: later), ?_, ?_⟩
    · rcases hgap with rfl | rfl <;> rcases hinner with rfl | rfl <;>
        simp [bracketPairs?, hcount]
    · rw [List.singleton_append, squeeze_char_blanks ']' [] rfl (by simp)] at hlater
      rw [← List.append_assoc, hopen, squeeze_append_blanks t _ before.blank, ← List.cons_append,
        hclose, squeeze_char_blanks '[' _ rfl between.blank, hlater]
      simp

theorem eq_of_bracketPairs? {t : Text} {n : Nat} (h : bracketPairs? t = some n) :
    ∀ c ∈ t, c = ' ' ∨ c = '[' ∨ c = ']' := by
  fun_induction bracketPairs? t generalizing n with
  | case1 => simp
  | case2 rest ih | case3 rest ih | case4 rest ih | case5 rest ih =>
    obtain ⟨m, hm, -⟩ := Option.map_eq_some_iff.mp h
    have hrest := ih hm
    simpa using hrest
  | case6 => cases h

/-- What is no bracket and no space behind the first gap belongs to a longer type. -/
theorem declarator?_eq_none {t rest : Text} {c : Char} (hc : isDeclaratorPart c = true)
    (hmem : c ∈ rest) : declarator? (t ++ ' ' :: rest) = none := by
  have htail : c ∈ (t ++ ' ' :: rest).dropWhile isDeclaratorPart := by
    rw [List.dropWhile_append]
    split
    · rw [List.dropWhile_cons_of_neg (by decide)]
      exact List.mem_cons_of_mem ' ' hmem
    · exact List.mem_append_right _ (List.mem_cons_of_mem ' ' hmem)
  cases hcount : bracketPairs? ((t ++ ' ' :: rest).dropWhile isDeclaratorPart) with
  | none =>
    rw [declarator?, hcount]
    simp
  | some n =>
    rcases eq_of_bracketPairs? hcount c htail with rfl | rfl | rfl <;> cases hc

/-- The type goes on as long as what follows is no declarator. -/
theorem splitDeclaratorFrom?_skip (read t rest : Text) {c : Char}
    (hc : isDeclaratorPart c = true) (hmem : c ∈ rest) :
    splitDeclaratorFrom? read (t ++ ' ' :: rest) =
      splitDeclaratorFrom? (read ++ t) (' ' :: rest) := by
  induction t generalizing read with
  | nil => rw [List.nil_append, List.append_nil]
  | cons d t ih =>
    have hnone : declarator? (t ++ ' ' :: rest) = none := declarator?_eq_none hc hmem
    rw [List.cons_append, splitDeclaratorFrom?]
    simp only [hnone, ite_self]
    rw [ih, List.append_assoc, List.singleton_append]

theorem declarator?_pairs {name squeezed : Text} {n : Nat} (hne : name ≠ [])
    (hname : ∀ c ∈ name, isDeclaratorPart c = true) (hcount : bracketPairs? squeezed = some n) :
    declarator? (name ++ squeezed) = some (name, n) := by
  have hstop : squeezed.head?.any isDeclaratorPart = false := by
    cases squeezed with
    | nil => rfl
    | cons c squeezed =>
      rcases eq_of_bracketPairs? hcount c List.mem_cons_self with rfl | rfl | rfl <;> rfl
  obtain ⟨htake, hdrop⟩ := takeWhile_append_stop hname hstop
  rw [declarator?, htake, hdrop, hcount, if_neg (by simpa using hne)]
  rfl

/-- The first three dots of a text whose other dots stand apart. -/
theorem cut?_dots (before after : Text) (h : ¬ ['.', '.'] <:+: before ++ ['.']) :
    cut? "...".toList (before ++ ("...".toList ++ after)) = some (before, after) := by
  induction before with
  | nil => rfl
  | cons c before ih =>
    have hnone : dropStart? "...".toList (c :: (before ++ ("...".toList ++ after))) = none := by
      rw [dropStart?_eq_none_iff]
      intro hstart
      obtain ⟨rfl, htail⟩ := List.cons_prefix_cons.mp hstart
      refine h ?_
      cases before with
      | nil => exact ⟨[], [], rfl⟩
      | cons d before =>
        obtain ⟨rfl, -⟩ := List.cons_prefix_cons.mp htail
        exact ⟨[], before ++ ['.'], rfl⟩
    rw [List.cons_append, cut?, hnone, ih fun hin => h (List.infix_cons hin)]
    rfl

theorem isBlank_of_endsType {c : Char} (h : endsType c = true) : isBlank c = false := by
  rw [endsType, Bool.or_eq_true, Bool.or_eq_true] at h
  rcases h with (hpart | hangle) | hbracket
  · exact isBlank_of_isNamePart c hpart
  · rw [eq_of_beq hangle]
    rfl
  · rw [eq_of_beq hbracket]
    rfl

theorem Pairs.eq_nil_or_getLast? {n : Nat} {pairs : Text} (h : Pairs n pairs) :
    pairs = [] ∨ pairs.getLast? = some ']' := by
  induction h with
  | none => exact .inl rfl
  | @more before between n rest _ ih =>
    refine .inr ?_
    rcases ih with rfl | hlast
    · simp [List.getLast?_append, List.getLast?_cons]
    · simp [List.getLast?_append, List.getLast?_cons, hlast]

theorem Pairs.separates {n : Nat} {pairs : Text} (h : Pairs n pairs) :
    ∀ c ∈ pairs, Source.separates c = true := by
  induction h with
  | none => simp
  | @more before between n rest _ ih =>
    have hbefore := fun c hc => separates_of_isBlank (before.blank c hc)
    have hbetween := fun c hc => separates_of_isBlank (between.blank c hc)
    simp only [List.forall_mem_append, List.forall_mem_cons]
    exact ⟨hbefore, rfl, hbetween, rfl, ih⟩

/-- A type with brackets behind it ends where a type may end. -/
theorem Pairs.endsType {n : Nat} {pairs type : Text} (h : Pairs n pairs)
    (htype : type.getLast?.any endsType = true) :
    (squeeze (type ++ pairs)).getLast?.any endsType = true := by
  obtain ⟨c, hlast, hc⟩ : ∃ c, (type ++ pairs).getLast? = some c ∧ Source.endsType c = true := by
    rcases h.eq_nil_or_getLast? with rfl | hbracket
    · rw [List.append_nil]
      exact (Option.any_eq_true _ _).mp htype
    · exact ⟨']', by rw [List.getLast?_append, hbracket]; rfl, rfl⟩
  rw [getLast?_squeeze hlast (isBlank_of_endsType hc)]
  exact hc

theorem Identifier.text_ne_nil (n : Identifier) : n.text ≠ [] := by
  obtain ⟨c, rest, htext, -⟩ := exists_cons_of_any_head? n.starts
  rw [htext]
  exact List.cons_ne_nil c rest

theorem Identifier.not_blank (n : Identifier) : ∀ c ∈ n.text, isBlank c = false := fun c hc =>
  isBlank_of_isNamePart c (n.parts c hc)

theorem Identifier.isDeclaratorPart (n : Identifier) :
    ∀ c ∈ n.text, Source.isDeclaratorPart c = true := by
  intro c hc
  have hpart := n.parts c hc
  have hopen : c ≠ '[' := by
    rintro rfl
    cases hpart
  have hclose : c ≠ ']' := by
    rintro rfl
    cases hpart
  simp [Source.isDeclaratorPart, n.not_blank c hc, hopen, hclose]

theorem Identifier.squeeze_text (n : Identifier) : squeeze n.text = n.text := by
  rw [squeeze, words_word n.text n.text_ne_nil n.not_blank]
  simp [join]

theorem words_ne_nil {t : Text} {c : Char} (h : t.head? = some c) (hc : isBlank c = false) :
    words t ≠ [] := by
  obtain ⟨rest, rfl⟩ := List.head?_eq_some_iff.mp h
  exact words_cons_ne_nil rest hc

theorem words_ne_nil_of_isNameStart {t : Text} (h : t.head?.any isNameStart = true) (u : Text) :
    words (t ++ u) ≠ [] := by
  obtain ⟨c, rest, rfl, hc⟩ := exists_cons_of_any_head? h
  exact words_ne_nil rfl (isBlank_of_isNameStart hc)

variable {type : Text} {name : Identifier}

theorem dots_not_blank : ∀ c ∈ ['.', '.'], isBlank c = false :=
  List.forall_mem_cons.mpr ⟨rfl, List.forall_mem_singleton.mpr rfl⟩

theorem inert_brackets (name : Identifier) (htype : Declares type) {i j : Nat}
    {behindType behindName : Text} (hi : Pairs i behindType) (gap : Outline.Blanks)
    (hgap : gap.text ≠ []) (hj : Pairs j behindName) :
    Inert (type ++ (behindType ++ (gap.text ++ (name.text ++ behindName)))) := by
  have hgaps : ∀ c ∈ behindType ++ gap.text, separates c = true :=
    List.forall_mem_append.mpr ⟨hi.separates, fun c hc => separates_of_isBlank (gap.blank c hc)⟩
  rw [← List.append_assoc behindType]
  exact htype.inert.append_gap_append (List.append_ne_nil_of_right_ne_nil _ hgap) hgaps
    (name.inert.append_gap hj.separates)

/-- Array brackets behind the type and behind the name. -/
theorem readDeclarator_brackets (htype : Declares type) {i j : Nat}
    {behindType behindName : Text} (hi : Pairs i behindType) (gap : Outline.Blanks)
    (hgap : gap.text ≠ []) (hj : Pairs j behindName) :
    readDeclarator (squeeze (type ++ (behindType ++ (gap.text ++ (name.text ++ behindName))))) =
      .ok ⟨name.text, JavaType.read (type ++ bracketText (i + j))⟩ := by
  obtain ⟨squeezed, hcount, hname⟩ := hj.exists_squeeze name.text
  rw [name.squeeze_text] at hname
  have hsplit : squeeze (type ++ (behindType ++ (gap.text ++ (name.text ++ behindName)))) =
      squeeze (type ++ behindType) ++ ' ' :: (name.text ++ squeezed) := by
    rw [← List.append_assoc, squeeze_gap _ _ _ hgap gap.blank
      (words_ne_nil_of_isNameStart htype.starts _) (words_ne_nil_of_isNameStart name.starts _),
      hname]
  have hcut : cut? "...".toList (squeeze (type ++ behindType) ++ ' ' :: (name.text ++ squeezed)) =
      none := by
    rw [← hsplit, cut?_eq_none_iff]
    intro hdots
    have htwo : ['.', '.'] <:+: "...".toList := ⟨['.'], [], rfl⟩
    exact (inert_brackets name htype hi gap hgap hj).apart
      (infix_of_infix_squeeze dots_not_blank (htwo.trans hdots))
  obtain ⟨c, rest, htext, -⟩ := exists_cons_of_any_head? name.starts
  have hmem : c ∈ name.text ++ squeezed := by
    rw [htext]
    exact List.mem_cons_self
  have hread : splitDeclaratorFrom? [] (squeeze (type ++ behindType) ++
      ' ' :: (name.text ++ squeezed)) = some (squeeze (type ++ behindType), name.text, j) := by
    rw [splitDeclaratorFrom?_skip _ _ _ (name.isDeclaratorPart c (htext ▸ List.mem_cons_self)) hmem,
      List.nil_append, splitDeclaratorFrom?]
    simp [hi.endsType htype.ends, declarator?_pairs name.text_ne_nil name.isDeclaratorPart hcount]
  rw [hsplit, readDeclarator, hcut]
  simp only [hread, read_brackets hi]

theorem trim_append_gap {t gap : Text} (h : Squeezed t) (hne : t ≠ [])
    (hgap : ∀ c ∈ gap, isBlank c = true) : trim (t ++ gap) = t := by
  obtain ⟨c, rest, rfl⟩ := List.exists_cons_of_ne_nil hne
  rw [trim, List.cons_append, skipBlanks_cons c _ h.first, ← List.cons_append,
    trimEnd_append_blanks _ gap hgap, trimEnd_eq_self h.last]

theorem Identifier.trim_blanks_text (n : Identifier) {gap : Text}
    (hgap : ∀ c ∈ gap, isBlank c = true) : trim (gap ++ n.text) = n.text := by
  have hsqueezed : Squeezed n.text := n.squeeze_text ▸ squeezed_squeeze n.text
  rw [trim, skipBlanks_blanks_append gap _ hgap, skipBlanks_eq_self hsqueezed.first,
    trimEnd_eq_self hsqueezed.last]

/-- Squeezing leaves the dots and the name, with a space before each of them or none. -/
theorem exists_squeeze_dots (t : Text) (before after : Outline.Blanks) (name : Identifier) :
    ∃ gap inner, (gap = [] ∨ gap = [' ']) ∧ (∀ c ∈ inner, isBlank c = true) ∧
      squeeze (t ++ (before.text ++ ("...".toList ++ (after.text ++ name.text)))) =
        squeeze t ++ gap ++ ("...".toList ++ (inner ++ name.text)) := by
  obtain ⟨gap, hgap, hdots⟩ := exists_squeeze_append (t ++ before.text) '.'
    ("..".toList ++ (after.text ++ name.text)) rfl
  obtain ⟨c, rest, htext, hc⟩ := exists_cons_of_any_head? name.starts
  obtain ⟨inner, hinner, hname⟩ := exists_squeeze_append ("...".toList ++ after.text) c rest
    (isBlank_of_isNameStart hc)
  have hrest : squeeze ("...".toList ++ (after.text ++ name.text)) =
      "...".toList ++ (inner ++ name.text) := by
    rw [← List.append_assoc, htext, hname, ← htext, squeeze_append_blanks _ _ after.blank,
      name.squeeze_text, List.append_assoc]
    rfl
  refine ⟨gap, inner, hgap, isBlank_of_gap hinner, ?_⟩
  rw [squeeze_append_blanks _ _ before.blank] at hdots
  rw [← hrest, ← List.append_assoc]
  exact hdots

/-- The text is cut at the dots, since the dots of its type stand apart. -/
theorem cut?_squeezed_dots {t gap : Text} (hapart : ¬ ['.', '.'] <:+: t)
    (hends : t.getLast?.any endsType = true) (hgap : gap = [] ∨ gap = [' ']) (after : Text) :
    cut? "...".toList (t ++ gap ++ ("...".toList ++ after)) = some (t ++ gap, after) := by
  refine cut?_dots _ _ (apart_append_dot ?_ (by decide) ?_ (by simp))
  · rcases hgap with rfl | rfl
    · rwa [List.append_nil]
    · intro h
      rcases infix_of_infix_append_cons (by decide) h with hleft | hright
      · exact hapart hleft
      · exact absurd hright (by decide)
  · rcases hgap with rfl | rfl
    · obtain ⟨last, hlast, hlastEnds⟩ := (Option.any_eq_true _ _).mp hends
      rw [List.append_nil, hlast]
      rintro ⟨⟩
      cases hlastEnds
    · simp

/-- Three dots for the last pair of brackets. -/
theorem readDeclarator_dots (htype : Declares type) {i : Nat} {behindType : Text}
    (hi : Pairs i behindType) (before after : Outline.Blanks) :
    readDeclarator (squeeze (type ++ (behindType ++ (before.text ++ ("...".toList ++
      (after.text ++ name.text)))))) =
      .ok ⟨name.text, JavaType.read (type ++ bracketText (i + 1))⟩ := by
  obtain ⟨gap, inner, hgap, hinner, hsplit⟩ :=
    exists_squeeze_dots (type ++ behindType) before after name
  have hends := hi.endsType htype.ends
  have hapart : ¬ ['.', '.'] <:+: squeeze (type ++ behindType) := fun h =>
    (htype.inert.append_gap hi.separates).apart (infix_of_infix_squeeze dots_not_blank h)
  have hne : squeeze (type ++ behindType) ≠ [] := by
    intro hnil
    rw [hnil] at hends
    cases hends
  have htype' : trim (squeeze (type ++ behindType) ++ gap) = squeeze (type ++ behindType) :=
    trim_append_gap (squeezed_squeeze _) hne (isBlank_of_gap hgap)
  have hspace : name.text.contains ' ' = false := by
    rw [List.contains_eq_mem, decide_eq_false_iff_not]
    intro hmem
    cases name.parts ' ' hmem
  rw [← List.append_assoc, hsplit, readDeclarator, cut?_squeezed_dots hapart hends hgap]
  simp only [htype', name.trim_blanks_text hinner, hspace, List.isEmpty_eq_false_iff.mpr hne,
    List.isEmpty_eq_false_iff.mpr name.text_ne_nil, Bool.or_false, Bool.false_eq_true, if_false]
  exact congrArg (fun t => Except.ok (Parameter.mk name.text t)) (read_brackets hi type 1)

/-- The ways to write a parameter of a type with the given number of bracket pairs. -/
inductive Spells (type : Text) (name : Identifier) : Nat → Text → Prop
  | brackets {i j : Nat} {behindType behindName : Text} (hi : Pairs i behindType)
    (gap : Outline.Blanks) (hgap : gap.text ≠ []) (hj : Pairs j behindName) :
    Spells type name (i + j) (type ++ (behindType ++ (gap.text ++ (name.text ++ behindName))))
  | dots {i : Nat} {behindType : Text} (hi : Pairs i behindType)
    (before after : Outline.Blanks) :
    Spells type name (i + 1) (type ++ (behindType ++ (before.text ++ ("...".toList ++
      (after.text ++ name.text)))))

theorem Spells.exists_eq_append {pairs : Nat} {t : Text} (h : Spells type name pairs t) :
    ∃ rest, t = type ++ rest := by
  cases h with
  | brackets => exact ⟨_, rfl⟩
  | dots => exact ⟨_, rfl⟩

theorem Spells.readDeclarator_eq {pairs : Nat} {t : Text} (h : Spells type name pairs t)
    (htype : Declares type) :
    readDeclarator (squeeze t) = .ok ⟨name.text, JavaType.read (type ++ bracketText pairs)⟩ := by
  cases h with
  | brackets hi gap hgap hj => exact readDeclarator_brackets htype hi gap hgap hj
  | dots hi before after => exact readDeclarator_dots htype hi before after

/-- Nothing is erased from a spelled parameter. -/
theorem Spells.unadorned {pairs : Nat} {t : Text} (h : Spells type name pairs t)
    (htype : Declares type) : '@' ∉ t ∧ hasWord "final".toList t = false := by
  cases h with
  | brackets hi gap hgap hj =>
    have hinert := inert_brackets name htype hi gap hgap hj
    exact ⟨hinert.bare, hinert.unmodified⟩
  | @dots i behindType hi before after =>
    have hbefore := fun c hc => separates_of_isBlank (before.blank c hc)
    have hafter := fun c hc => separates_of_isBlank (after.blank c hc)
    have hfront := htype.inert.append_gap (List.forall_mem_append.mpr ⟨hi.separates, hbefore⟩)
    have hback := name.inert.gap_append hafter
    have hsplit : type ++ (behindType ++ (before.text ++ ("...".toList ++
        (after.text ++ name.text)))) =
        type ++ (behindType ++ before.text) ++
          '.' :: ("..".toList ++ (after.text ++ name.text)) := by
      simp
    have hdots : ∀ c ∈ "..".toList, isNamePart c = false :=
      List.forall_mem_cons.mpr ⟨rfl, List.forall_mem_singleton.mpr rfl⟩
    rw [hsplit]
    constructor
    · intro hmem
      rcases List.mem_append.mp hmem with hleft | hmem
      · exact hfront.bare hleft
      · have hmem' : '@' ∈ "...".toList ++ (after.text ++ name.text) := hmem
        rcases List.mem_append.mp hmem' with hdots | hright
        · exact absurd hdots (by decide)
        · exact hback.bare hright
    · rw [hasWord_append_cons _ _ _ '.' (by decide) final_isNamePart (by decide),
        hasWord_gap_append _ _ _ (by decide) final_isNamePart hdots, hfront.unmodified,
        hback.unmodified]
      rfl

/-- Every way to write a parameter, behind annotations and modifiers and before blanks, is read as
its name and its type with all brackets behind the type. -/
theorem readParameter_spelling {front declarator : Text} {pairs : Nat} (hfront : Front front)
    (htype : TypeText type) (hspells : Spells type name pairs declarator)
    (blanks : Outline.Blanks) :
    readParameter (front ++ (declarator ++ blanks.text)) =
      .ok ⟨name.text, JavaType.read (type ++ bracketText pairs)⟩ := by
  have hdeclares := htype.declares
  obtain ⟨hbare, hfinal⟩ := hspells.unadorned hdeclares
  obtain ⟨rest, rfl⟩ := hspells.exists_eq_append
  rw [hfront.readParameter_append, squeeze_append_blanks _ _ blanks.blank,
    hspells.readDeclarator_eq hdeclares]
  · obtain ⟨c, tail, rfl, hc⟩ := exists_cons_of_any_head? hdeclares.starts
    exact hc
  · rw [List.mem_append, not_or]
    refine ⟨hbare, fun hmem => ?_⟩
    cases blanks.blank '@' hmem
  · rw [hasWord_append_gap _ _ _ (by decide) final_isNamePart
      fun c hc => isNamePart_of_isBlank c (blanks.blank c hc), hfinal]

/-- A generic type with a pair of brackets behind it and another behind the name, and the same type
with dots for the second pair. -/
theorem readParameter_spelled_lists :
    readParameter "@A(b()) final java.List< int > [ ] ids\t[] ".toList =
      .ok ⟨"ids".toList, JavaType.read "java.List< int >[][]".toList⟩ ∧
    readParameter "final @A(b())java.List< int >[]... ids".toList =
      .ok ⟨"ids".toList, JavaType.read "java.List< int >[][]".toList⟩ := by
  let no : Outline.Blanks := ⟨[], List.all_eq_true.mp rfl⟩
  let space : Outline.Blanks := ⟨[' '], List.all_eq_true.mp rfl⟩
  let tab : Outline.Blanks := ⟨['\t'], List.all_eq_true.mp rfl⟩
  let ids : Identifier := ⟨"ids".toList, by decide, List.all_eq_true.mp (by decide), by decide⟩
  let annotation : AnnotationName := ⟨no, "A".toList, by decide, List.all_eq_true.mp (by decide)⟩
  have hinside : Paired "b()".toList := .other 'b' (by decide) (by decide) (.group .nil .nil)
  have hint : TypeText "int".toList :=
    .name ⟨"int".toList, by decide, List.all_eq_true.mp (by decide), by decide⟩
  let argument : Padded := ⟨space, "int".toList, space⟩
  have harguments : ∀ a ∈ [argument], TypeText a.inner := List.forall_mem_singleton.mpr hint
  have htype : TypeText "java.List< int >".toList :=
    .generic (.qualified
      (.name ⟨"java".toList, by decide, List.all_eq_true.mp (by decide), by decide⟩)
      ⟨"List".toList, by decide, List.all_eq_true.mp (by decide), by decide⟩) no harguments
  constructor
  · exact readParameter_spelling
      (.applied annotation no hinside (.blank rfl (.final (.blank rfl .nil) rfl))) htype
      (.brackets (.more space space .none) space (by decide) (.more tab no .none) :
        Spells _ ids _ _)
      space
  · exact readParameter_spelling
      (.final (.blank rfl (.applied annotation no hinside .nil)) rfl) htype
      (.dots (.more no no .none) no space : Spells _ ids _ _) no

end NativeGlue.Source
