import NativeGlue.Proofs.Source.Outline
import NativeGlue.Proofs.Source.Statement

/-!
The spelling of modifiers, names and types in an outline. They are words without blanks or
separators, a name is no reserved word and holds none, and no type has two dots in a row.
-/

namespace NativeGlue.Outline

open Text

/-- A character of modifiers, names and types. -/
def isSpelling (c : Char) : Bool := isAsciiNamePart c || ['.', '[', ']', '-'].contains c

def Spelled (t : Text) : Prop := t ≠ [] ∧ ∀ c ∈ t, isSpelling c = true

/-- Modifiers for which a reader of parameters or methods looks. No type holds them. -/
def soughtModifiers : List Text := ["final".toList, "static".toList]

theorem Spelled.of_all (t : Text) (hne : t.isEmpty = false) (h : t.all isSpelling = true) :
    Spelled t :=
  ⟨List.isEmpty_eq_false_iff.mp hne, List.all_eq_true.mp h⟩

theorem isNamePart_of_isAsciiNamePart (c : Char) (h : isAsciiNamePart c = true) :
    isNamePart c = true := by
  rcases Bool.or_eq_true_iff.mp h with hword | hdollar
  · simp [isNamePart, isWord, hword]
  · simp [isNamePart, hdollar]

theorem isSpelling_of_isAsciiNamePart (c : Char) (h : isAsciiNamePart c = true) :
    isSpelling c = true := by
  rw [isSpelling, h, Bool.true_or]

theorem isBlank_of_isSpelling (c : Char) (h : isSpelling c = true) : isBlank c = false := by
  rcases Bool.or_eq_true_iff.mp h with hname | hother
  · exact isBlank_of_isNamePart c (isNamePart_of_isAsciiNamePart c hname)
  · simp only [List.contains_eq_mem, decide_eq_true_eq, List.mem_cons, List.not_mem_nil,
      or_false] at hother
    rcases hother with rfl | rfl | rfl | rfl <;> rfl

theorem Spelled.not_blank (t : Text) (h : Spelled t) : t ≠ [] ∧ ∀ c ∈ t, isBlank c = false :=
  ⟨h.1, fun c hc => isBlank_of_isSpelling c (h.2 c hc)⟩

/-- A character that is none of the spelling is not in a spelled text. -/
theorem Spelled.notMem (t : Text) (h : Spelled t) (c : Char) (hc : isSpelling c = false) :
    c ∉ t := by
  intro hmem
  rw [h.2 c hmem] at hc
  cases hc

theorem Spelled.flat (t : Text) (h : Spelled t) : Source.Flat t :=
  .of_forall (isSpelling · = true) t h.2 (by decide) (by decide)

theorem reservedWord_isNamePart (word : Text) (h : word ∈ reservedWords) :
    word ≠ [] ∧ ∀ c ∈ word, isNamePart c = true := by
  have htable : ∀ w ∈ reservedWords, w.isEmpty = false ∧ w.all isNamePart = true := by decide
  obtain ⟨hne, hparts⟩ := htable word h
  exact ⟨List.isEmpty_eq_false_iff.mp hne, List.all_eq_true.mp hparts⟩

theorem mem_reservedWords_of_sought (word : Text) (h : word ∈ soughtModifiers) :
    word ∈ reservedWords := by
  have htable : ∀ w ∈ soughtModifiers, w ∈ reservedWords := by decide
  exact htable word h

namespace Name

variable (n : Name)

theorem text_ne_nil : n.text ≠ [] := by
  intro hnil
  have hstarts := n.starts
  rw [hnil] at hstarts
  cases hstarts

theorem isNamePart_of_mem (c : Char) (hc : c ∈ n.text) : isNamePart c = true :=
  isNamePart_of_isAsciiNamePart c (n.parts c hc)

theorem spelled : Spelled n.text :=
  ⟨n.text_ne_nil, fun c hc => isSpelling_of_isAsciiNamePart c (n.parts c hc)⟩

theorem notMem (c : Char) (hc : isAsciiNamePart c = false) : c ∉ n.text := by
  intro hmem
  rw [n.parts c hmem] at hc
  cases hc

theorem isName_text : isName n.text = true := by
  obtain ⟨c, rest, htext⟩ := List.exists_cons_of_ne_nil n.text_ne_nil
  have hstarts := n.starts
  rw [htext] at hstarts ⊢
  rw [isName, show isNameStart c = true from hstarts, Bool.true_and, List.all_eq_true]
  intro d hd
  exact n.isNamePart_of_mem d (htext ▸ List.mem_cons_of_mem c hd)

theorem hasWord_eq_false (word : Text) (hword : word ∈ reservedWords) :
    hasWord word n.text = false := by
  rw [hasWord_name word n.text (reservedWord_isNamePart word hword).1 n.isNamePart_of_mem]
  refine decide_eq_false ?_
  rintro rfl
  exact n.free hword

end Name

theorem Modifier.spelled (m : Modifier) : Spelled m.text := by
  have htable : ∀ w ∈ modifierWords, w.isEmpty = false ∧ w.all isSpelling = true := by decide
  obtain ⟨hne, hparts⟩ := htable m.text m.known
  exact .of_all m.text hne hparts

theorem keyword_spelled (kind : Primitive) : Spelled kind.keyword := by
  cases kind <;> exact .of_all _ (by decide) (by decide)

namespace BaseType

theorem spelled (b : BaseType) : Spelled b.text := by
  cases b with
  | primitive kind => exact keyword_spelled kind
  | named package name =>
    constructor
    · intro hnil
      have hsuffix := suffix_join ['.'] (package.map Name.text) name.text
      rw [BaseType.text, List.map_append, List.map_singleton] at hnil
      rw [hnil, List.suffix_nil] at hsuffix
      exact name.text_ne_nil hsuffix
    · refine forall_mem_join _ _ _ (List.forall_mem_singleton.mpr rfl) ?_
      intro t ht
      obtain ⟨n, -, rfl⟩ := List.mem_map.mp ht
      exact n.spelled.2

theorem getLast?_isNamePart (b : BaseType) : b.text.getLast?.any isNamePart = true := by
  cases b with
  | primitive kind => cases kind <;> decide
  | named package name =>
    obtain ⟨before, hsplit⟩ := suffix_join ['.'] (package.map Name.text) name.text
    have hlast := List.getLast?_eq_some_getLast name.text_ne_nil
    rw [BaseType.text, List.map_append, List.map_singleton, ← hsplit, List.getLast?_append, hlast]
    exact name.isNamePart_of_mem _ (List.getLast_mem name.text_ne_nil)

theorem hasWord_eq_false (b : BaseType) (word : Text) (hword : word ∈ soughtModifiers) :
    hasWord word b.text = false := by
  have hreserved := mem_reservedWords_of_sought word hword
  obtain ⟨hne, hparts⟩ := reservedWord_isNamePart word hreserved
  cases b with
  | primitive kind =>
    have htable : ∀ w ∈ soughtModifiers, ∀ k ∈ Primitive.all, hasWord w k.keyword = false := by
      decide
    exact htable word hword kind (by cases kind <;> decide)
  | named package name =>
    have hdot : ∀ d ∈ ['.'], isNamePart d = false := List.forall_mem_singleton.mpr rfl
    rw [BaseType.text, hasWord_join word '.' [] _ hne hparts hdot, List.any_eq_false]
    intro t ht
    obtain ⟨n, -, rfl⟩ := List.mem_map.mp ht
    rw [n.hasWord_eq_false word hreserved]
    exact Bool.false_ne_true

end BaseType

theorem dots_infix_of_append (before t : Text) (hbefore : '.' ∉ before)
    (h : ['.', '.'] <:+: before ++ t) : ['.', '.'] <:+: t := by
  induction before with
  | nil => exact h
  | cons c before ih =>
    refine ih (fun hmem => hbefore (List.mem_cons_of_mem c hmem)) ?_
    rcases List.infix_cons_iff.mp h with hstart | hrest
    · have hc : '.' = c := (List.cons_prefix_cons.mp hstart).1
      exact absurd (hc ▸ List.mem_cons_self) hbefore
    · exact hrest

theorem not_dots_infix_of_notMem (t : Text) (h : '.' ∉ t) : ¬ ['.', '.'] <:+: t := by
  intro hdots
  exact h (hdots.subset List.mem_cons_self)

/-- A dot between names has a character of a name on each side. -/
theorem not_dots_infix_names (names : List Name) (after : Text) (hafter : '.' ∉ after) :
    ¬ ['.', '.'] <:+: join ['.'] (names.map Name.text) ++ after := by
  induction names with
  | nil => exact not_dots_infix_of_notMem after hafter
  | cons n names ih =>
    have hdot : '.' ∉ n.text := n.notMem '.' (by decide)
    intro hdots
    cases names with
    | nil =>
      have hsingle : join ['.'] ([n].map Name.text) = n.text := by simp [join]
      rw [hsingle] at hdots
      exact not_dots_infix_of_notMem after hafter (dots_infix_of_append n.text after hdot hdots)
    | cons next names =>
      rw [List.map_cons, List.map_cons, join_cons_cons, List.append_assoc, List.append_assoc]
        at hdots
      rcases List.infix_cons_iff.mp (dots_infix_of_append _ _ hdot hdots) with hstart | hrest
      · obtain ⟨more, hmore⟩ := prefix_join ['.'] next.text (names.map Name.text)
        obtain ⟨c, tail, hnext⟩ := List.exists_cons_of_ne_nil next.text_ne_nil
        have hfirst : '.' = c := by
          rw [← hmore, hnext, List.cons_prefix_cons] at hstart
          exact (List.cons_prefix_cons.mp hstart.2).1
        exact next.notMem '.' (by decide) (hnext ▸ hfirst ▸ List.mem_cons_self)
      · exact ih hrest

theorem BaseType.not_dots_infix (b : BaseType) (after : Text) (hafter : '.' ∉ after) :
    ¬ ['.', '.'] <:+: b.text ++ after := by
  cases b with
  | primitive kind =>
    have hkeyword : '.' ∉ kind.keyword := by cases kind <;> decide
    exact not_dots_infix_of_notMem _ (by simp [BaseType.text, hkeyword, hafter])
  | named package name => exact not_dots_infix_names _ after hafter

namespace TypeName

theorem eq_of_mem_brackets (pairs : Nat) :
    ∀ c ∈ Source.bracketText pairs, c = '[' ∨ c = ']' := by
  intro c hc
  obtain ⟨pair, hpair, hmem⟩ := List.mem_flatten.mp hc
  obtain ⟨-, rfl⟩ := List.mem_replicate.mp hpair
  simpa using hmem

theorem spelled (t : TypeName) : Spelled t.text := by
  obtain ⟨hne, hbase⟩ := t.base.spelled
  refine ⟨List.append_ne_nil_of_left_ne_nil hne _, ?_⟩
  intro c hc
  rcases List.mem_append.mp hc with hc | hc
  · exact hbase c hc
  · rcases eq_of_mem_brackets t.dimensions c hc with rfl | rfl <;> rfl

theorem getLast?_endsType (t : TypeName) : t.text.getLast?.any Source.endsType = true := by
  obtain ⟨base, dimensions⟩ := t
  cases dimensions with
  | zero =>
    have hlast := base.getLast?_isNamePart
    rw [Option.any_eq_true] at hlast ⊢
    obtain ⟨c, hc, hpart⟩ := hlast
    refine ⟨c, ?_, by simp [Source.endsType, hpart]⟩
    rw [TypeName.text, show Source.bracketText 0 = [] from rfl, List.append_nil]
    exact hc
  | succ pairs =>
    have hsplit : Source.bracketText (pairs + 1) = Source.bracketText pairs ++ ['[', ']'] := by
      rw [Source.bracketText, List.replicate_succ', List.flatten_append]
      rfl
    rw [TypeName.text, hsplit]
    simp [Source.endsType]

theorem hasWord_eq_false (t : TypeName) (word : Text) (hword : word ∈ soughtModifiers) :
    hasWord word t.text = false := by
  obtain ⟨hne, hparts⟩ :=
    reservedWord_isNamePart word (mem_reservedWords_of_sought word hword)
  have hgap : ∀ c ∈ Source.bracketText t.dimensions, isNamePart c = false := by
    intro c hc
    rcases eq_of_mem_brackets t.dimensions c hc with rfl | rfl <;> decide
  rw [TypeName.text, hasWord_append_gap word _ _ hne hparts hgap]
  exact t.base.hasWord_eq_false word hword

theorem not_dots_infix (t : TypeName) (after : Text) (hafter : '.' ∉ after) :
    ¬ "...".toList <:+: t.text ++ after := by
  have hbrackets : '.' ∉ Source.bracketText t.dimensions := by
    intro hmem
    rcases eq_of_mem_brackets t.dimensions '.' hmem with hdot | hdot <;> cases hdot
  have hdots := t.base.not_dots_infix (Source.bracketText t.dimensions ++ after)
    (by simp [hbrackets, hafter])
  intro hthree
  rw [TypeName.text, List.append_assoc] at hthree
  have htwo : ['.', '.'] <:+: "...".toList := ⟨['.'], [], rfl⟩
  exact hdots (htwo.trans hthree)

end TypeName

end NativeGlue.Outline
