import Mathlib.Data.List.TakeWhile
import NativeGlue.Proofs.JavaType
import NativeGlue.Source.NativeMethod

/-!
Statements without anything unusual. Where a text has no at sign and no modifier `final` there
is nothing to erase, parentheses that do not nest close at once, and a type without blanks or
dots in a row is its own normal form.
-/

namespace NativeGlue

open Text

namespace Text

theorem afterWordFrom?_tail (word rest : Text) (before : Option Char) (c : Char)
    (h : afterWordFrom? word before (c :: rest) = none) :
    afterWordFrom? word (some c) rest = none := by
  rw [afterWordFrom?] at h
  split at h
  · split at h
    · cases h
    · exact h
  · exact h

/-- A word is found where it stands between other characters than those of names. -/
theorem afterWordFrom?_ne_none (word after : Text) (before : Option Char) (hne : word ≠ [])
    (hbefore : atNameBoundary before = true) (hafter : atNameBoundary after.head? = true) :
    afterWordFrom? word before (word ++ after) ≠ none := by
  obtain ⟨c, word, rfl⟩ := List.exists_cons_of_ne_nil hne
  have hdrop : dropStart? (c :: word) (c :: (word ++ after)) = some after :=
    dropStart?_append (c :: word) after
  rw [List.cons_append, afterWordFrom?, hdrop]
  simp [hbefore, hafter]

end Text

namespace JavaType

theorem closeBrackets_eq_self (t : Text) (h : ' ' ∉ t) : closeBrackets t = t := by
  have hclosed : Closed t :=
    ⟨fun hin => h (hin.subset (by decide)), fun hin => h (hin.subset (by decide))⟩
  exact hclosed.closeBrackets_eq

theorem normalize_eq_self (t : Text) (hne : t ≠ []) (ht : ∀ c ∈ t, isBlank c = false)
    (hdots : ¬ "...".toList <:+: t) : normalize t = t := by
  have hspace : ' ' ∉ t := by
    intro hmem
    have hblank := ht ' ' hmem
    simp [isBlank] at hblank
  have hends : endsWith "...".toList t = false := by
    rw [endsWith, ← Bool.not_eq_true, List.isSuffixOf_iff_suffix]
    exact fun hsuffix => hdots hsuffix.isInfix
  have hsqueeze : squeeze t = t := by
    rw [squeeze, words_word t hne ht]
    simp [join]
  rw [normalize, hsqueeze, closeBrackets_eq_self t hspace, dotsAsArray, hends, if_neg (by simp)]

end JavaType

namespace Source

theorem eraseAnnotations_eq_self (t : Text) (h : '@' ∉ t) : eraseAnnotations t = t := by
  induction t with
  | nil => rw [eraseAnnotations]
  | cons c t ih =>
    have hc : c ≠ '@' := by
      rintro rfl
      exact h List.mem_cons_self
    rw [eraseAnnotations, if_neg hc, ih fun hmem => h (List.mem_cons_of_mem c hmem)]

theorem eraseFinalFrom_eq_self (before : Option Char) (t : Text)
    (h : afterWordFrom? "final".toList before t = none) : eraseFinalFrom before t = t := by
  fun_induction eraseFinalFrom before t with
  | case1 before c rest hfinal ih =>
    obtain ⟨hbefore, hblank⟩ := Bool.and_eq_true_iff.mp hfinal
    have hc : atNameBoundary (c :: rest).head? = true := by
      rw [List.head?_cons, atNameBoundary_some, isNamePart_of_isBlank c hblank]
      rfl
    exact absurd h
      (afterWordFrom?_ne_none "final".toList (c :: rest) before (by simp) hbefore hc)
  | case2 before c rest _ ih => rw [ih (afterWordFrom?_tail _ _ before 'f' h)]
  | case3 before c rest _ ih => rw [ih (afterWordFrom?_tail _ _ before c h)]
  | case4 => rfl

theorem eraseFinal_eq_self (t : Text) (h : hasWord "final".toList t = false) :
    eraseFinal t = t := by
  rw [hasWord, Option.isSome_eq_false_iff, Option.isNone_iff_eq_none] at h
  exact eraseFinalFrom_eq_self none t h

/-- A text without parentheses. -/
def Flat (t : Text) : Prop := ∀ c ∈ t, c ≠ '(' ∧ c ≠ ')'

/-- A text has no parentheses if all its characters have a property that parentheses lack. -/
theorem Flat.of_forall (P : Char → Prop) (t : Text) (h : ∀ c ∈ t, P c) (hopen : ¬ P '(')
    (hclose : ¬ P ')') : Flat t := by
  intro c hc
  constructor
  · rintro rfl
    exact hopen (h '(' hc)
  · rintro rfl
    exact hclose (h ')' hc)

theorem Flat.append (t u : Text) (ht : Flat t) (hu : Flat u) : Flat (t ++ u) := by
  intro c hc
  rcases List.mem_append.mp hc with hc | hc
  · exact ht c hc
  · exact hu c hc

theorem closingFrom?_append (depth : Int) (before after : Text) (hbefore : Flat before) :
    closingFrom? depth (before ++ after) =
      (closingFrom? depth after).map (· + before.length) := by
  induction before with
  | nil => simp
  | cons c before ih =>
    obtain ⟨hopen, hclose⟩ := hbefore c List.mem_cons_self
    have hrest := ih fun d hd => hbefore d (List.mem_cons_of_mem c hd)
    rw [List.cons_append, closingFrom?, hrest, Option.map_map]
    · rfl
    · exact hopen
    · exact hclose

/-- A statement whose first parentheses stand around its parameter list. -/
theorem cutParameters_append (before inside trailer : Text) (hbefore : '(' ∉ before)
    (hinside : Flat inside) :
    cutParameters (before ++ '(' :: (inside ++ ')' :: trailer)) =
      .ok ⟨words before, inside, squeeze trailer⟩ := by
  have hkept : ∀ c ∈ before, (c != '(') = true := by
    intro c hc
    simp only [bne_iff_ne, ne_eq]
    rintro rfl
    exact hbefore hc
  have htake : (before ++ '(' :: (inside ++ ')' :: trailer)).takeWhile (· != '(') = before := by
    rw [List.takeWhile_append_of_pos hkept, List.takeWhile_cons_of_neg (by simp),
      List.append_nil]
  have hdrop : (before ++ '(' :: (inside ++ ')' :: trailer)).dropWhile (· != '(') =
      '(' :: (inside ++ ')' :: trailer) := by
    rw [List.dropWhile_append_of_pos hkept, List.dropWhile_cons_of_neg (by simp)]
  have hclosing : closing? ('(' :: (inside ++ ')' :: trailer)) = some (inside.length + 1) := by
    rw [closing?, closingFrom?, closingFrom?_append _ _ _ hinside]
    simp [closingFrom?]
  unfold cutParameters
  simp only [htake, hdrop, hclosing]
  have htrailer : (inside ++ ')' :: trailer).drop (inside.length + 1) = trailer := by
    rw [← List.drop_drop, List.drop_left]
    rfl
  simp only [Nat.add_sub_cancel, List.take_left, List.drop_succ_cons, htrailer]

theorem isNativeStatement_of_blank {t : Text} (h : ∀ c ∈ t, isBlank c = true) :
    isNativeStatement t = false := by
  rw [isNativeStatement, Bool.and_eq_false_iff]
  refine .inr ?_
  rw [List.contains_eq_mem, decide_eq_false_iff_not]
  exact fun hmem => absurd (h '(' hmem) (by decide)

theorem mayStartKeyword_some_blank (c : Char) (hc : isBlank c = true) :
    mayStartKeyword (some c) = true := by
  have hpart := isNamePart_of_isBlank c hc
  have hdot : c ≠ '.' := by
    rintro rfl
    simp [isBlank] at hc
  have hat : c ≠ '@' := by
    rintro rfl
    simp [isBlank] at hc
  simp [mayStartKeyword, hpart, hdot, hat]

theorem nameAfterKeyword?_blank (c : Char) (t : Text) (hc : isBlank c = true) :
    nameAfterKeyword? (c :: t) = none := by
  rw [nameAfterKeyword?, List.findSome?_eq_none_iff]
  intro word hword
  have htable : ∀ w ∈ classWords, w.head?.any (!isBlank ·) = true := by decide
  obtain ⟨d, hd, hblank⟩ := (Option.any_eq_true _ _).mp (htable word hword)
  obtain ⟨w, rfl⟩ := List.head?_eq_some_iff.mp hd
  have hne : d ≠ c := by
    rintro rfl
    simp [hc] at hblank
  rw [dropStart?, if_neg hne]
  rfl

theorem classNameFrom?_blank (before : Option Char) (c : Char) (t : Text) (hc : isBlank c = true) :
    classNameFrom? before (c :: t) = classNameFrom? none t := by
  have hboundary : mayStartKeyword (some c) = mayStartKeyword none :=
    mayStartKeyword_some_blank c hc
  rw [classNameFrom?, nameAfterKeyword?_blank c t hc, ite_self]
  cases t with
  | nil => rfl
  | cons d t => simp only [classNameFrom?, hboundary]

theorem className?_cons_blank (c : Char) (t : Text) (hc : isBlank c = true) :
    className? (c :: t) = className? t :=
  classNameFrom?_blank none c t hc

theorem className?_blanks_append (blanks t : Text) (hblanks : ∀ c ∈ blanks, isBlank c = true) :
    className? (blanks ++ t) = className? t := by
  induction blanks with
  | nil => rfl
  | cons c blanks ih =>
    rw [List.cons_append, className?_cons_blank c _ (hblanks c List.mem_cons_self)]
    exact ih fun d hd => hblanks d (List.mem_cons_of_mem c hd)

theorem splitDeclaratorFrom?_append (read type rest : Text) (htype : ' ' ∉ type) :
    splitDeclaratorFrom? read (type ++ rest) = splitDeclaratorFrom? (read ++ type) rest := by
  induction type generalizing read with
  | nil => rw [List.nil_append, List.append_nil]
  | cons c type ih =>
    have hc : c ≠ ' ' := by
      rintro rfl
      exact htype List.mem_cons_self
    rw [List.cons_append, splitDeclaratorFrom?]
    simp only [hc, decide_false, Bool.false_and, Bool.false_eq_true, if_false]
    rw [ih _ fun hmem => htype (List.mem_cons_of_mem c hmem), List.append_assoc,
      List.singleton_append]

theorem declarator?_name (name : Text) (hne : name ≠ [])
    (hname : ∀ c ∈ name, isDeclaratorPart c = true) : declarator? name = some (name, 0) := by
  have htake : name.takeWhile isDeclaratorPart = name := List.takeWhile_eq_self_iff.mpr hname
  have hdrop : name.dropWhile isDeclaratorPart = [] := List.dropWhile_eq_nil_iff.mpr hname
  rw [declarator?, htake, hdrop, if_neg (by simp [hne])]
  rfl

/-- A parameter of a type and a name, with one space between them. -/
theorem readDeclarator_append (type name : Text) (htype : ' ' ∉ type)
    (hends : type.getLast?.any endsType = true) (hne : name ≠ [])
    (hname : ∀ c ∈ name, isDeclaratorPart c = true)
    (hdots : ¬ "...".toList <:+: type ++ ' ' :: name) :
    readDeclarator (type ++ ' ' :: name) = .ok ⟨name, JavaType.read type⟩ := by
  have hcut : cut? "...".toList (type ++ ' ' :: name) = none := (cut?_eq_none_iff _ _).mpr hdots
  have hsplit : splitDeclaratorFrom? [] (type ++ ' ' :: name) = some (type, name, 0) := by
    rw [splitDeclaratorFrom?_append [] type _ htype, List.nil_append, splitDeclaratorFrom?]
    simp [hends, declarator?_name name hne hname]
  have hbrackets : type ++ bracketText 0 = type := List.append_nil type
  rw [readDeclarator, hcut]
  simp only [hsplit, hbrackets]

theorem readParameter_append (blanks type name : Text) (hblanks : ∀ c ∈ blanks, isBlank c = true)
    (htype : type ≠ [] ∧ ∀ c ∈ type, isBlank c = false)
    (hname : name ≠ [] ∧ ∀ c ∈ name, isBlank c = false)
    (hat : '@' ∉ blanks ++ (type ++ ' ' :: name))
    (hfinal : hasWord "final".toList (blanks ++ (type ++ ' ' :: name)) = false) :
    readParameter (blanks ++ (type ++ ' ' :: name)) = readDeclarator (type ++ ' ' :: name) := by
  have hwords : words (blanks ++ (type ++ ' ' :: name)) = [type, name] := by
    rw [words_blanks_append blanks _ hblanks, words_append_blank type name ' ' rfl,
      words_word type htype.1 htype.2, words_word name hname.1 hname.2]
    rfl
  have hsqueeze : squeeze (blanks ++ (type ++ ' ' :: name)) = type ++ ' ' :: name := by
    rw [squeeze, hwords]
    simp [join]
  unfold readParameter
  rw [eraseAnnotations_eq_self _ hat, eraseFinal_eq_self _ hfinal, hsqueeze]
  exact if_neg (by simp)

end Source

end NativeGlue
