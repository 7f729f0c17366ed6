import NativeGlue.JavaType
import NativeGlue.Proofs.Text.Squeeze

/-!
The normal spelling of a type. Closing the brackets of a squeezed text leaves no bracket pair with
a space before or between, and a text without such pairs stays as it is. Array brackets are closed
one by one, whatever stands before them, so every way to space them gives one spelling, and the
category is read off the spelling alone.
-/

namespace NativeGlue

open Text

namespace JavaType

/-- How a bracket pair of a squeezed text may be spaced. -/
inductive SpacedPair : Text → Prop
  | both : SpacedPair [' ', '[', ' ', ']']
  | before : SpacedPair [' ', '[', ']']
  | between : SpacedPair ['[', ' ', ']']

theorem closeBrackets_spaced {pair : Text} (rest : Text) (h : SpacedPair pair) :
    closeBrackets (pair ++ rest) = '[' :: ']' :: closeBrackets rest := by
  cases h <;> simp [closeBrackets]

theorem closeBrackets_char {c : Char} {t : Text} (h : ∀ pair, SpacedPair pair → ¬ pair <+: c :: t) :
    closeBrackets (c :: t) = c :: closeBrackets t := by
  refine closeBrackets.eq_5 c t ?_ ?_ ?_
  · rintro rest rfl rfl
    exact h _ .both ⟨rest, rfl⟩
  · rintro rest rfl rfl
    exact h _ .before ⟨rest, rfl⟩
  · rintro rest rfl rfl
    exact h _ .between ⟨rest, rfl⟩

/-- Induction over the spaced pairs and the other characters of a text. -/
theorem closeBrackets_induction {P : Text → Prop} (nil : P [])
    (pair : ∀ p t, SpacedPair p → P t → P (p ++ t))
    (char : ∀ c t, (∀ p, SpacedPair p → ¬ p <+: c :: t) → P t → P (c :: t)) (t : Text) : P t := by
  fun_induction closeBrackets t with
  | case1 => exact nil
  | case2 rest ih => exact pair _ rest .both ih
  | case3 rest ih => exact pair _ rest .before ih
  | case4 rest ih => exact pair _ rest .between ih
  | case5 c rest hboth hbefore hbetween ih =>
    refine char c rest (fun p hp => ?_) ih
    rintro ⟨after, h⟩
    cases hp
    · cases h
      exact hboth after rfl rfl
    · cases h
      exact hbefore after rfl rfl
    · cases h
      exact hbetween after rfl rfl

theorem head?_closeBrackets (t : Text) :
    (closeBrackets t).head? = t.head? ∨
      (closeBrackets t).head? = some '[' ∧ t.head? = some ' ' := by
  induction t using closeBrackets_induction with
  | nil => exact .inl rfl
  | pair p t hp ih =>
    rw [closeBrackets_spaced t hp]
    cases hp
    · exact .inr ⟨rfl, rfl⟩
    · exact .inr ⟨rfl, rfl⟩
    · exact .inl rfl
  | char c t hno ih =>
    rw [closeBrackets_char hno]
    exact .inl rfl

theorem getLast?_closeBrackets (t : Text) : (closeBrackets t).getLast? = t.getLast? := by
  induction t using closeBrackets_induction with
  | nil => rfl
  | pair p t hp ih =>
    rw [closeBrackets_spaced t hp]
    cases hp <;> simp [List.getLast?_cons, ih]
  | char c t hno ih => rw [closeBrackets_char hno, List.getLast?_cons, List.getLast?_cons, ih]

theorem collapse_closeBrackets (t : Text) (h : collapse t = t) :
    collapse (closeBrackets t) = closeBrackets t := by
  induction t using closeBrackets_induction with
  | nil => rfl
  | pair p t hp ih =>
    rw [closeBrackets_spaced t hp, collapse_char _ _ rfl, collapse_char _ _ rfl,
      ih (collapse_eq_self_append h).2]
  | char c t hno ih =>
    obtain ⟨hrest, hblank⟩ := (collapse_cons_eq_self_iff c t).mp h
    rw [closeBrackets_char hno, collapse_cons_eq_self_iff]
    refine ⟨ih hrest, fun hc => ⟨(hblank hc).1, ?_⟩⟩
    rcases head?_closeBrackets t with hhead | ⟨hhead, -⟩
    · rw [hhead]
      exact (hblank hc).2
    · rw [hhead]
      rfl

theorem squeezed_closeBrackets {t : Text} (h : Squeezed t) : Squeezed (closeBrackets t) where
  collapsed := collapse_closeBrackets t h.collapsed
  first := by
    rcases head?_closeBrackets t with hhead | ⟨hhead, -⟩
    · rw [hhead]
      exact h.first
    · rw [hhead]
      rfl
  last := by
    rw [getLast?_closeBrackets]
    exact h.last

/-- No bracket pair of the text has a space before or between its brackets. -/
structure Closed (t : Text) : Prop where
  between : ¬ "[ ]".toList <:+: t
  before : ¬ " []".toList <:+: t

theorem Closed.of_append {t u : Text} (h : Closed (t ++ u)) : Closed t where
  between hin := h.between (hin.trans (List.prefix_append t u).isInfix)
  before hin := h.before (hin.trans (List.prefix_append t u).isInfix)

theorem Closed.closeBrackets_eq {t : Text} (h : Closed t) : closeBrackets t = t := by
  induction t using closeBrackets_induction with
  | nil => rfl
  | pair p t hp ih =>
    exfalso
    cases hp
    · exact h.between ⟨[' '], t, rfl⟩
    · exact h.before ⟨[], t, rfl⟩
    · exact h.between ⟨[], t, rfl⟩
  | char c t hno ih =>
    have hrest : Closed t :=
      ⟨fun hin => h.between (List.infix_cons hin), fun hin => h.before (List.infix_cons hin)⟩
    rw [closeBrackets_char hno, ih hrest]

/-- What the closed text starts with was there before, unless a pair was closed. -/
theorem exists_cons_of_closeBrackets {t u : Text} {c : Char} (h : closeBrackets t = c :: u) :
    (∃ rest, t = c :: rest ∧ u = closeBrackets rest) ∨
      ∃ pair rest, SpacedPair pair ∧ t = pair ++ rest ∧ c = '[' ∧
        u = ']' :: closeBrackets rest := by
  cases t using closeBrackets_induction with
  | nil => cases h
  | pair p t hp _ =>
    rw [closeBrackets_spaced t hp] at h
    cases h
    exact .inr ⟨p, t, hp, rfl, rfl, rfl⟩
  | char d t hno _ =>
    rw [closeBrackets_char hno] at h
    cases h
    exact .inl ⟨t, rfl, rfl⟩

theorem Closed.cons {c : Char} {t : Text} (h : Closed t) (hbetween : ¬ "[ ]".toList <+: c :: t)
    (hbefore : ¬ " []".toList <+: c :: t) : Closed (c :: t) where
  between hin := (List.infix_cons_iff.mp hin).elim hbetween h.between
  before hin := (List.infix_cons_iff.mp hin).elim hbefore h.before

theorem closed_closeBrackets (t : Text) (h : collapse t = t) : Closed (closeBrackets t) := by
  induction t using closeBrackets_induction with
  | nil => exact ⟨by simp [closeBrackets], by simp [closeBrackets]⟩
  | pair p t hp ih =>
    rw [closeBrackets_spaced t hp]
    have hafter := ih (collapse_eq_self_append h).2
    refine (hafter.cons ?_ ?_).cons ?_ ?_ <;> simp [List.cons_prefix_cons]
  | char c t hno ih =>
    obtain ⟨hrest, hblank⟩ := (collapse_cons_eq_self_iff c t).mp h
    rw [closeBrackets_char hno]
    refine (ih hrest).cons ?_ ?_
    · -- a space and a bracket were there before, so the whole pair was
      rintro ⟨after, heq⟩
      obtain ⟨rfl, htail⟩ := List.cons_eq_cons.mp heq
      rcases exists_cons_of_closeBrackets htail.symm with ⟨u, rfl, hu⟩ | ⟨_, _, _, _, h', _⟩
      · rcases exists_cons_of_closeBrackets hu.symm with ⟨v, rfl, -⟩ | ⟨_, _, _, _, h', _⟩
        · exact hno _ .between ⟨v, rfl⟩
        · cases h'
      · cases h'
    · -- the bracket was there before, or a pair with a second space before it
      rintro ⟨after, heq⟩
      obtain ⟨rfl, htail⟩ := List.cons_eq_cons.mp heq
      rcases exists_cons_of_closeBrackets htail.symm with ⟨u, rfl, hu⟩ | ⟨p, u, hp, rfl, -, -⟩
      · rcases exists_cons_of_closeBrackets hu.symm with ⟨v, rfl, -⟩ | ⟨_, _, _, _, h', _⟩
        · exact hno _ .before ⟨v, rfl⟩
        · cases h'
      · cases hp
        · cases (hblank rfl).2
        · cases (hblank rfl).2
        · exact hno _ .both ⟨u, rfl⟩

/-- Where a spaced pair is cut in two, a space ends the first part or the bracket in the second
is the closing one. -/
theorem SpacedPair.cut {start rest : Text} (h : SpacedPair (start ++ rest)) (hstart : start ≠ [])
    (hrest : rest ≠ []) :
    start.getLast? = some ' ' ∨ rest = "]".toList ∨ rest = " ]".toList := by
  generalize hpair : start ++ rest = pair at h
  rcases start with _ | ⟨a, _ | ⟨b, _ | ⟨c, start⟩⟩⟩
  · exact absurd rfl hstart
  all_goals cases h <;> simp_all [List.append_eq_singleton_iff]

/-- A text is closed part by part if no bracket pair lies in both. -/
theorem closeBrackets_append (t u : Text) (ht : t.getLast? ≠ some ' ')
    (hclose : ¬ "]".toList <+: u) (hspace : ¬ " ]".toList <+: u) :
    closeBrackets (t ++ u) = closeBrackets t ++ closeBrackets u := by
  induction t using closeBrackets_induction with
  | nil => rfl
  | pair p t hp ih =>
    have hlast : t.getLast? ≠ some ' ' := fun h => ht (by rw [List.getLast?_append, h]; rfl)
    rw [List.append_assoc, closeBrackets_spaced _ hp, closeBrackets_spaced t hp, ih hlast]
    rfl
  | char c t hno ih =>
    have hlast : t.getLast? ≠ some ' ' := fun h => ht (by rw [List.getLast?_cons, h]; rfl)
    have hnone : ∀ p, SpacedPair p → ¬ p <+: c :: (t ++ u) := by
      rintro p hp ⟨after, heq⟩
      rw [← List.cons_append] at heq
      rcases List.append_eq_append_iff.mp heq with ⟨rest, hpair, -⟩ | ⟨rest, rfl, rfl⟩
      · exact hno p hp ⟨rest, hpair.symm⟩
      · have hrest : rest ≠ [] := by
          rintro rfl
          rw [List.append_nil] at hp
          exact hno _ hp (List.prefix_refl _)
        rcases hp.cut (List.cons_ne_nil c t) hrest with h | rfl | rfl
        · exact ht h
        · exact hclose (List.prefix_append _ after)
        · exact hspace (List.prefix_append _ after)
    rw [List.cons_append, closeBrackets_char hnone, closeBrackets_char hno, ih hlast,
      List.cons_append]

/-- A type as written, with its array brackets closed. -/
def close (declared : Text) : Text := closeBrackets (squeeze declared)

theorem squeezed_close (t : Text) : Squeezed (close t) :=
  squeezed_closeBrackets (squeezed_squeeze t)

theorem closed_close (t : Text) : Closed (close t) :=
  closed_closeBrackets _ (squeezed_squeeze t).collapsed

theorem close_eq_self {t : Text} (h : Squeezed t) (hclosed : Closed t) : close t = t := by
  rw [close, h.squeeze_eq, hclosed.closeBrackets_eq]

/-- A bracket pair, however it is spaced, is closed behind what stands before it. -/
theorem close_pair (t before between after : Text) (hbefore : ∀ c ∈ before, isBlank c = true)
    (hbetween : ∀ c ∈ between, isBlank c = true) (hafter : ∀ c ∈ after, isBlank c = true) :
    close (t ++ before ++ '[' :: between ++ ']' :: after) = close t ++ "[]".toList := by
  obtain ⟨gap, hgap, hopen⟩ :=
    exists_squeeze_append (t ++ before) '[' (between ++ ']' :: after) rfl
  obtain ⟨inner, hinner, hclose⟩ := exists_squeeze_append ('[' :: between) ']' after rfl
  have hpair : closeBrackets (gap ++ ('[' :: inner ++ "]".toList)) = "[]".toList := by
    rcases hgap with rfl | rfl <;> rcases hinner with rfl | rfl <;> rfl
  have hsqueeze : squeeze (t ++ before ++ '[' :: between ++ ']' :: after) =
      squeeze t ++ (gap ++ ('[' :: inner ++ "]".toList)) := by
    rw [List.append_assoc (t ++ before), List.cons_append, hopen,
      squeeze_append_blanks t before hbefore, ← List.cons_append, hclose,
      squeeze_char_blanks '[' between rfl hbetween, squeeze_char_blanks ']' after rfl hafter]
    simp
  rw [close, hsqueeze, closeBrackets_append _ _ (getLast?_squeeze_ne_space t), hpair, close]
  · rcases hgap with rfl | rfl <;> simp [List.cons_prefix_cons]
  · rcases hgap with rfl | rfl <;> simp [List.cons_prefix_cons]

/-- Dots stay behind what stands before them, with a space between or none. -/
theorem exists_close_dots (t before : Text) (hbefore : ∀ c ∈ before, isBlank c = true) :
    ∃ gap, (gap = [] ∨ gap = [' ']) ∧
      close (t ++ before ++ "...".toList) = close t ++ gap ++ "...".toList := by
  obtain ⟨gap, hgap, hdots⟩ := exists_squeeze_append (t ++ before) '.' "..".toList rfl
  refine ⟨gap, hgap, ?_⟩
  have hsqueeze : squeeze (t ++ before ++ "...".toList) = squeeze t ++ (gap ++ "...".toList) := by
    rw [squeeze_append_blanks t before hbefore, List.append_assoc _ gap] at hdots
    exact hdots
  rw [close, hsqueeze, closeBrackets_append _ _ (getLast?_squeeze_ne_space t), close,
    List.append_assoc]
  · rcases hgap with rfl | rfl <;> rfl
  · rcases hgap with rfl | rfl <;> simp [List.cons_prefix_cons]
  · rcases hgap with rfl | rfl <;> simp [List.cons_prefix_cons]

theorem normalize_eq_dotsAsArray (t : Text) : normalize t = dotsAsArray (close t) := rfl

theorem dotsAsArray_dots (t : Text) :
    dotsAsArray (t ++ "...".toList) = trimEnd t ++ "[]".toList := by
  have hends : endsWith "...".toList (t ++ "...".toList) = true :=
    List.isSuffixOf_iff_suffix.mpr (List.suffix_append t _)
  have htake : (t ++ "...".toList).take ((t ++ "...".toList).length - 3) = t := by
    simp
  rw [dotsAsArray, if_pos hends, htake]

theorem dotsAsArray_pair (t : Text) :
    dotsAsArray (t ++ "[]".toList) = t ++ "[]".toList := by
  have hends : ¬ endsWith "...".toList (t ++ "[]".toList) = true := by
    rw [endsWith, List.isSuffixOf_iff_suffix, ← List.reverse_prefix]
    simp [List.cons_prefix_cons]
  rw [dotsAsArray, if_neg hends]

theorem normalize_pair (t before between after : Text) (hbefore : ∀ c ∈ before, isBlank c = true)
    (hbetween : ∀ c ∈ between, isBlank c = true) (hafter : ∀ c ∈ after, isBlank c = true) :
    normalize (t ++ before ++ '[' :: between ++ ']' :: after) = close t ++ "[]".toList := by
  rw [normalize_eq_dotsAsArray, close_pair t before between after hbefore hbetween hafter,
    dotsAsArray_pair]

theorem normalize_dots (t before : Text) (hbefore : ∀ c ∈ before, isBlank c = true) :
    normalize (t ++ before ++ "...".toList) = close t ++ "[]".toList := by
  obtain ⟨gap, hgap, hclose⟩ := exists_close_dots t before hbefore
  rw [normalize_eq_dotsAsArray, hclose, dotsAsArray_dots,
    trimEnd_append_blanks _ gap (isBlank_of_gap hgap),
    trimEnd_eq_self (squeezed_close t).last]

theorem normalize_brackets (t : Text) : normalize (t ++ "[]".toList) = close t ++ "[]".toList := by
  have hpair := normalize_pair t [] [] [] (by simp) (by simp) (by simp)
  rw [List.append_nil, List.append_assoc] at hpair
  exact hpair

theorem close_trimEnd {t u : Text} (h : Squeezed (t ++ u)) (hclosed : Closed (t ++ u)) :
    close (trimEnd t) = trimEnd t := by
  have hcollapse : collapse t = t := (collapse_eq_self_append h.collapsed).1
  have hhead : t.head?.any isBlank = false := by
    cases t with
    | nil => rfl
    | cons c t => exact h.first
  have htrim : Squeezed (trimEnd t) :=
    ⟨by rw [← trimEnd_collapse, hcollapse], isBlank_head?_trimEnd hhead, isBlank_getLast?_trimEnd t⟩
  obtain ⟨gap, -, hgap⟩ := exists_trimEnd_append t
  rw [hcollapse] at hgap
  exact close_eq_self htrim (Closed.of_append (hgap ▸ hclosed.of_append))

theorem normalize_normalize (t : Text) : normalize (normalize t) = normalize t := by
  by_cases hends : endsWith "...".toList (close t) = true
  · obtain ⟨y, hy⟩ := List.isSuffixOf_iff_suffix.mp hends
    have htrim : close (trimEnd y) = trimEnd y :=
      close_trimEnd (hy ▸ squeezed_close t) (hy ▸ closed_close t)
    have heq : normalize t = trimEnd y ++ "[]".toList := by
      rw [normalize_eq_dotsAsArray, ← hy, dotsAsArray_dots]
    rw [heq, normalize_brackets, htrim]
  · have heq : normalize t = close t := by rw [normalize_eq_dotsAsArray, dotsAsArray, if_neg hends]
    rw [heq, normalize_eq_dotsAsArray, close_eq_self (squeezed_close t) (closed_close t),
      ← normalize_eq_dotsAsArray, heq]

/-- The spellings of the types that are more than objects. -/
inductive Denotes : Text → Category → Prop
  | plain (kind : Primitive) : Denotes kind.keyword (.plain kind)
  | string : Denotes "String".toList .string
  | qualifiedString : Denotes "java.lang.String".toList .string
  | array (element : Primitive) : Denotes (element.keyword ++ "[]".toList) (.array element)
  | buffer (kind : BufferKind) : Denotes kind.simpleName (.buffer kind)
  | qualifiedBuffer (kind : BufferKind) :
    Denotes ("java.nio.".toList ++ kind.simpleName) (.buffer kind)

theorem Denotes.categoryOf_eq {spelling : Text} {c : Category} (h : Denotes spelling c) :
    categoryOf spelling = c := by
  cases h with
  | plain kind => cases kind <;> rfl
  | string => rfl
  | qualifiedString => rfl
  | array element => cases element <;> rfl
  | buffer kind => cases kind <;> rfl
  | qualifiedBuffer kind => cases kind <;> rfl

theorem keyword_of_ofKeyword? {t : Text} {kind : Primitive}
    (h : Primitive.ofKeyword? t = some kind) : kind.keyword = t := by
  have hfound := List.find?_some h
  exact eq_of_beq hfound

theorem simpleName_of_ofSimpleName? {t : Text} {kind : BufferKind}
    (h : BufferKind.ofSimpleName? t = some kind) : kind.simpleName = t := by
  have hfound := List.find?_some h
  exact eq_of_beq hfound

theorem eq_append_of_elementSpelling? {spelling element : Text}
    (h : elementSpelling? spelling = some element) : spelling = element ++ "[]".toList := by
  unfold elementSpelling? at h
  split at h
  · next hends =>
    obtain ⟨start, rfl⟩ := List.isSuffixOf_iff_suffix.mp hends
    cases h
    simp
  · cases h

theorem eq_or_eq_append_of_simpleName? {package qualified name : Text}
    (h : simpleName? package qualified = some name) :
    qualified = name ∨ qualified = package ++ ['.'] ++ name := by
  unfold simpleName? at h
  split at h
  · next hdrop =>
    cases h
    exact .inr (eq_append_of_dropStart? hdrop)
  · split at h
    · cases h
    · cases h
      exact .inl rfl

/-- A type is an object unless its spelling is in the table. -/
theorem categoryOf_eq_object_or_denotes (spelling : Text) :
    categoryOf spelling = .object ∨ Denotes spelling (categoryOf spelling) := by
  unfold categoryOf
  split
  · next kind hkind => exact .inr (keyword_of_ofKeyword? hkind ▸ .plain kind)
  · split
    · next hstring =>
      rcases Bool.or_eq_true_iff.mp hstring with h | h
      · exact .inr (eq_of_beq h ▸ .string)
      · exact .inr (eq_of_beq h ▸ .qualifiedString)
    · split
      · next element helement =>
        cases hkind : Primitive.ofKeyword? element with
        | none => exact .inl rfl
        | some kind =>
          rw [eq_append_of_elementSpelling? helement, ← keyword_of_ofKeyword? hkind]
          exact .inr (.array kind)
      · cases hkind : (simpleName? "java.nio".toList spelling).bind BufferKind.ofSimpleName? with
        | none => exact .inl rfl
        | some kind =>
          obtain ⟨name, hname, hfound⟩ := Option.bind_eq_some_iff.mp hkind
          obtain rfl := simpleName_of_ofSimpleName? hfound
          rcases eq_or_eq_append_of_simpleName? hname with rfl | rfl
          · exact .inr (.buffer kind)
          · exact .inr (.qualifiedBuffer kind)

/-- The category is the one that the spelling denotes, and that of an object otherwise. -/
theorem categoryOf_eq_iff (spelling : Text) (c : Category) :
    categoryOf spelling = c ↔ Denotes spelling c ∨ c = .object ∧ ∀ d, ¬ Denotes spelling d := by
  constructor
  · rintro rfl
    rcases categoryOf_eq_object_or_denotes spelling with hobject | hdenotes
    · by_cases hsome : ∃ d, Denotes spelling d
      · obtain ⟨d, hd⟩ := hsome
        exact .inl (hd.categoryOf_eq ▸ hd)
      · exact .inr ⟨hobject, fun d hd => hsome ⟨d, hd⟩⟩
    · exact .inl hdenotes
  · rintro (hdenotes | ⟨rfl, hnone⟩)
    · exact hdenotes.categoryOf_eq
    · exact (categoryOf_eq_object_or_denotes spelling).resolve_right (hnone _)

theorem isSome_pointer?_iff (t : JavaType) : t.category.pointer?.isSome = t.isAcquired := by
  obtain ⟨spelling, category⟩ := t
  cases category <;> rfl

theorem isAcquired_of_isReleased (t : JavaType) (h : t.isReleased = true) :
    t.isAcquired = true := by
  obtain ⟨spelling, category⟩ := t
  cases category
  all_goals first | rfl | cases h

/-- A type is told by its normal spelling: reading it again changes nothing, array brackets and
dots may be spaced in any way, and the spelling alone decides the category and with it whether
there is a pointer. -/
theorem read_canonical (declared : Text) :
    normalize (normalize declared) = normalize declared ∧
    read declared = read (normalize declared) ∧
    (read declared).spelling = normalize declared ∧
    (∀ element before between after : Text, (∀ c ∈ before, isBlank c = true) →
      (∀ c ∈ between, isBlank c = true) → (∀ c ∈ after, isBlank c = true) →
      read (element ++ before ++ '[' :: between ++ ']' :: after) =
        read (element ++ "[]".toList)) ∧
    (∀ element before : Text, (∀ c ∈ before, isBlank c = true) →
      read (element ++ before ++ "...".toList) = read (element ++ "[]".toList)) ∧
    (∀ c, (read declared).category = c ↔ Denotes (normalize declared) c ∨
      c = .object ∧ ∀ d, ¬ Denotes (normalize declared) d) ∧
    (read declared).category.pointer?.isSome = (read declared).isAcquired ∧
    ((read declared).isReleased = true → (read declared).isAcquired = true) := by
  have hread {t u : Text} (h : normalize t = normalize u) : read t = read u := by
    rw [read, h, read]
  refine ⟨normalize_normalize declared, hread (normalize_normalize declared).symm, rfl, ?_, ?_,
    categoryOf_eq_iff _, isSome_pointer?_iff _, isAcquired_of_isReleased _⟩
  · intro element before between after hbefore hbetween hafter
    apply hread
    rw [normalize_pair element before between after hbefore hbetween hafter, normalize_brackets]
  · intro element before hbefore
    apply hread
    rw [normalize_dots element before hbefore, normalize_brackets]

/-- Spaced brackets and dots behind two names, and what is released. -/
theorem read_spaced_arrays :
    read "java.nio.IntBuffer\t[ ] ".toList = read "java.nio.IntBuffer[]".toList ∧
    read "java.nio.IntBuffer ...".toList = read "java.nio.IntBuffer[]".toList ∧
    (read " long [ ]".toList).category = .array .long ∧
    (read " long [ ]".toList).isReleased = true ∧ (read " long [ ]".toList).isAcquired = true := by
  obtain ⟨-, -, -, hpair, hdots, hcategory, -, hreleased⟩ := read_canonical " long [ ]".toList
  refine ⟨?_, ?_, (hcategory _).mpr (.inl (.array .long)), by decide, hreleased (by decide)⟩
  · exact hpair "java.nio.IntBuffer".toList "\t".toList " ".toList " ".toList
      (List.all_eq_true.mp rfl) (List.all_eq_true.mp rfl) (List.all_eq_true.mp rfl)
  · exact hdots "java.nio.IntBuffer".toList " ".toList (List.all_eq_true.mp rfl)

end JavaType

end NativeGlue
