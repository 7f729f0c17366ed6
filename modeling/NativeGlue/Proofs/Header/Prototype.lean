import NativeGlue.Proofs.Header.Spelling
import NativeGlue.Proofs.Header.TypeName
import NativeGlue.Proofs.Text.Occurrence

/-!
Reading a prototype. Any prototype is read behind the two macros and is followed by the rest of its
text. A printed prototype is one among its spellings, so it is read whatever follows it: its result
keeps a star for each star, and each parameter is spelled as its type, with the star where there is
one and without its name.
-/

namespace NativeGlue.Header

open Text

theorem normalizeType_eq (t : Text) : normalizeType t = spaceAfterStars (tight t) := by
  rw [normalizeType, tightenFrom_squeeze]

theorem normalizeType_squeeze (t : Text) : normalizeType (squeeze t) = normalizeType t := by
  rw [normalizeType_eq, normalizeType_eq, tight, words_squeeze, tight]

theorem parameterType_squeeze (t : Text) : parameterType (squeeze t) = parameterType t := by
  unfold parameterType
  rw [normalizeType_squeeze]

theorem exists_afterCall?_of_afterExportFrom? {type gap t : Text} {p : Prototype}
    (h : afterExportFrom? type gap t = some p) :
    ∃ front after result, t = front ++ after ∧ afterCall? result after = some p := by
  induction t generalizing type gap with
  | nil => cases h
  | cons c rest ih =>
    rw [afterExportFrom?] at h
    split at h
    · next found hfound =>
      cases h
      split_ifs at hfound
      obtain ⟨after, hafter, hcall⟩ := Option.bind_eq_some_iff.mp hfound
      exact ⟨callMacro, after, type, eq_append_of_dropStart? hafter, hcall⟩
    · have hlater : ∃ front after result, rest = front ++ after ∧
          afterCall? result after = some p := by
        split_ifs at h
        · exact ih h
        · exact ih h
      obtain ⟨front, after, result, rfl, hcall⟩ := hlater
      exact ⟨c :: front, after, result, rfl, hcall⟩

/-- Every prototype is read behind the two macros. -/
theorem exists_afterCall?_of_prototype? {t : Text} {p : Prototype} (h : prototype? t = some p) :
    ∃ front after result, t = exportMacro ++ front ++ after ∧
      afterCall? result after = some p := by
  obtain ⟨tail, htail, hread⟩ := Option.bind_eq_some_iff.mp h
  suffices hcall : ∃ front after result, tail.dropWhile isBlank = front ++ after ∧
      afterCall? result after = some p by
    obtain ⟨front, after, result, hfront, hcall⟩ := hcall
    refine ⟨tail.takeWhile isBlank ++ front, after, result, ?_, hcall⟩
    rw [eq_append_of_dropStart? htail, List.append_assoc, List.append_assoc, ← hfront,
      List.takeWhile_append_dropWhile]
  unfold afterExport? at hread
  dsimp only at hread
  split at hread
  · cases hread
  · split at hread
    · next found hfound =>
      cases hread
      exact exists_afterCall?_of_afterExportFrom? hfound
    · split_ifs at hread
      obtain ⟨after, hafter, hcall⟩ := Option.bind_eq_some_iff.mp hread
      exact ⟨callMacro, after, [], eq_append_of_dropStart? hafter, hcall⟩

theorem suffix_of_untilSemicolon? {t list rest : Text}
    (h : untilSemicolon? t = some (list, rest)) : rest <:+ t := by
  induction t generalizing list with
  | nil => cases h
  | cons c t ih =>
    rw [untilSemicolon?] at h
    split_ifs at h
    · cases h
      exact List.suffix_cons c rest
    · obtain ⟨found, hfound, heq⟩ := Option.map_eq_some_iff.mp h
      cases heq
      exact (ih hfound).trans (List.suffix_cons c t)

theorem suffix_of_afterCall? {result t : Text} {p : Prototype} (h : afterCall? result t = some p) :
    p.rest <:+ t := by
  unfold afterCall? at h
  dsimp only at h
  split at h
  · next inside hinside =>
    obtain ⟨⟨list, rest⟩, hlist, h⟩ := Option.bind_eq_some_iff.mp h
    obtain ⟨parameters, -, rfl⟩ := Option.map_eq_some_iff.mp h
    split_ifs at hinside
    have hopen : '(' :: inside <:+ t := by
      rw [← hinside]
      exact (List.dropWhile_suffix _).trans ((List.dropWhile_suffix _).trans
        (List.dropWhile_suffix _))
    exact (suffix_of_untilSemicolon? hlist).trans ((List.suffix_cons '(' inside).trans hopen)
  · cases h

theorem exists_body_of_prototype? {t : Text} {p : Prototype} (h : prototype? t = some p) :
    ∃ body, t = exportMacro ++ body ++ p.rest := by
  obtain ⟨front, after, result, rfl, hcall⟩ := exists_afterCall?_of_prototype? h
  obtain ⟨middle, rfl⟩ := suffix_of_afterCall? hcall
  exact ⟨front ++ middle, by simp⟩

theorem length_of_prototype? {t : Text} {p : Prototype} (h : prototype? t = some p) :
    p.rest.length < t.length := by
  obtain ⟨body, rfl⟩ := exists_body_of_prototype? h
  have hmacro : exportMacro.length = 9 := rfl
  rw [List.length_append, List.length_append]
  omega

end NativeGlue.Header

namespace NativeGlue.HeaderOutline

open Text Header Outline

namespace IsWord

variable {t u : Text}

theorem star_notMem (h : IsWord t) : '*' ∉ t := h.notMem '*' (by decide)

theorem tight_eq (h : IsWord t) : tight t = t := tight_word t h.nonempty h.isBlank_of_mem

theorem words_eq (h : IsWord t) : words t = [t] := words_word t h.nonempty h.isBlank_of_mem

/-- A starred word is one word. -/
theorem words_starred (h : IsWord t) : words (t ++ ['*']) = [t ++ ['*']] := by
  apply words_word _ (by simp)
  simp only [List.mem_append, List.mem_singleton]
  rintro c (hc | rfl)
  · exact h.isBlank_of_mem c hc
  · rfl

/-- Two words keep one space of the gap between them. -/
theorem tight_gap (ht : IsWord t) (hu : IsWord u) (gap : Gap) :
    tight (t ++ (gap.text ++ u)) = t ++ ' ' :: u := by
  have hlast : t.getLast? ≠ some '*' := fun h => ht.star_notMem (List.mem_of_getLast? h)
  have hhead : u.head? ≠ some '*' := fun h => hu.star_notMem (List.mem_of_head? h)
  rw [tight, words_gap t gap.text u gap.nonempty gap.blank, ht.words_eq, hu.words_eq]
  simp [attach, hlast, hhead, hu.nonempty]

theorem spaceAfterStars_append (h : IsWord t) (rest : Text) :
    spaceAfterStars (t ++ rest) = t ++ spaceAfterStars rest :=
  Header.spaceAfterStars_append t rest h.star_notMem

theorem spaceAfterStars_eq (h : IsWord t) : spaceAfterStars t = t := by
  have hnil := h.spaceAfterStars_append []
  rwa [List.append_nil, spaceAfterStars, List.append_nil] at hnil

end IsWord

section Types

variable (t : InterfaceType)

theorem InterfaceType.isInterfaceType_text : isInterfaceType t.text = true := by
  rw [isInterfaceType, t.isInterfaceName_text, Bool.true_or]

theorem InterfaceType.isInterfaceType_starred : isInterfaceType (t.text ++ ['*']) = true := by
  have hends : endsWith ['*'] (t.text ++ ['*']) = true := by
    rw [endsWith, List.isSuffixOf_iff_suffix]
    exact List.suffix_append _ _
  rw [isInterfaceType, hends, List.dropLast_concat, t.isInterfaceName_text, Bool.true_and,
    Bool.or_true]

end Types

/-- What follows the type of a parameter in its normal spelling. -/
def Declarator.normal : Declarator → Text
  | nothing => []
  | named _ name => ' ' :: name.text
  | starred _ _ none => ['*']
  | starred _ _ (some name) => '*' :: ' ' :: name.text

namespace Parameter

theorem normalizeType_text (p : Parameter) :
    normalizeType p.text = p.type.text ++ p.declarator.normal := by
  obtain ⟨type, declarator⟩ := p
  have htype := type.isWord
  rw [normalizeType_eq]
  change spaceAfterStars (tight (type.text ++ declarator.text)) = _
  cases declarator with
  | nothing =>
    rw [Declarator.text, List.append_nil, htype.tight_eq, htype.spaceAfterStars_eq]
    exact (List.append_nil _).symm
  | named gap name =>
    rw [Declarator.text, htype.tight_gap name.isWord gap, htype.spaceAfterStars_append]
    exact congrArg (type.text ++ ' ' :: ·) name.isWord.spaceAfterStars_eq
  | starred before after name =>
    rw [Declarator.text, ← List.append_assoc, tight_star, tight_append_blanks _ _ before.blank,
      htype.tight_eq, tight_blanks_append _ _ after.blank, htype.spaceAfterStars_append]
    cases name with
    | none => rfl
    | some name =>
      obtain ⟨c, rest, htext, hstart, -⟩ := name.exists_cons
      have hspelled := name.isWord.spaceAfterStars_eq
      rw [Option.map_some, Option.getD_some, name.isWord.tight_eq]
      simp only [Declarator.normal, htext] at hspelled ⊢
      rw [spaceAfterStars, if_pos hstart, hspelled]

/-- The type of a parameter, whose name is dropped. -/
theorem parameterType_text (p : Parameter) : parameterType p.text = p.spelling := by
  have hnormal := p.normalizeType_text
  obtain ⟨type, declarator⟩ := p
  unfold parameterType
  rw [hnormal]
  have hcut (front : Text) (name : Identifier) (hfront : words front = [front]) :
      words (front ++ ' ' :: name.text) = [front, name.text] := by
    rw [words_append_blank front name.text ' ' rfl, hfront, name.isWord.words_eq]
    rfl
  have htype := type.isWord
  cases declarator with
  | nothing =>
    simp only [Declarator.normal, List.append_nil, htype.words_eq]
    exact (List.append_nil _).symm
  | named gap name =>
    simp only [Declarator.normal, hcut type.text name htype.words_eq, name.isName,
      type.isInterfaceType_text]
    exact (List.append_nil _).symm
  | starred before after name =>
    cases name with
    | none =>
      simp only [Declarator.normal, htype.words_starred]
      rfl
    | some name =>
      have hsplit : type.text ++ '*' :: ' ' :: name.text =
          (type.text ++ ['*']) ++ ' ' :: name.text := by simp
      simp only [Declarator.normal, hsplit, hcut _ name htype.words_starred, name.isName,
        type.isInterfaceType_starred]
      rfl

end Parameter

/-- A parameter begins with a letter, so it has words. -/
theorem Parameter.squeeze_text_ne_nil (p : Parameter) : squeeze p.text ≠ [] := by
  obtain ⟨c, rest, htext, hblank, -⟩ := p.text_eq_cons
  rw [htext]
  exact squeeze_ne_nil rest c hblank

/-- The parameters of a printed list, each with its blanks squeezed. -/
theorem splitParameters_join (ps : List Parameter) :
    splitParameters (join ", ".toList (ps.map Parameter.text)) =
      ps.map fun p => squeeze p.text := by
  cases ps with
  | nil => rfl
  | cons first ps =>
    obtain ⟨c, rest, hfirst, hblank, hletter⟩ := first.text_eq_cons
    obtain ⟨more, hmore⟩ := prefix_join ", ".toList first.text (ps.map Parameter.text)
    have hlist : join ", ".toList ((first :: ps).map Parameter.text) = c :: (rest ++ more) := by
      rw [List.map_cons, ← hmore, hfirst, List.cons_append]
    have hplain : ∀ t ∈ (first :: ps).map Parameter.text, ∀ d ∈ t, d ≠ ',' ∧
        parameterBrackets.opens d = false ∧ parameterBrackets.closes d = false := by
      intro t ht d hd
      obtain ⟨p, -, rfl⟩ := List.mem_map.mp ht
      exact (separates_eq_false d (p.isTypePart_of_mem d hd)).1
    have hblanks : ∀ d, isBlank d = true → d ≠ ',' ∧
        parameterBrackets.opens d = false ∧ parameterBrackets.closes d = false :=
      fun d hd => (separates_eq_false d (isTypePart_of_isBlank hd)).1
    have hpieces : piecesFrom parameterBrackets 0 [] (c :: (rest ++ more)) =
        first.text :: (ps.map Parameter.text).map (' ' :: ·) := by
      rw [← hlist]
      exact piecesFrom_join parameterBrackets [] first.text _ ⟨rfl, rfl⟩ hplain
    have hsqueezed : (pieces parameterBrackets (c :: (rest ++ more))).map squeeze =
        (first :: ps).map fun p => squeeze p.text := by
      rw [map_squeeze_pieces parameterBrackets c _ hblank hblanks, hpieces]
      simp [squeeze_cons_blank _ ' ' rfl]
    -- a list of interface types is not the word `void`
    have hvoid : (trim (c :: (rest ++ more)) == "void".toList) = false := by
      obtain ⟨tail, -, htrim, -⟩ := exists_trim_cons c (rest ++ more) hblank
      rw [htrim, beq_eq_false_iff_ne]
      exact fun h => hletter (List.cons.inj h).1
    rw [hlist, splitParameters, hvoid, if_neg Bool.false_ne_true, hsqueezed, List.filter_eq_self]
    intro t ht
    obtain ⟨p, -, rfl⟩ := List.mem_map.mp ht
    simpa using p.squeeze_text_ne_nil

theorem parameterTypes_list (d : Declaration) :
    (splitParameters d.list).map parameterType = d.parameters.map Parameter.spelling := by
  rw [Declaration.list, splitParameters_join, List.map_map]
  apply List.map_congr_left
  intro p _
  exact (parameterType_squeeze p.text).trans p.parameterType_text

theorem starsText_cons (gap : Blanks) (stars : List Blanks) :
    starsText (gap :: stars) = gap.text ++ '*' :: starsText stars := by
  rw [starsText, List.flatMap_cons, List.append_assoc, List.singleton_append, starsText]

/-- Each star is drawn to what stands before it. -/
theorem tight_append_starsText (t : Text) (stars : List Blanks) :
    tight (t ++ starsText stars) = tight t ++ List.replicate stars.length '*' := by
  induction stars generalizing t with
  | nil =>
    have hnone : starsText [] = [] := rfl
    rw [hnone, List.append_nil, List.length_nil, List.replicate_zero, List.append_nil]
  | cons gap stars ih =>
    have hrest := ih []
    rw [List.nil_append] at hrest
    rw [starsText_cons, ← List.append_assoc, tight_star, tight_append_blanks t _ gap.blank, hrest]
    rfl

theorem spaceAfterStars_replicate (n : Nat) :
    spaceAfterStars (List.replicate n '*') = List.replicate n '*' := by
  induction n with
  | zero => rfl
  | succ n ih =>
    cases n with
    | zero => rfl
    | succ n =>
      rw [List.replicate_succ, List.replicate_succ, spaceAfterStars, if_neg (by decide),
        ← List.replicate_succ, ih]

theorem Declaration.isTypePart_of_mem_list (d : Declaration) :
    ∀ c ∈ d.list, isTypePart c = true ∨ c = ',' := by
  have hseparator : ∀ c ∈ ", ".toList, isTypePart c = true ∨ c = ',' := by
    intro c hc
    have hcases : c = ',' ∨ c = ' ' := by simpa using hc
    rcases hcases with rfl | rfl
    · exact .inr rfl
    · exact .inl rfl
  refine forall_mem_join _ _ _ hseparator ?_
  intro t ht c hc
  obtain ⟨p, -, rfl⟩ := List.mem_map.mp ht
  exact .inl (p.isTypePart_of_mem c hc)

/-- The characters of a printed parameter list end neither the list nor the prototype. -/
theorem Declaration.list_chars (d : Declaration) :
    ∀ c ∈ d.list, c ≠ ';' ∧ isBrace c = false := by
  intro c hc
  rcases d.isTypePart_of_mem_list c hc with hpart | rfl
  · exact (separates_eq_false c hpart).2.1
  · exact ⟨by decide, rfl⟩

theorem Declaration.isTypePart_of_mem_result (d : Declaration) :
    ∀ c ∈ ' ' :: (d.result.text ++ starsText d.stars ++ [' ']), isTypePart c = true := by
  simp only [List.forall_mem_cons, List.forall_mem_append]
  exact ⟨rfl, ⟨fun c hc => isTypePart_of_isAsciiWord (d.result.isWord.chars c hc),
    isTypePart_of_mem_starsText d.stars⟩, rfl, nofun⟩

/-- A printed prototype as one among its spellings. -/
def Declaration.spelled (d : Declaration) : SpelledPrototype where
  result := ' ' :: (d.result.text ++ starsText d.stars ++ [' '])
  opened := rfl
  closed := by rw [← List.cons_append, List.getLast?_concat]; rfl
  hasWord hnil := by
    obtain ⟨c, rest, hname, -, hword⟩ := d.result.exists_cons
    have hblank := isBlank_of_trim_eq_nil hnil c (by simp [hname])
    rw [isBlank_of_isAsciiWord c (hword c List.mem_cons_self)] at hblank
    cases hblank
  isType c hc := (separates_eq_false c (d.isTypePart_of_mem_result c hc)).2.2
  nameGap := oneSpace
  name := d.name
  listGap := ⟨"\n  ".toList, List.all_eq_true.mp rfl⟩
  list := d.list
  isList := d.list_chars
  endGap := noBlanks

theorem Declaration.text_spelled (d : Declaration) : d.spelled.text = d.text := by
  simp [SpelledPrototype.text, SpelledPrototype.heading, SpelledPrototype.closing, spelled, text,
    oneSpace, oneBlank, noBlanks]

theorem normalizeType_result (d : Declaration) : normalizeType d.spelled.result = d.resultType := by
  have hspace : ∀ c ∈ [' '], isBlank c = true := List.forall_mem_singleton.mpr rfl
  have hresult : d.spelled.result = [' '] ++ (d.result.text ++ starsText d.stars ++ [' ']) := rfl
  rw [normalizeType_eq, hresult, tight_blanks_append _ _ hspace, tight_append_blanks _ _ hspace,
    tight_append_starsText, d.result.isWord.tight_eq, d.result.isWord.spaceAfterStars_append,
    spaceAfterStars_replicate]
  rfl

/-- The signature of a printed prototype. -/
theorem Declaration.signature_spelled (d : Declaration) (line : Int) :
    d.spelled.signature line = d.signature line := by
  rw [SpelledPrototype.signature, Prototype.signature, normalizeType_result]
  change Signature.mk _ _ ((splitParameters d.list).map parameterType) _ _ = _
  rw [parameterTypes_list]
  rfl

end NativeGlue.HeaderOutline
