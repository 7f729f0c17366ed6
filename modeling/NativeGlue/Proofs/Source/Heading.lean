import NativeGlue.Proofs.Source.Spelling
import NativeGlue.Proofs.Traversal

/-!
The heads of methods and classes, read back. The head of a native method gives the method with
its parameters, and that of a class gives its name. Either may stand behind blanks, as a
statement does.
-/

namespace NativeGlue.Outline

open Text

namespace Argument

variable (a : Argument)

theorem chars (c : Char) (hc : c ∈ a.text) : c = ' ' ∨ isSpelling c = true := by
  rcases List.mem_append.mp hc with htype | hname
  · exact .inr (a.type.spelled.2 c htype)
  · rcases List.mem_cons.mp hname with rfl | hname
    · exact .inl rfl
    · exact .inr (a.name.spelled.2 c hname)

theorem notMem (c : Char) (hspace : c ≠ ' ') (hc : isSpelling c = false) : c ∉ a.text := by
  intro hmem
  rcases a.chars c hmem with hblank | hspelling
  · exact hspace hblank
  · rw [hc] at hspelling
    cases hspelling

theorem hasWord_eq_false (word : Text) (hword : word ∈ soughtModifiers) :
    hasWord word a.text = false := by
  have hreserved := mem_reservedWords_of_sought word hword
  obtain ⟨hne, hparts⟩ := reservedWord_isNamePart word hreserved
  rw [text, hasWord_append_cons word _ _ ' ' hne hparts (by decide),
    a.type.hasWord_eq_false word hword, a.name.hasWord_eq_false word hreserved]
  rfl

theorem readDeclarator_text : Source.readDeclarator a.text = .ok a.parameter := by
  have hspace : ' ' ∉ a.type.text := a.type.spelled.notMem _ ' ' (by decide)
  have hname : ∀ c ∈ a.name.text, Source.isDeclaratorPart c = true := by
    intro c hc
    have hblank := isBlank_of_isNamePart c (a.name.isNamePart_of_mem c hc)
    have hopen : c ≠ '[' := by
      rintro rfl
      exact a.name.notMem '[' (by decide) hc
    have hclose : c ≠ ']' := by
      rintro rfl
      exact a.name.notMem ']' (by decide) hc
    simp [Source.isDeclaratorPart, hblank, hopen, hclose]
  have hdots := a.type.not_dots_infix (' ' :: a.name.text)
    (by simp [a.name.notMem '.' (by decide)])
  rw [text, Source.readDeclarator_append _ _ hspace a.type.getLast?_endsType a.name.text_ne_nil
    hname hdots]
  have hread : JavaType.read a.type.text = a.parameter.type := by
    have hnodots := a.type.not_dots_infix [] (by simp)
    rw [List.append_nil] at hnodots
    obtain ⟨hne, hblank⟩ := a.type.spelled.not_blank
    rw [JavaType.read, JavaType.normalize_eq_self _ hne hblank hnodots]
    rfl
  rw [hread]
  rfl

/-- An argument is read back, also behind spaces. -/
theorem readParameter_text (spaces : Text) (hspaces : ∀ c ∈ spaces, c = ' ') :
    Source.readParameter (spaces ++ a.text) = .ok a.parameter := by
  have hblanks : ∀ c ∈ spaces, isBlank c = true := by
    intro c hc
    rw [hspaces c hc]
    rfl
  have hat : '@' ∉ spaces ++ a.text := by
    intro hmem
    rcases List.mem_append.mp hmem with hmem | hmem
    · exact absurd (hspaces '@' hmem) (by decide)
    · exact a.notMem '@' (by decide) (by decide) hmem
  have hfinal : hasWord "final".toList (spaces ++ a.text) = false := by
    have hgap : ∀ c ∈ spaces, isNamePart c = false :=
      fun c hc => isNamePart_of_isBlank c (hblanks c hc)
    have hreserved := reservedWord_isNamePart "final".toList (by decide)
    rw [hasWord_gap_append _ spaces _ hreserved.1 hreserved.2 hgap]
    exact a.hasWord_eq_false _ List.mem_cons_self
  rw [text, Source.readParameter_append spaces a.type.text a.name.text hblanks
    a.type.spelled.not_blank a.name.spelled.not_blank hat hfinal]
  exact a.readDeclarator_text

end Argument

/-- The text between the parentheses of a method. -/
def argumentsText (args : List Argument) : Text := join ", ".toList (args.map Argument.text)

theorem argumentsText_chars (args : List Argument) :
    ∀ c ∈ argumentsText args, c = ',' ∨ c = ' ' ∨ isSpelling c = true := by
  refine forall_mem_join _ _ _ (by simp) ?_
  intro t ht c hc
  obtain ⟨a, -, rfl⟩ := List.mem_map.mp ht
  exact .inr (a.chars c hc)

theorem argumentsText_flat (args : List Argument) : Source.Flat (argumentsText args) :=
  .of_forall _ _ (argumentsText_chars args) (by decide) (by decide)

theorem trim_argumentsText (args : List Argument) :
    trim (argumentsText args) = argumentsText args := by
  rcases List.eq_nil_or_concat args with rfl | ⟨init, last, rfl⟩
  · rfl
  · rw [List.concat_eq_append]
    obtain ⟨first, rest, hargs⟩ : ∃ first rest, init ++ [last] = first :: rest :=
      List.exists_cons_of_ne_nil (by simp)
    have hfront : first.type.text <+: argumentsText (init ++ [last]) := by
      rw [hargs, argumentsText, List.map_cons]
      exact (List.prefix_append _ _).trans (prefix_join _ _ _)
    have hsuffix : last.name.text <:+ argumentsText (init ++ [last]) := by
      have hlast : last.name.text <:+ last.text :=
        ⟨last.type.text ++ [' '], by simp [Argument.text]⟩
      rw [argumentsText, List.map_append]
      exact hlast.trans (suffix_join _ _ _)
    exact trim_eq_self _ _ _ first.type.spelled.not_blank hfront last.name.spelled.not_blank
      hsuffix

theorem splitParameters_argumentsText (first : Argument) (rest : List Argument) :
    Source.splitParameters (argumentsText (first :: rest)) =
      first.text :: rest.map fun a => ' ' :: a.text := by
  have hplain : ∀ t ∈ first.text :: rest.map Argument.text, ∀ c ∈ t,
      c ≠ ',' ∧ Source.parameterBrackets.opens c = false ∧
        Source.parameterBrackets.closes c = false := by
    intro t ht c hc
    rw [← List.map_cons] at ht
    obtain ⟨a, -, rfl⟩ := List.mem_map.mp ht
    have hother : ∀ d, d ≠ ' ' → isSpelling d = false → c ≠ d := by
      rintro d hspace hd rfl
      exact a.notMem c hspace hd hc
    simp [Source.parameterBrackets, hother ',' (by decide) (by decide),
      hother '<' (by decide) (by decide), hother '(' (by decide) (by decide),
      hother '>' (by decide) (by decide), hother ')' (by decide) (by decide)]
  have hne : argumentsText (first :: rest) ≠ [] := by
    obtain ⟨more, hmore⟩ := prefix_join ", ".toList first.text (rest.map Argument.text)
    rw [argumentsText, List.map_cons, ← hmore]
    simp [Argument.text]
  rw [Source.splitParameters, pieces, trim_argumentsText]
  simp only [List.isEmpty_iff, hne, if_false]
  rw [argumentsText, List.map_cons, piecesFrom_join _ [] first.text _ (by decide) hplain,
    List.map_map]
  rfl

theorem readParameters_argumentsText (args : List Argument) :
    (Source.splitParameters (argumentsText args)).mapM Source.readParameter =
      .ok (args.map Argument.parameter) := by
  cases args with
  | nil => rfl
  | cons first rest =>
    rw [splitParameters_argumentsText, mapM_eq_ok_iff, List.map_cons]
    refine .cons (first.readParameter_text [] (by simp)) ?_
    rw [List.forall₂_map_left_iff, List.forall₂_map_right_iff, List.forall₂_same]
    intro a _
    exact a.readParameter_text [' '] (by simp)

namespace ResultType

theorem spelled (r : ResultType) : Spelled r.text := by
  cases r with
  | none => exact .of_all _ (by decide) (by decide)
  | some type => exact type.spelled

theorem hasWord_eq_false (r : ResultType) (word : Text) (hword : word ∈ soughtModifiers) :
    hasWord word r.text = false := by
  cases r with
  | none =>
    have htable : ∀ w ∈ soughtModifiers, hasWord w "void".toList = false := by decide
    exact htable word hword
  | some type => exact type.hasWord_eq_false word hword

end ResultType

namespace Heading

variable (h : Heading)

theorem words_spelled (w : Text) (hw : w ∈ h.words) : Spelled w := by
  rcases List.mem_append.mp hw with hw | hw
  · obtain ⟨m, -, rfl⟩ := List.mem_map.mp hw
    exact m.spelled
  · simp only [List.mem_cons, List.not_mem_nil, or_false] at hw
    rcases hw with rfl | rfl
    · exact ResultType.spelled h.result
    · exact h.name.spelled

theorem joined_chars : ∀ c ∈ join [' '] h.words, c = ' ' ∨ isSpelling c = true :=
  forall_mem_join _ _ _ (by simp) fun w hw c hc => .inr ((h.words_spelled w hw).2 c hc)

theorem joined_flat : Source.Flat (join [' '] h.words) :=
  .of_forall _ _ h.joined_chars (by decide) (by decide)

/-- The characters of the head of a method. -/
theorem chars : ∀ c ∈ h.text, c ∈ [' ', ',', '(', ')'] ∨ isSpelling c = true := by
  intro c hc
  rcases List.mem_append.mp hc with hc | hc
  · rcases h.joined_chars c hc with rfl | hspelling
    · exact .inl (by decide)
    · exact .inr hspelling
  · rcases List.mem_cons.mp hc with rfl | hc
    · exact .inl (by decide)
    rcases List.mem_append.mp hc with hc | hc
    · rcases argumentsText_chars h.arguments c hc with rfl | rfl | hspelling
      · exact .inl (by decide)
      · exact .inl (by decide)
      · exact .inr hspelling
    · exact .inl (by simp [List.mem_singleton.mp hc])

theorem hasWord_text (word : Text) (hword : word ∈ reservedWords) :
    hasWord word h.text = (h.words.any (hasWord word) ||
      (h.arguments.map Argument.text).any (hasWord word)) := by
  obtain ⟨hne, hparts⟩ := reservedWord_isNamePart word hword
  have hclose : ∀ d ∈ [')'], isNamePart d = false := List.forall_mem_singleton.mpr rfl
  have hspace : ∀ d ∈ [' '], isNamePart d = false := List.forall_mem_singleton.mpr rfl
  have hcomma : ∀ d ∈ [',', ' '], isNamePart d = false := List.forall_mem_cons.mpr ⟨rfl, hspace⟩
  rw [text, hasWord_append_cons word _ _ '(' hne hparts rfl,
    hasWord_append_gap word _ [')'] hne hparts hclose, hasWord_join word ' ' [] _ hne hparts hspace]
  congr 1
  exact hasWord_join word ',' [' '] _ hne hparts hcomma

end Heading

namespace NativeHeading

variable (h : NativeHeading)

theorem isNativeStatement_text (blanks : Text) (hblanks : ∀ c ∈ blanks, isBlank c = true) :
    Source.isNativeStatement (blanks ++ h.text) = true := by
  have hreserved : Source.nativeWord ∈ reservedWords := by decide
  obtain ⟨hne, hparts⟩ := reservedWord_isNamePart _ hreserved
  have hword : hasWord Source.nativeWord (blanks ++ h.text) = true := by
    have hgap : ∀ c ∈ blanks, isNamePart c = false :=
      fun c hc => isNamePart_of_isBlank c (hblanks c hc)
    rw [hasWord_gap_append _ blanks _ hne hparts hgap, h.hasWord_text _ hreserved,
      Bool.or_eq_true_iff]
    left
    rw [List.any_eq_true]
    exact ⟨Source.nativeWord, List.mem_append_left _ h.native, by decide⟩
  have hopen : (blanks ++ h.text).contains '(' = true := by
    simp [Heading.text]
  rw [Source.isNativeStatement, hword, hopen]
  rfl

/-- The method that the head declares in a class. -/
def method (owner : Text) (line : Int) : Source.NativeMethod :=
  ⟨owner, h.name.text, h.isStatic, h.arguments.map Argument.parameter, line⟩

theorem methodName_words (statement : Text) :
    Source.methodName statement h.words =
      .ok (h.name.text, h.modifierTexts ++ [ResultType.text h.result]) := by
  have hsplit : h.words = (h.modifierTexts ++ [ResultType.text h.result]) ++ [h.name.text] := by
    simp [Heading.words]
  have hnative : h.name.text ≠ Source.nativeWord := by
    intro heq
    exact h.name.free (heq ▸ by decide)
  rw [hsplit, Source.methodName, List.getLast?_concat, List.dropLast_concat]
  simp [h.name.isName_text, hnative, h.native]

theorem contains_static :
    (h.modifierTexts ++ [ResultType.text h.result]).contains "static".toList =
      h.isStatic := by
  have hresult : ResultType.text h.result ≠ "static".toList := by
    intro heq
    have hword := ResultType.hasWord_eq_false h.result "static".toList (by decide)
    rw [heq] at hword
    revert hword
    decide
  rw [Heading.isStatic, Bool.eq_iff_iff, List.contains_iff_mem, List.contains_iff_mem,
    List.mem_append, List.mem_singleton]
  exact or_iff_left (Ne.symm hresult)

/-- The statement of a native method gives the method. -/
theorem readNativeMethod_text (owner : Text) (line : Int) (blanks : Text)
    (hblanks : ∀ c ∈ blanks, isBlank c = true) :
    Source.readNativeMethod (some owner) line (blanks ++ h.text) =
      .ok (h.method owner line) := by
  have hnotMem : ∀ c, isBlank c = false → c ∉ [' ', ',', '(', ')'] → isSpelling c = false →
      c ∉ blanks ++ h.text := by
    intro c hblank hother hspelling hmem
    rcases List.mem_append.mp hmem with hmem | hmem
    · rw [hblanks c hmem] at hblank
      cases hblank
    · rcases h.chars c hmem with hc | hc
      · exact hother hc
      · rw [hspelling] at hc
        cases hc
  have hbefore : Source.Flat (blanks ++ join [' '] h.words) := by
    refine .append _ _ ?_ h.joined_flat
    exact .of_forall (isBlank · = true) blanks hblanks (by decide) (by decide)
  have hcut : Source.cutParameters (blanks ++ h.text) =
      .ok ⟨h.words, argumentsText h.arguments, []⟩ := by
    have hwords : words (blanks ++ join [' '] h.words) = h.words := by
      rw [words_blanks_append blanks _ hblanks]
      exact words_join _ fun w hw => (h.words_spelled w hw).not_blank
    have hread := Source.cutParameters_append (blanks ++ join [' '] h.words)
      (argumentsText h.arguments) [] (fun hmem => (hbefore _ hmem).1 rfl)
      (argumentsText_flat h.arguments)
    rw [hwords, List.append_assoc] at hread
    exact hread
  unfold Source.readNativeMethod
  rw [Source.eraseAnnotations_eq_self _ (hnotMem '@' (by decide) (by decide) (by decide))]
  simp only [hcut, h.methodName_words, readParameters_argumentsText, h.contains_static,
    Source.checkTrailer, bind, Except.bind, pure, Except.pure]
  rfl

end NativeHeading

theorem dropStart?_classWord (word : Text) (hword : word ∈ Source.classWords) (kind : ClassKind)
    (rest : Text) :
    dropStart? word (kind.text ++ rest) = if word = kind.text then some rest else none := by
  simp only [Source.classWords, List.mem_cons, List.not_mem_nil, or_false] at hword
  rcases hword with rfl | rfl | rfl | rfl <;> cases kind <;> rfl

/-- After the keyword of a class comes its name. -/
theorem nameAfterKeyword?_headText (kind : ClassKind) (name : Name) (after : Text) :
    Source.nameAfterKeyword? (headText kind name ++ ' ' :: after) = some name.text := by
  obtain ⟨c, tail, htext⟩ := List.exists_cons_of_ne_nil name.text_ne_nil
  have hc : isNamePart c = true := name.isNamePart_of_mem c (htext ▸ List.mem_cons_self)
  have hstarts : isNameStart c = true := by
    have hname := name.starts
    rwa [htext] at hname
  have hskip : skipBlanks (' ' :: (name.text ++ ' ' :: after)) = c :: (tail ++ ' ' :: after) := by
    rw [skipBlanks, List.dropWhile_cons_of_pos (by decide), htext, List.cons_append]
    exact skipBlanks_cons c _ (isBlank_of_isNamePart c hc)
  have htail : (tail ++ ' ' :: after).takeWhile isNamePart = tail := by
    rw [List.takeWhile_append_of_pos fun d hd =>
      name.isNamePart_of_mem d (htext ▸ List.mem_cons_of_mem c hd),
      List.takeWhile_cons_of_neg (by decide), List.append_nil]
  have hsplit : headText kind name ++ ' ' :: after =
      kind.text ++ ' ' :: (name.text ++ ' ' :: after) := by
    simp [headText]
  have hdrop := fun word hword =>
    dropStart?_classWord word hword kind (' ' :: (name.text ++ ' ' :: after))
  have hkind : kind.text ∈ Source.classWords := by cases kind <;> decide
  have hblank : isBlank ' ' = true := by decide
  rw [hsplit]
  cases hfound : Source.nameAfterKeyword? (kind.text ++ ' ' :: (name.text ++ ' ' :: after)) with
  | none =>
    rw [Source.nameAfterKeyword?, List.findSome?_eq_none_iff] at hfound
    have hnone := hfound kind.text hkind
    simp [hdrop kind.text hkind, hskip, hblank, hstarts] at hnone
  | some found =>
    obtain ⟨word, hword, hread⟩ := List.exists_of_findSome?_eq_some hfound
    rw [hdrop word hword] at hread
    split at hread
    · simp only [Option.bind_some, List.head?_cons, Option.any_some, hblank, hskip, hstarts,
        if_true, htail] at hread
      rw [htext, ← hread]
    · cases hread

/-- The head of a class gives its name. -/
theorem className?_headText (kind : ClassKind) (name : Name) (blanks : Text)
    (hblanks : ∀ c ∈ blanks, isBlank c = true) :
    Source.className? (blanks ++ (headText kind name ++ [' '])) = some name.text := by
  rw [Source.className?_blanks_append blanks _ hblanks, Source.className?]
  have hkeyword := nameAfterKeyword?_headText kind name []
  obtain ⟨c, rest, htext⟩ : ∃ c rest, headText kind name ++ [' '] = c :: rest := by
    cases kind <;> exact ⟨_, _, rfl⟩
  rw [htext] at hkeyword ⊢
  have hstart : Source.mayStartKeyword none = true := rfl
  rw [Source.classNameFrom?, if_pos hstart, hkeyword]

end NativeGlue.Outline
