import NativeGlue.Header.Signature
import NativeGlue.Proofs.Header.Comment

/-!
Erasing the comments of a header against one scan from left to right, in which the opener that
comes first outside a comment decides. The two agree where each line comment ends what it begins:
block comments are found first, so that one which begins in a line comment and ends on a later
line takes everything up to there with it.
-/

namespace NativeGlue.Header

open Text

/-- A header consists of comments of either kind and of the characters between them. -/
inductive Piece where
  | block (body : Text)
  | line (body : Text)
  | other (c : Char)
  deriving DecidableEq, Repr

def Piece.spelling : Piece → Text
  | block body => '/' :: '*' :: (body ++ "*/".toList)
  | line body => '/' :: '/' :: body
  | other c => [c]

def Piece.substitute : Piece → Text
  | block body => blockSubstitute body
  | line _ => [' ']
  | other c => [c]

/-- One scan from left to right, unless a block comment does not end. -/
def pieces? : Text → Option (List Piece)
  | [] => some []
  | '/' :: '/' :: rest =>
    have : (rest.dropWhile (· != '\n')).length ≤ rest.length := (List.dropWhile_suffix _).length_le
    (pieces? (rest.dropWhile (· != '\n'))).map (.line (rest.takeWhile (· != '\n')) :: ·)
  | '/' :: '*' :: rest =>
    match h : commentBody? rest with
    | some (body, after) =>
      have : after.length < rest.length := length_of_commentBody? h
      (pieces? after).map (.block body :: ·)
    | none => none
  | c :: rest => (pieces? rest).map (.other c :: ·)
termination_by t => t.length

theorem spelling_of_pieces? (t : Text) (ps : List Piece) (h : pieces? t = some ps) :
    ps.flatMap Piece.spelling = t := by
  fun_induction pieces? t generalizing ps with
  | case1 =>
    cases h
    rfl
  | case2 rest _ ih =>
    obtain ⟨ps, hps, rfl⟩ := Option.map_eq_some_iff.mp h
    rw [List.flatMap_cons, ih ps hps, Piece.spelling, List.cons_append, List.cons_append,
      List.takeWhile_append_dropWhile]
  | case3 rest body after hfound _ ih =>
    obtain ⟨ps, hps, rfl⟩ := Option.map_eq_some_iff.mp h
    rw [List.flatMap_cons, ih ps hps, eq_append_of_commentBody? hfound]
    simp [Piece.spelling]
  | case4 => cases h
  | case5 c rest _ _ ih =>
    obtain ⟨ps, hps, rfl⟩ := Option.map_eq_some_iff.mp h
    rw [List.flatMap_cons, ih ps hps]
    rfl

/-- Every block comment that begins in the text ends in it, or does not end at all with `after`
behind the text. -/
inductive EndsBlocks (after : Text) : Text → Prop
  | nil : EndsBlocks after []
  | block {t : Text} (body : Text) (hbody : ¬ "*/".toList <:+: body) (ht : EndsBlocks after t) :
    EndsBlocks after ('/' :: '*' :: (body ++ '*' :: '/' :: t))
  | endless {t : Text} (ht : ¬ "*/".toList <:+: t ++ after) : EndsBlocks after t
  | other {t : Text} (c : Char) (hc : c = '/' → t.head? ≠ some '*') (ht : EndsBlocks after t) :
    EndsBlocks after (c :: t)

/-- A line comment with `after` behind its body does not meddle with other comments: a block
comment that begins in the body ends there or not at all, and one that begins with the second
slash does not end. -/
structure IsSelfContained (after body : Text) : Prop where
  second_slash : body.head? = some '*' → ¬ "*/".toList <:+: body ++ after
  endsBlocks : EndsBlocks after body

theorem EndsBlocks.of_openless (after t : Text) (h : ¬ "/*".toList <:+: t) :
    EndsBlocks after t := by
  induction t with
  | nil => exact .nil
  | cons c t ih =>
    refine .other c ?_ (ih fun hin => h (List.infix_cons hin))
    rintro rfl hstar
    obtain ⟨t, rfl⟩ := List.head?_eq_some_iff.mp hstar
    exact h ⟨[], t, rfl⟩

/-- No line comment meddles with the comments behind it. -/
def HasPlainLines : List Piece → Prop
  | [] => True
  | .line body :: ps => IsSelfContained (ps.flatMap Piece.spelling) body ∧ HasPlainLines ps
  | _ :: ps => HasPlainLines ps

theorem eraseBlocks_eq_self (t : Text) (h : ¬ "*/".toList <:+: t) : eraseBlocks t = t := by
  fun_induction eraseBlocks t with
  | case1 => rfl
  | case2 rest body after hfound =>
    refine absurd ⟨'/' :: '*' :: body, after, ?_⟩ h
    rw [eq_append_of_commentBody? hfound]
    simp
  | case3 rest hnone ih => rw [ih fun hin => h (List.infix_cons hin)]
  | case4 c rest hother ih => rw [ih fun hin => h (List.infix_cons hin)]

theorem EndsBlocks.eraseBlocks_append {t rest : Text} (h : EndsBlocks rest t)
    (hrest : rest.head? ≠ some '*') :
    eraseBlocks (t ++ rest) = eraseBlocks t ++ eraseBlocks rest := by
  induction h with
  | nil => rw [eraseBlocks, List.nil_append, List.nil_append]
  | @block t body hbody ht ih =>
    have hsplit : '/' :: '*' :: (body ++ '*' :: '/' :: t) ++ rest =
        '/' :: '*' :: (body ++ '*' :: '/' :: (t ++ rest)) := by simp
    rw [hsplit, eraseBlocks_block body _ hbody, eraseBlocks_block body _ hbody, ih,
      List.append_assoc]
  | @endless t ht =>
    rw [eraseBlocks_eq_self _ ht,
      eraseBlocks_eq_self t fun hin => ht (hin.trans (List.prefix_append t rest).isInfix),
      eraseBlocks_eq_self rest fun hin => ht (hin.trans (List.suffix_append t rest).isInfix)]
  | @other t c hc ht ih =>
    have hmore : c = '/' → (t ++ rest).head? ≠ some '*' := by
      intro hslash
      cases t with
      | nil => exact hrest
      | cons d t => exact hc hslash
    rw [List.cons_append, eraseBlocks_cons c _ hmore, eraseBlocks_cons c t hc, ih, List.cons_append]

theorem EndsBlocks.feed_notMem {t rest : Text} (h : EndsBlocks rest t) (hfeed : '\n' ∉ t) :
    '\n' ∉ eraseBlocks t := by
  induction h with
  | nil => rw [eraseBlocks]; exact hfeed
  | @block t body hbody ht ih =>
    have hinside : feeds body = 0 :=
      List.count_eq_zero.mpr fun hin => hfeed (by simp [hin])
    rw [eraseBlocks_block body t hbody, blockSubstitute, if_pos hinside, List.mem_append]
    rintro (hspace | hlater)
    · exact absurd hspace (by decide)
    · exact ih (fun hin => hfeed (by simp [hin])) hlater
  | @endless t ht =>
    rwa [eraseBlocks_eq_self t fun hin => ht (hin.trans (List.prefix_append t rest).isInfix)]
  | @other t c hc ht ih =>
    rw [List.mem_cons, not_or] at hfeed
    rw [eraseBlocks_cons c t hc, List.mem_cons, not_or]
    exact ⟨hfeed.1, ih hfeed.2⟩

theorem eraseLinesFrom_inside_cons (c : Char) (t : Text) (hc : c ≠ '\n') :
    eraseLinesFrom true (c :: t) = eraseLinesFrom true t := by
  -- two slashes are dropped at once, so the lemma is needed for the second slash as well
  induction t generalizing c with
  | nil => simp [eraseLinesFrom, hc]
  | cons d t ih =>
    by_cases hslash : c = '/' ∧ d = '/'
    · obtain ⟨rfl, rfl⟩ := hslash
      rw [eraseLinesFrom, ih '/' (by decide)]
      rfl
    · rw [eraseLinesFrom]
      · simp [hc]
      · rintro rest rfl hd
        cases hd
        exact hslash ⟨rfl, rfl⟩

/-- A line comment reaches up to the line feed. -/
theorem eraseLinesFrom_inside_append (t rest : Text) (ht : '\n' ∉ t)
    (hrest : rest.head? = none ∨ rest.head? = some '\n') :
    eraseLinesFrom true (t ++ rest) = eraseLinesFrom false rest := by
  induction t with
  | nil =>
    rcases hrest with hnone | hfeed
    · rw [List.head?_eq_none_iff.mp hnone]
      rfl
    · obtain ⟨rest, rfl⟩ := List.head?_eq_some_iff.mp hfeed
      rw [List.nil_append, eraseLinesFrom, eraseLinesFrom]
      · rfl
      · simp
      · simp
  | cons c t ih =>
    rw [List.mem_cons, not_or] at ht
    rw [List.cons_append, eraseLinesFrom_inside_cons c _ (Ne.symm ht.1), ih ht.2]

theorem head?_of_head?_eraseBlocks {t : Text} (h : (eraseBlocks t).head? = some '/') :
    t.head? = some '/' := by
  cases t with
  | nil => rw [eraseBlocks] at h; exact h
  | cons c t =>
    by_cases hc : c = '/'
    · rw [hc, List.head?_cons]
    · rwa [eraseBlocks_cons c t fun hslash => absurd hslash hc] at h

theorem eraseComments_other (c : Char) (t : Text)
    (h : c = '/' → t.head? ≠ some '*' ∧ t.head? ≠ some '/') :
    eraseComments (c :: t) = c :: eraseComments t := by
  rw [eraseComments, eraseBlocks_cons c t fun hc => (h hc).1]
  exact eraseLinesFrom_cons c _ fun hc hhead => (h hc).2 (head?_of_head?_eraseBlocks hhead)

theorem eraseComments_line (body t : Text) (hfeed : '\n' ∉ body) (hbody : IsSelfContained t body)
    (ht : t.head? = none ∨ t.head? = some '\n') :
    eraseComments ('/' :: '/' :: (body ++ t)) = ' ' :: eraseComments t := by
  have hstar : t.head? ≠ some '*' := by
    rcases ht with hnone | hsome
    · simp [hnone]
    · simp [hsome]
  -- the second slash begins no block comment, or one that does not end
  have hsecond : eraseBlocks ('/' :: (body ++ t)) = '/' :: eraseBlocks (body ++ t) := by
    by_cases hhead : body.head? = some '*'
    · have hnone := hbody.second_slash hhead
      rw [eraseBlocks_eq_self _ hnone, eraseBlocks_eq_self]
      intro hin
      rcases List.infix_cons_iff.mp hin with hstart | hlater
      · exact absurd (List.cons_prefix_cons.mp hstart).1 (by decide)
      · exact hnone hlater
    · refine eraseBlocks_cons '/' _ fun _ => ?_
      cases body with
      | nil => exact hstar
      | cons c body => exact hhead
  have hblocks : eraseBlocks ('/' :: '/' :: (body ++ t)) =
      '/' :: '/' :: (eraseBlocks body ++ eraseBlocks t) := by
    rw [eraseBlocks_cons '/' _ fun _ => by simp, hsecond,
      hbody.endsBlocks.eraseBlocks_append hstar]
  have hrest : (eraseBlocks t).head? = none ∨ (eraseBlocks t).head? = some '\n' := by
    cases t with
    | nil => rw [eraseBlocks]; exact ht
    | cons c t =>
      have hc : c = '\n' := by simpa using ht
      rw [hc, eraseBlocks_cons '\n' t fun h => absurd h (by decide)]
      exact .inr rfl
  rw [eraseComments, hblocks, eraseLineComments, eraseLinesFrom,
    eraseLinesFrom_inside_append _ _ (hbody.endsBlocks.feed_notMem hfeed) hrest]
  rfl

/-- Where no line comment meddles with others, each comment that the scan finds gives way to its
substitute, and every other character stays. -/
theorem eraseComments_eq_of_pieces? (t : Text) (ps : List Piece) (h : pieces? t = some ps)
    (hlines : HasPlainLines ps) :
    eraseComments t = ps.flatMap Piece.substitute := by
  fun_induction pieces? t generalizing ps with
  | case1 =>
    cases h
    rw [eraseComments, eraseBlocks]
    rfl
  | case2 rest _ ih =>
    obtain ⟨ps, hps, rfl⟩ := Option.map_eq_some_iff.mp h
    obtain ⟨hbody, hlines⟩ := hlines
    have hfeed : '\n' ∉ rest.takeWhile (· != '\n') := fun hin => by
      simpa using List.all_eq_true.mp List.all_takeWhile '\n' hin
    have hstop : (rest.dropWhile (· != '\n')).head? = none ∨
        (rest.dropWhile (· != '\n')).head? = some '\n' := by
      have hnot := List.head?_dropWhile_not (· != '\n') rest
      cases hhead : (rest.dropWhile (· != '\n')).head? with
      | none => exact .inl rfl
      | some c =>
        simp only [hhead, bne_eq_false_iff_eq] at hnot
        exact .inr (congrArg some hnot)
    rw [spelling_of_pieces? _ ps hps] at hbody
    have hline := eraseComments_line _ _ hfeed hbody hstop
    rw [List.takeWhile_append_dropWhile, ih ps hps hlines] at hline
    exact hline
  | case3 rest body after hfound _ ih =>
    obtain ⟨ps, hps, rfl⟩ := Option.map_eq_some_iff.mp h
    have hblock := eraseComments_block body after (not_infix_of_commentBody? hfound)
    rw [ih ps hps hlines] at hblock
    rw [eq_append_of_commentBody? hfound]
    exact hblock
  | case4 => cases h
  | case5 c rest hline hblock ih =>
    obtain ⟨ps, hps, rfl⟩ := Option.map_eq_some_iff.mp h
    rw [eraseComments_other c rest, ih ps hps hlines]
    · rfl
    · rintro rfl
      constructor
      · intro hstar
        obtain ⟨tail, rfl⟩ := List.head?_eq_some_iff.mp hstar
        exact hblock tail rfl rfl
      · intro hslash
        obtain ⟨tail, rfl⟩ := List.head?_eq_some_iff.mp hslash
        exact hline tail rfl rfl

def notedHeader : Text := "a;///* or */ long\n/* two\nlines */b;// jni/*.h\n".toList

def notedPieces : List Piece :=
  [.other 'a', .other ';', .line "/* or */ long".toList, .other '\n',
    .block " two\nlines ".toList, .other 'b', .other ';', .line " jni/*.h".toList, .other '\n']

/-- Comments of both kinds, one within another, and one that only seems to begin. -/
theorem notedHeader_erased :
    pieces? notedHeader = some notedPieces ∧ HasPlainLines notedPieces ∧
      eraseComments notedHeader = "a; \n\nb; \n".toList := by
  have hpieces : pieces? notedHeader = some notedPieces := by decide +kernel
  have hshort (after : Text) : EndsBlocks after "/* or */ long".toList := by
    have hsplit : "/* or */ long".toList =
        '/' :: '*' :: (" or ".toList ++ '*' :: '/' :: " long".toList) := by decide
    rw [hsplit]
    exact .block _ (by decide) (.of_openless after _ (by decide))
  have hfirst (after : Text) : IsSelfContained after "/* or */ long".toList :=
    ⟨fun h => absurd h (by decide), hshort after⟩
  have hlast : IsSelfContained ['\n'] " jni/*.h".toList :=
    ⟨fun h => absurd h (by decide), .endless (by decide +kernel)⟩
  have hlines : HasPlainLines notedPieces := ⟨hfirst _, hlast, trivial⟩
  exact ⟨hpieces, hlines, eraseComments_eq_of_pieces? _ _ hpieces hlines⟩

/-- A header whose first line names files by a wildcard. -/
def globHeader : Text :=
  "// see jni/*.h\nJNIEXPORT void JNICALL Java_A_f(JNIEnv *, jobject);\n/* end */\n".toList

/-- The block comment that seems to begin in the line comment takes the declaration behind it. -/
theorem globHeader_loses_signature :
    '"' ∉ globHeader ∧ '\'' ∉ globHeader ∧ ∃ ps, pieces? globHeader = some ps ∧
      eraseComments globHeader ≠ ps.flatMap Piece.substitute ∧ signatures globHeader = [] ∧
      (signaturesFrom 0 1 (ps.flatMap Piece.substitute)).length = 1 := by
  refine ⟨by decide, by decide, [.line " see jni/*.h".toList] ++
    "\nJNIEXPORT void JNICALL Java_A_f(JNIEnv *, jobject);\n".toList.map .other ++
    [.block " end ".toList, .other '\n'], ?_, ?_, ?_, ?_⟩
  · decide +kernel
  · decide +kernel
  · decide +kernel
  · decide +kernel

end NativeGlue.Header
