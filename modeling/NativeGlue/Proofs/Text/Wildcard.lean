import NativeGlue.Proofs.Text.Occurrence
import NativeGlue.Text.Wildcard

/-!
What wildcard patterns stand for. A pattern is read once from the left, and of the text only the
ends are kept that the part read so far may leave over. Each of these ends lies in the one before,
which is why a star need only look at the longest of them. A pattern behind two stars and a slash
stands for the paths whose end behind some slash, or which as a whole, the pattern stands for.
-/

namespace NativeGlue.Text.Wildcard

/-- The text between the brackets of a set. It has a first member, which may be a closing bracket,
and a mark of exclusion in front of it is not a member. -/
inductive SetText : Text → Prop
  | listed {first : Char} {rest : Text} (hfirst : first ≠ '!') (hrest : ']' ∉ rest) :
    SetText (first :: rest)
  | excluded (first : Char) {rest : Text} (hrest : ']' ∉ rest) : SetText ('!' :: first :: rest)

/-- What a pattern stands for. A bracket that begins no set stands for itself. -/
inductive StandsFor : Text → Text → Prop
  | nil : StandsFor [] []
  | star (run : Text) {pattern t : Text} (h : StandsFor pattern t) :
    StandsFor ('*' :: pattern) (run ++ t)
  | any (c : Char) {pattern t : Text} (h : StandsFor pattern t) :
    StandsFor ('?' :: pattern) (c :: t)
  | set {body rest pattern t : Text} {c : Char} (hbody : SetText body)
    (hrest : rest = body ++ ']' :: pattern) (hc : (setOf body).contains c = true)
    (h : StandsFor pattern t) : StandsFor ('[' :: rest) (c :: t)
  | bracket {pattern t : Text}
    (hopen : ¬ ∃ body rest, SetText body ∧ pattern = body ++ ']' :: rest)
    (h : StandsFor pattern t) : StandsFor ('[' :: pattern) ('[' :: t)
  | same {c : Char} {pattern t : Text} (hc : c ∉ "*?[".toList) (h : StandsFor pattern t) :
    StandsFor (c :: pattern) (c :: t)

section Reading

/-- The members of a set up to the closing bracket. -/
def members? (t : Text) : Option Text :=
  if (t.takeWhile (· != ']')).length < t.length then some (t.takeWhile (· != ']')) else none

theorem members?_append {members : Text} (h : ']' ∉ members) (rest : Text) :
    members? (members ++ ']' :: rest) = some members := by
  have hmembers : ∀ c ∈ members, (c != ']') = true := by
    intro c hc
    rw [bne_iff_ne]
    rintro rfl
    exact h hc
  have htake : (members ++ ']' :: rest).takeWhile (· != ']') = members := by
    rw [List.takeWhile_append_of_pos hmembers, List.takeWhile_cons_of_neg (by simp),
      List.append_nil]
  unfold members?
  rw [htake, if_pos (by simp)]

theorem exists_of_members? {t members : Text} (h : members? t = some members) :
    ']' ∉ members ∧ ∃ rest, t = members ++ ']' :: rest := by
  unfold members? at h
  split_ifs at h with hshort
  cases h
  have hsplit : t.takeWhile (· != ']') ++ t.dropWhile (· != ']') = t :=
    List.takeWhile_append_dropWhile
  constructor
  · intro hmem
    have hother := List.all_eq_true.mp List.all_takeWhile _ hmem
    simp at hother
  · cases hrest : t.dropWhile (· != ']') with
    | nil =>
      rw [hrest, List.append_nil] at hsplit
      rw [hsplit] at hshort
      exact absurd hshort (Nat.lt_irrefl _)
    | cons c rest =>
      obtain rfl := eq_of_dropWhile_ne hrest
      rw [hrest] at hsplit
      exact ⟨rest, hsplit.symm⟩

theorem setBody?_listed (first : Char) (t : Text) (hmark : first ≠ '!') :
    setBody? (first :: t) = (members? t).map (first :: ·) := by
  by_cases hclose : first = ']' <;> simp [setBody?, members?, hmark, hclose]

theorem setBody?_excluded (first : Char) (t : Text) :
    setBody? ('!' :: first :: t) = (members? t).map fun members => '!' :: first :: members := by
  by_cases hclose : first = ']' <;> simp [setBody?, members?, hclose]

/-- The text of a set is all that is read of it. -/
theorem setBody?_append {body : Text} (h : SetText body) (rest : Text) :
    setBody? (body ++ ']' :: rest) = some body := by
  cases h with
  | listed hfirst hmembers =>
    rw [List.cons_append, setBody?_listed _ _ hfirst, members?_append hmembers]
    rfl
  | excluded first hmembers =>
    rw [List.cons_append, List.cons_append, setBody?_excluded, members?_append hmembers]
    rfl

theorem exists_of_setBody? {t body : Text} (h : setBody? t = some body) :
    SetText body ∧ ∃ rest, t = body ++ ']' :: rest := by
  cases t with
  | nil => cases h
  | cons c t =>
    by_cases hmark : c = '!'
    · subst hmark
      cases t with
      | nil => cases h
      | cons first t =>
        rw [setBody?_excluded] at h
        obtain ⟨members, hread, rfl⟩ := Option.map_eq_some_iff.mp h
        obtain ⟨hmembers, rest, rfl⟩ := exists_of_members? hread
        exact ⟨.excluded first hmembers, rest, rfl⟩
    · rw [setBody?_listed c t hmark] at h
      obtain ⟨members, hread, rfl⟩ := Option.map_eq_some_iff.mp h
      obtain ⟨hmembers, rest, rfl⟩ := exists_of_members? hread
      exact ⟨.listed hmark hmembers, rest, rfl⟩

theorem setBody?_eq_none_iff (t : Text) :
    setBody? t = none ↔ ¬ ∃ body rest, SetText body ∧ t = body ++ ']' :: rest := by
  constructor
  · rintro hnone ⟨body, rest, hbody, rfl⟩
    rw [setBody?_append hbody] at hnone
    cases hnone
  · intro h
    cases hread : setBody? t with
    | none => rfl
    | some body =>
      obtain ⟨hbody, rest, hrest⟩ := exists_of_setBody? hread
      exact absurd ⟨body, rest, hbody, hrest⟩ h

theorem piecesFrom_append (read rest : Text) :
    piecesFrom read.length (read ++ rest) = piecesFrom 0 rest := by
  induction read with
  | nil => rfl
  | cons c read ih => exact ih

theorem piecesFrom_set {body : Text} (h : SetText body) (rest : Text) :
    piecesFrom 0 ('[' :: (body ++ ']' :: rest)) = .set (setOf body) :: piecesFrom 0 rest := by
  have hlater : piecesFrom (body.length + 1) (body ++ ']' :: rest) = piecesFrom 0 rest := by
    simpa using piecesFrom_append (body ++ [']']) rest
  rw [piecesFrom, if_neg (by decide), if_neg (by decide), if_pos rfl, setBody?_append h]
  exact congrArg _ hlater

theorem piecesFrom_bracket {t : Text}
    (h : ¬ ∃ body rest, SetText body ∧ t = body ++ ']' :: rest) :
    piecesFrom 0 ('[' :: t) = .one '[' :: piecesFrom 0 t := by
  rw [piecesFrom, if_neg (by decide), if_neg (by decide), if_pos rfl,
    (setBody?_eq_none_iff t).mpr h]

theorem piecesFrom_same {c : Char} (h : c ∉ "*?[".toList) (t : Text) :
    piecesFrom 0 (c :: t) = .one c :: piecesFrom 0 t := by
  have hother : c ≠ '*' ∧ c ≠ '?' ∧ c ≠ '[' := by simpa using h
  rw [piecesFrom, if_neg hother.1, if_neg hother.2.1, if_neg hother.2.2]

end Reading

section Covering

/-- The pieces stand for the text. -/
inductive Covers : List Piece → Text → Prop
  | nil : Covers [] []
  | star (run : Text) {ps : List Piece} {t : Text} (h : Covers ps t) :
    Covers (.star :: ps) (run ++ t)
  | char {p : Piece} {c : Char} {ps : List Piece} {t : Text} (hp : p ≠ .star)
    (hc : p.accepts c = true) (h : Covers ps t) : Covers (p :: ps) (c :: t)

/-- Ends of one text, the longest first. -/
def Nested (rests : List Text) : Prop := rests.Pairwise fun longer shorter => shorter <:+ longer

theorem mem_ends_iff (t rest : Text) : rest ∈ ends t ↔ rest <:+ t := by
  induction t with
  | nil => simp [ends]
  | cons c t ih => rw [ends, List.mem_cons, ih, List.suffix_cons_iff]

theorem nested_ends (t : Text) : Nested (ends t) := by
  induction t with
  | nil => exact List.pairwise_singleton _ _
  | cons c t ih =>
    refine List.pairwise_cons.mpr ⟨fun rest hrest => ?_, ih⟩
    exact ((mem_ends_iff t rest).mp hrest).trans (List.suffix_cons c t)

/-- A star leaves the ends of the longest text, and so those of all. -/
theorem mem_advance_star {rests : List Text} (h : Nested rests) (rest : Text) :
    rest ∈ advance rests .star ↔ ∃ t ∈ rests, rest <:+ t := by
  cases rests with
  | nil => simp [advance]
  | cons longest shorter =>
    change rest ∈ ends longest ↔ _
    rw [mem_ends_iff]
    constructor
    · intro hrest
      exact ⟨longest, List.mem_cons_self, hrest⟩
    · rintro ⟨t, ht, hrest⟩
      rcases List.mem_cons.mp ht with rfl | ht
      · exact hrest
      · exact hrest.trans ((List.pairwise_cons.mp h).1 t ht)

/-- What a piece that stands for one character leaves over. -/
def after? (p : Piece) : Text → Option Text
  | [] => none
  | c :: rest => if p.accepts c then some rest else none

theorem advance_char {p : Piece} (hp : p ≠ .star) (rests : List Text) :
    advance rests p = rests.filterMap (after? p) := by
  cases p with
  | star => exact absurd rfl hp
  | any => rfl
  | one d => rfl
  | set s => rfl

theorem after?_eq_some_iff (p : Piece) (t rest : Text) :
    after? p t = some rest ↔ ∃ c, p.accepts c = true ∧ t = c :: rest := by
  cases t with
  | nil => simp [after?]
  | cons c t =>
    constructor
    · intro h
      rw [after?] at h
      split_ifs at h with hc
      cases h
      exact ⟨c, hc, rfl⟩
    · rintro ⟨d, hd, heq⟩
      obtain ⟨rfl, rfl⟩ := List.cons.inj heq
      exact if_pos hd

theorem mem_advance_char {p : Piece} (hp : p ≠ .star) (rests : List Text) (rest : Text) :
    rest ∈ advance rests p ↔ ∃ c, p.accepts c = true ∧ c :: rest ∈ rests := by
  simp only [advance_char hp, List.mem_filterMap, after?_eq_some_iff]
  constructor
  · rintro ⟨_, ht, c, hc, rfl⟩
    exact ⟨c, hc, ht⟩
  · rintro ⟨c, hc, ht⟩
    exact ⟨_, ht, c, hc, rfl⟩

/-- Taking the first character off two ends of a text leaves one within the other. -/
theorem suffix_of_cons_suffix_cons {c d : Char} {t u : Text} (h : d :: u <:+ c :: t) : u <:+ t := by
  rcases List.suffix_cons_iff.mp h with heq | hsuffix
  · exact (List.cons.inj heq).2 ▸ List.suffix_rfl
  · exact (List.suffix_cons d u).trans hsuffix

theorem Nested.advance {rests : List Text} (h : Nested rests) (p : Piece) :
    Nested (advance rests p) := by
  by_cases hp : p = .star
  · subst hp
    cases rests with
    | nil => exact List.Pairwise.nil
    | cons longest shorter => exact nested_ends longest
  · rw [advance_char hp, Nested, List.pairwise_filterMap]
    refine h.imp ?_
    intro longer shorter hsuffix rest hrest rest' hrest'
    obtain ⟨c, -, rfl⟩ := (after?_eq_some_iff p longer rest).mp hrest
    obtain ⟨d, -, rfl⟩ := (after?_eq_some_iff p shorter rest').mp hrest'
    exact suffix_of_cons_suffix_cons hsuffix

/-- What one piece leaves over is covered by the others just when what was there before is covered
by all of them. -/
theorem exists_advance_covers {rests : List Text} (h : Nested rests) (p : Piece)
    (ps : List Piece) :
    (∃ t ∈ advance rests p, Covers ps t) ↔ ∃ t ∈ rests, Covers (p :: ps) t := by
  by_cases hp : p = .star
  · subst hp
    simp only [mem_advance_star h]
    constructor
    · rintro ⟨rest, ⟨t, ht, run, rfl⟩, hcovers⟩
      exact ⟨_, ht, .star run hcovers⟩
    · rintro ⟨t, ht, hcovers⟩
      cases hcovers with
      | @star run _ rest hcovers => exact ⟨rest, ⟨_, ht, List.suffix_append run rest⟩, hcovers⟩
      | char hstar => exact absurd rfl hstar
  · simp only [mem_advance_char hp]
    constructor
    · rintro ⟨rest, ⟨c, hc, ht⟩, hcovers⟩
      exact ⟨_, ht, .char hp hc hcovers⟩
    · rintro ⟨t, ht, hcovers⟩
      cases hcovers with
      | star => exact absurd rfl hp
      | @char _ c _ rest _ hc hcovers => exact ⟨rest, ⟨c, hc, ht⟩, hcovers⟩

theorem nil_mem_foldl_advance {rests : List Text} (h : Nested rests) (ps : List Piece) :
    [] ∈ ps.foldl advance rests ↔ ∃ t ∈ rests, Covers ps t := by
  induction ps generalizing rests with
  | nil =>
    constructor
    · intro hnil
      exact ⟨[], hnil, .nil⟩
    · rintro ⟨t, ht, hcovers⟩
      cases hcovers
      exact ht
  | cons p ps ih => rw [List.foldl_cons, ih (h.advance p), exists_advance_covers h]

theorem accept_iff (ps : List Piece) (t : Text) : accept ps t = true ↔ Covers ps t := by
  rw [accept, leftOver, List.contains_iff_mem,
    nil_mem_foldl_advance (List.pairwise_singleton _ t)]
  simp

end Covering

section Patterns

theorem covers_of_standsFor {pattern t : Text} (h : StandsFor pattern t) :
    Covers (piecesFrom 0 pattern) t := by
  induction h with
  | nil => exact .nil
  | star run _ ih => exact .star run ih
  | any c _ ih => exact .char (by simp) rfl ih
  | set hbody hrest hc _ ih =>
    subst hrest
    rw [piecesFrom_set hbody]
    exact .char (by simp) hc ih
  | bracket hopen _ ih =>
    rw [piecesFrom_bracket hopen]
    exact .char (by simp) (by simp [Piece.accepts]) ih
  | same hc _ ih =>
    rw [piecesFrom_same hc]
    exact .char (by simp) (by simp [Piece.accepts]) ih

/-- The reading of a pattern, past the characters that belong to a set already read. -/
theorem standsFor_of_covers {skip : Nat} {pattern t : Text}
    (h : Covers (piecesFrom skip pattern) t) : StandsFor (pattern.drop skip) t := by
  fun_induction piecesFrom skip pattern generalizing t with
  | case1 skip =>
    cases h
    rw [List.drop_nil]
    exact .nil
  | case2 skip c rest ih => exact ih h
  | case3 rest ih =>
    cases h with
    | star run h => exact .star run (ih h)
    | char hp => exact absurd rfl hp
  | case4 rest _ ih =>
    cases h with
    | char _ _ h => exact .any _ (ih h)
  | case5 rest body hbody _ _ ih =>
    obtain ⟨hset, pattern, rfl⟩ := exists_of_setBody? hbody
    cases h with
    | char _ hc h =>
      have hrest := ih h
      rw [List.drop_append, List.drop_of_length_le (by simp), Nat.add_sub_cancel_left] at hrest
      exact .set hset rfl hc hrest
  | case6 rest hnone _ _ ih =>
    cases h with
    | @char _ c _ _ _ hc h =>
      obtain rfl : c = '[' := eq_of_beq hc
      exact .bracket ((setBody?_eq_none_iff rest).mp hnone) (ih h)
  | case7 c rest hstar hany hset ih =>
    cases h with
    | @char _ d _ _ _ hd h =>
      obtain rfl : d = c := eq_of_beq hd
      exact .same (by simp [hstar, hany, hset]) (ih h)

theorem isMatch_iff (pattern t : Text) : isMatch pattern t = true ↔ StandsFor pattern t := by
  rw [isMatch, accept_iff]
  exact ⟨fun h => standsFor_of_covers h, covers_of_standsFor⟩

/-- A pattern may be met with or without its two stars and the slash. -/
theorem isMatchAtAnyDepth_iff (t pattern : Text) :
    isMatchAtAnyDepth t pattern = true ↔
      StandsFor pattern t ∨ ∃ rest, pattern = "**/".toList ++ rest ∧ StandsFor rest t := by
  have hrest : (dropStart? "**/".toList pattern).any (fun rest => isMatch rest t) = true ↔
      ∃ rest, pattern = "**/".toList ++ rest ∧ StandsFor rest t := by
    rw [Option.any_eq_true]
    constructor
    · rintro ⟨rest, hdrop, hmatch⟩
      exact ⟨rest, eq_append_of_dropStart? hdrop, (isMatch_iff rest t).mp hmatch⟩
    · rintro ⟨rest, rfl, hstands⟩
      exact ⟨rest, dropStart?_append _ rest, (isMatch_iff rest t).mpr hstands⟩
  rw [isMatchAtAnyDepth, Bool.or_eq_true, isMatch_iff, hrest]

/-- Two stars before a slash stand for all that may come before one. -/
theorem standsFor_behind_slash_iff (pattern t : Text) :
    StandsFor ("**/".toList ++ pattern) t ↔
      ∃ before after, t = before ++ '/' :: after ∧ StandsFor pattern after := by
  constructor
  · intro h
    cases h with
    | same hc => exact absurd List.mem_cons_self hc
    | star run h =>
      cases h with
      | same hc => exact absurd List.mem_cons_self hc
      | star run' h =>
        cases h with
        | same _ h => exact ⟨run ++ run', _, (List.append_assoc ..).symm, h⟩
  · rintro ⟨before, after, rfl, h⟩
    exact .star before (.star [] (.same (by decide) h))

/-- Two stars and a slash in front of a pattern mean any depth, including none: the pattern stands
for the whole path or for its end behind some slash. Of several patterns one has to match, in
whatever order they are given. -/
theorem isMatchOfAny_at_any_depth (pattern t : Text) (patterns : List Text) :
    (isMatchOfAny ["**/".toList ++ pattern] t = true ↔ StandsFor pattern t ∨
      ∃ before after, t = before ++ '/' :: after ∧ StandsFor pattern after) ∧
    (isMatchOfAny patterns t = true ↔ ∃ p ∈ patterns, isMatchOfAny [p] t = true) ∧
    ∀ others : List Text, others.Perm patterns →
      isMatchOfAny others t = isMatchOfAny patterns t := by
  have hone (p : Text) : isMatchOfAny [p] t = isMatchAtAnyDepth t p := by
    rw [isMatchOfAny, List.any_cons, List.any_nil, Bool.or_false]
  refine ⟨?_, ?_, ?_⟩
  · rw [hone, isMatchAtAnyDepth_iff, standsFor_behind_slash_iff, or_comm]
    simp only [List.append_cancel_left_eq, exists_eq_left']
  · simp only [hone]
    exact List.any_eq_true
  · intro others hsame
    rw [isMatchOfAny, isMatchOfAny, Bool.eq_iff_iff, List.any_eq_true, List.any_eq_true]
    simp only [hsame.mem_iff]

/-- A source two levels down is found by its own name, whichever pattern comes first. -/
theorem nested_source_matched :
    ["gen/*".toList, "**/[A-Z]*.java".toList].Perm ["**/[A-Z]*.java".toList, "gen/*".toList] ∧
    isMatchOfAny ["gen/*".toList, "**/[A-Z]*.java".toList] "p/q/A.java".toList =
      isMatchOfAny ["**/[A-Z]*.java".toList, "gen/*".toList] "p/q/A.java".toList ∧
    StandsFor "[A-Z]*.java".toList "A.java".toList ∧
    isMatchOfAny ["**/[A-Z]*.java".toList] "p/q/A.java".toList = true := by
  have hswap : ["gen/*".toList, "**/[A-Z]*.java".toList].Perm
      ["**/[A-Z]*.java".toList, "gen/*".toList] := .swap _ _ _
  have hname : StandsFor "[A-Z]*.java".toList "A.java".toList := (isMatch_iff _ _).mp (by decide)
  obtain ⟨hdepth, -, horder⟩ := isMatchOfAny_at_any_depth "[A-Z]*.java".toList "p/q/A.java".toList
    ["**/[A-Z]*.java".toList, "gen/*".toList]
  exact ⟨hswap, horder _ hswap, hname,
    hdepth.mpr (.inr ⟨"p/q".toList, "A.java".toList, rfl, hname⟩)⟩

end Patterns

end NativeGlue.Text.Wildcard
