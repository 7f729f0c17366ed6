import NativeGlue.Proofs.Source.Lexing
import NativeGlue.Proofs.Source.Simulation
import NativeGlue.Proofs.Traversal

/-!
Source files whose blanks are laid out in another way. A run of blanks that stands between other
lexemes may become any other run, as long as a line comment still ends where it did. Such files
have the same lexemes but for their blanks, and reading them gives the same segments, the same
skipped methods and the same fault, on other lines.
-/

namespace NativeGlue.Source

open Text

/-- At least one character, and none but blanks. -/
def isRun (t : Text) : Bool := !t.isEmpty && t.all isBlank

theorem isRun_iff (t : Text) : isRun t = true ↔ t ≠ [] ∧ ∀ c ∈ t, isBlank c = true := by
  simp [isRun]

/-- The second text is the first with other blanks where it has blanks outside comments and
literals. A line comment still ends with its line. -/
inductive Respaced : Text → Text → Prop
  | same (t : Text) : Respaced t t
  | run {blanks blanks' t t' : Text} (hrun : isRun blanks = true) (hrun' : isRun blanks' = true)
    (h : Respaced t t') : Respaced (blanks ++ t) (blanks' ++ t')
  | lexeme {l : Lexeme} {t t' : Text} (hl : l.EndsBefore t.head?)
    (hline : ∀ body, l = .lineComment body → t'.head? = none ∨ t'.head? = some '\n')
    (h : Respaced t t') : Respaced (l.spelling ++ t) (l.spelling ++ t')

/-- The same character comes next, or a blank does in both. -/
def SameNext (next next' : Option Char) : Prop :=
  next = next' ∨ next.any isBlank = true ∧ next'.any isBlank = true

theorem Respaced.sameNext {t t' : Text} (h : Respaced t t') : SameNext t.head? t'.head? := by
  have hblank {blanks : Text} (hrun : isRun blanks = true) (t : Text) :
      (blanks ++ t).head?.any isBlank = true := by
    obtain ⟨hne, hblanks⟩ := (isRun_iff blanks).mp hrun
    obtain ⟨c, blanks, rfl⟩ := List.exists_cons_of_ne_nil hne
    exact hblanks c List.mem_cons_self
  cases h with
  | same => exact .inl rfl
  | run hrun hrun' => exact .inr ⟨hblank hrun _, hblank hrun' _⟩
  | @lexeme l t t' =>
    obtain ⟨c, rest, hspelling⟩ := List.exists_cons_of_ne_nil l.spelling_ne_nil
    rw [hspelling]
    exact .inl rfl

/-- A lexeme ends before a blank as it does before another. -/
theorem Lexeme.EndsBefore.congr {l : Lexeme} {next next' : Option Char} (h : l.EndsBefore next)
    (hnext : SameNext next next')
    (hline : ∀ body, l = .lineComment body → next' = none ∨ next' = some '\n') :
    l.EndsBefore next' := by
  have hother (c : Char) (hc : isBlank c = false) (hin : next' = some c) : next = some c := by
    rcases hnext with rfl | ⟨-, hblank⟩
    · exact hin
    · rw [hin, Option.any_some, hc] at hblank
      cases hblank
  cases l with
  | blank c => exact h
  | comment body => exact h
  | lineComment body => exact ⟨h.1, hline body rfl⟩
  | literal quote body =>
    obtain ⟨hquote, hbody, hblock⟩ := h
    exact ⟨hquote, hbody, fun hin => hblock ⟨hin.1, hin.2.1, hother '"' rfl hin.2.2⟩⟩
  | textBlock body => exact h
  | mark c =>
    obtain ⟨hblank, hdouble, hsingle, hslash⟩ := h
    refine ⟨hblank, hdouble, hsingle, ?_⟩
    rintro ⟨hc, hin | hin⟩
    · exact hslash ⟨hc, .inl (hother '*' rfl hin)⟩
    · exact hslash ⟨hc, .inr (hother '/' rfl hin)⟩

/-- A character that begins neither a comment nor a literal and is no blank. -/
def isOrdinary (c : Char) : Bool := !(isBlank c || ['/', '"', '\''].contains c)

/-- Words stand as they are. -/
theorem Respaced.word {word t t' : Text} (hword : word.all isOrdinary = true)
    (h : Respaced t t') : Respaced (word ++ t) (word ++ t') := by
  induction word with
  | nil => exact h
  | cons c word ih =>
    obtain ⟨hc, hlater⟩ := Bool.and_eq_true_iff.mp hword
    simp only [isOrdinary, Bool.not_eq_true', Bool.or_eq_false_iff, List.contains_eq_mem,
      decide_eq_false_iff_not, List.mem_cons, List.not_mem_nil, or_false, not_or] at hc
    obtain ⟨hblank, hslash, hdouble, hsingle⟩ := hc
    have hmark : Lexeme.EndsBefore (.mark c) (word ++ t).head? :=
      ⟨hblank, hdouble, hsingle, fun hin => hslash hin.1⟩
    exact .lexeme hmark nofun (ih hlater)

namespace Scan

/-- Read a run of blanks. -/
def blanks (s : Scan) (t : Text) : Scan :=
  { s with
    line := s.line + feeds t
    statement := { s.statement with text := s.statement.text ++ t } }

theorem blanks_cons (s : Scan) (c : Char) (t : Text) :
    s.blanks (c :: t) = (s.blank c).blanks t := by
  have hline : s.line + feeds (c :: t) = (s.blank c).line + feeds t := by
    simp only [blank, feeds]
    by_cases hc : c = '\n'
    · rw [hc, List.count_cons_self, if_pos rfl]
      omega
    · rw [List.count_cons_of_ne hc, if_neg hc]
  rw [blanks, blanks, hline]
  simp only [blank, Statement.putBlank, List.append_assoc, List.singleton_append]

theorem readFrom_blanks (s : Scan) (blanks rest : Text) (h : ∀ c ∈ blanks, isBlank c = true) :
    s.readFrom (blanks ++ rest) = (s.blanks blanks).readFrom rest := by
  induction blanks generalizing s with
  | nil =>
    have hnone : s.blanks [] = s := by simp [Scan.blanks, feeds]
    rw [hnone, List.nil_append]
  | cons c blanks ih =>
    obtain ⟨hc, hlater⟩ := List.forall_mem_cons.mp h
    rw [List.cons_append, s.readFrom_of_read (lexeme?_blank c _ hc) rfl, ih _ hlater, blanks_cons]

end Scan

/-- What a file holds, whatever the lines. -/
def Contents.unlined (c : Contents) : Contents := c.mapLines fun _ => 0

/-- Scans that are alike but for their lines find the same in files that are laid out in different
ways. -/
theorem Scan.Like.readFrom_respaced {s s' : Scan} {t t' : Text} (h : Respaced t t')
    (hs : s.Like (fun _ => 0) (fun _ => 0) .none s') :
    Agree (fun _ => 0) (fun _ => 0) (fun c d => d.unlined = c.unlined) (s.readFrom t)
      (s'.readFrom t') := by
  have hlines : Parallel (fun _ => 0) fun _ => 0 := fun _ _ _ _ => rfl
  induction h generalizing s s' with
  | same t => exact hs.readFrom hlines t
  | run hrun hrun' h ih =>
    obtain ⟨hne, hblanks⟩ := (isRun_iff _).mp hrun
    obtain ⟨hne', hblanks'⟩ := (isRun_iff _).mp hrun'
    rw [s.readFrom_blanks _ _ hblanks, s'.readFrom_blanks _ _ hblanks']
    exact ih ⟨rfl, hs.statement.putBlanks hne hne' hblanks hblanks', hs.scopes, hs.pending,
      hs.found⟩
  | @lexeme l t t' hl hline h ih =>
    have hl' := hl.congr h.sameNext hline
    obtain ⟨c, rest, hspelling, hlexeme⟩ := lexeme?_of_endsBefore l t hl
    obtain ⟨c', rest', hspelling', hlexeme'⟩ := lexeme?_of_endsBefore l t' hl'
    have hblank : ∀ d, l = .blank d → isBlank d = true := by
      rintro d rfl
      exact hl
    rw [hspelling, hspelling', s.readFrom_of_ok hlexeme, s'.readFrom_of_ok hlexeme']
    exact (hs.read hlines l hblank).bind fun _ _ hab => ih hab

theorem Scan.start_like (f : Int → Int) : Scan.start.Like f f .none Scan.start where
  line := rfl
  statement := ⟨rfl, rfl, rfl, nofun, fun _ _ hc => absurd hc List.not_mem_nil, nofun⟩
  scopes := .nil
  pending := rfl
  found := rfl

/-- Other blanks give the same contents or the same fault, up to the lines. -/
theorem read_respaced (t t' : Text) (h : Respaced t t') :
    (∀ contents, read t = .ok contents →
      ∃ contents', read t' = .ok contents' ∧ contents'.unlined = contents.unlined) ∧
    ∀ problem, read t = .error problem →
      ∃ problem', read t' = .error problem' ∧ problem'.fault = problem.fault := by
  have hagree := (Scan.start_like fun _ => 0).readFrom_respaced h
  rw [← Scan.read_eq_readFrom, ← Scan.read_eq_readFrom] at hagree
  generalize read t = x at hagree
  generalize read t' = y at hagree
  cases hagree with
  | ok hsame =>
    refine ⟨?_, nofun⟩
    rintro contents ⟨⟩
    exact ⟨_, rfl, hsame⟩
  | error hsame =>
    refine ⟨nofun, ?_⟩
    rintro problem ⟨⟩
    exact ⟨_, rfl, (congrArg Problem.fault hsame).symm⟩

/-- A native method with an annotation, a modifier and its code, below a line comment. -/
def tightFile : Text :=
  "class A\x7b//x\n@B( 1)native int f(final int a) ;/*1*/\x7d".toList

/-- The same file with other blanks. -/
def looseFile : Text :=
  "class\n\tA\x7b//x\n\n  @B(\n1)native  int f(final\t int\n a)\n ;/*1*/\x7d".toList

theorem tightFile_respaced : Respaced tightFile looseFile :=
  @Respaced.word "class".toList _ _ (by decide) <|
  @Respaced.run " ".toList "\n\t".toList _ _ (by decide) (by decide) <|
  @Respaced.word "A\x7b".toList _ _ (by decide) <|
  @Respaced.lexeme (.lineComment ['x']) _ _ ⟨by decide, .inr rfl⟩ (fun _ _ => .inr rfl) <|
  @Respaced.run "\n".toList "\n\n  ".toList _ _ (by decide) (by decide) <|
  @Respaced.word "@B(".toList _ _ (by decide) <|
  @Respaced.run " ".toList "\n".toList _ _ (by decide) (by decide) <|
  @Respaced.word "1)native".toList _ _ (by decide) <|
  @Respaced.run " ".toList "  ".toList _ _ (by decide) (by decide) <|
  @Respaced.word "int".toList _ _ (by decide) <|
  @Respaced.run " ".toList " ".toList _ _ (by decide) (by decide) <|
  @Respaced.word "f(final".toList _ _ (by decide) <|
  @Respaced.run " ".toList "\t ".toList _ _ (by decide) (by decide) <|
  @Respaced.word "int".toList _ _ (by decide) <|
  @Respaced.run " ".toList "\n ".toList _ _ (by decide) (by decide) <|
  @Respaced.word "a)".toList _ _ (by decide) <|
  @Respaced.run " ".toList "\n ".toList _ _ (by decide) (by decide) <|
  .same ";/*1*/\x7d".toList

def tightContents : Contents where
  segments := [.declared ⟨['A'], ['f'], false, [⟨['a'], .read "int".toList⟩], ['1'], 2, 2, 2⟩]
  skipped := []

theorem tightFile_relaid : read tightFile = .ok tightContents ∧ Respaced tightFile looseFile ∧
    ∃ contents, read looseFile = .ok contents ∧ contents.unlined = tightContents.unlined := by
  have hread : read tightFile = .ok tightContents := eq_ok_of_toOption (by decide +kernel)
  exact ⟨hread, tightFile_respaced,
    (read_respaced tightFile looseFile tightFile_respaced).1 tightContents hread⟩

end NativeGlue.Source
