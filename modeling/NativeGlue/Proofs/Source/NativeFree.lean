import NativeGlue.Proofs.Source.Clauses
import NativeGlue.Proofs.Source.NativeOutcome

/-!
Words of statements. A scan rebuilds its statements from pieces of the file, but a run of name
characters in a statement stands in the file as it does there: what the scan puts in the place of
comments, literals and braces has no such characters. So a file without the word `native` has no
native statement, and nothing goes wrong in it but with comments, literals and braces.
-/

namespace NativeGlue

open Text

namespace Text

/-- A word that is found stands in the text. -/
theorem infix_of_hasWord {word t : Text} (h : hasWord word t = true) : word <:+: t := by
  unfold hasWord at h
  generalize none = before at h
  induction t generalizing before with
  | nil => cases h
  | cons c rest ih =>
    rw [afterWordFrom?] at h
    split at h
    · next after hafter =>
      rw [eq_append_of_dropStart? hafter]
      exact (List.prefix_append word after).isInfix
    · exact List.infix_cons (ih (some c) h)

def IsNameRun (w : Text) : Prop := ∀ c ∈ w, isNamePart c = true

/-- Every run of name characters in the first text stands in the second. -/
def RunsIn (u t : Text) : Prop := ∀ w, IsNameRun w → w <:+: u → w <:+: t

/-- The runs of the first text stand in the second, and a run at its end stands at the end. -/
structure HeldIn (u t : Text) : Prop where
  runs : RunsIn u t
  ending : ∀ w, IsNameRun w → w <:+ u → w <:+ t

variable {u t gap : Text}

theorem IsNameRun.notMem {w : Text} {c : Char} (h : IsNameRun w) (hc : isNamePart c = false) :
    c ∉ w := by
  intro hmem
  rw [h c hmem] at hc
  cases hc

namespace RunsIn

theorem append_right (h : RunsIn u t) (more : Text) : RunsIn u (t ++ more) :=
  fun w hw hin => (h w hw hin).trans (List.prefix_append t more).isInfix

theorem append_gap (h : RunsIn u t) (hgap : ∀ c ∈ gap, isNamePart c = false) :
    RunsIn (u ++ gap) t := by
  intro w hw hin
  cases gap with
  | nil => exact h w hw (by simpa using hin)
  | cons c gap =>
    rw [List.forall_mem_cons] at hgap
    rcases infix_of_infix_append_cons (hw.notMem hgap.1) hin with hleft | hright
    · exact h w hw hleft
    · rw [← List.append_nil gap] at hright
      have hnil := infix_of_infix_gap_append (fun d hd => hw.notMem (hgap.2 d hd)) hright
      exact hnil.trans List.nil_infix

end RunsIn

namespace HeldIn

theorem nil (t : Text) : HeldIn [] t where
  runs w _ hin := by
    rw [List.infix_nil.mp hin]
    exact List.nil_infix
  ending w _ hend := by
    rw [List.suffix_nil.mp hend]
    exact List.nil_suffix

/-- Characters that no name has may stand for any piece of a file. -/
theorem of_gap (h : RunsIn u t) (hne : gap ≠ []) (hall : gap.all (!isNamePart ·) = true)
    (more : Text) : HeldIn (u ++ gap) (t ++ more) := by
  have hgap : ∀ c ∈ gap, isNamePart c = false := by simpa using hall
  refine ⟨(h.append_gap hgap).append_right more, fun w hw hend => ?_⟩
  obtain ⟨start, c, rfl⟩ := (List.eq_nil_or_concat' gap).resolve_left hne
  rw [← List.append_assoc] at hend
  rcases List.suffix_concat_iff.mp hend with rfl | ⟨v, rfl, -⟩
  · exact List.nil_suffix
  · exact absurd List.mem_concat_self (hw.notMem (hgap c List.mem_concat_self))

theorem append_char (h : HeldIn u t) (c : Char) : HeldIn (u ++ [c]) (t ++ [c]) := by
  have hending : ∀ w, IsNameRun w → w <:+ u ++ [c] → w <:+ t ++ [c] := by
    intro w hw hend
    rcases List.suffix_concat_iff.mp hend with rfl | ⟨v, rfl, hv⟩
    · exact List.nil_suffix
    · exact List.suffix_concat_iff.mpr (.inr ⟨v, rfl,
        h.ending v (fun d hd => hw d (List.mem_append_left _ hd)) hv⟩)
  refine ⟨fun w hw hin => ?_, hending⟩
  rcases List.infix_concat_iff.mp hin with hend | hin
  · exact (hending w hw hend).isInfix
  · exact (h.runs w hw hin).trans (List.prefix_append t [c]).isInfix

end HeldIn

end Text

namespace Source

/-- What a lexeme adds to a statement is its last character, or has no characters of names. -/
theorem Statement.heldIn_put {s : Statement} {read : Text} {l : Lexeme} {next : Option Char}
    (h : HeldIn s.text read) (line : Int) (hl : l.EndsBefore next) :
    HeldIn (s.put line l).text (read ++ l.spelling) := by
  cases l with
  | blank c | mark c => exact h.append_char c
  | comment body | lineComment body => exact .of_gap h.runs (by decide) rfl _
  | textBlock body => exact .of_gap h.runs (by decide) rfl _
  | literal quote body =>
    obtain ⟨rfl | rfl, -⟩ := hl
    · exact .of_gap h.runs (by simp) rfl _
    · exact .of_gap h.runs (by simp) rfl _

namespace Scan

/-- The runs of name characters in the statement and in the interrupted statements stand in what
was read. -/
structure Held (s : Scan) (read : Text) : Prop where
  statement : HeldIn s.statement.text read
  outer : ∀ scope ∈ s.scopes, ∀ o, scope.outer = some o → RunsIn o.text read

theorem held_start : Held start [] where
  statement := .nil []
  outer scope hscope := by cases hscope

theorem Held.read {s next : Scan} {read : Text} {l : Lexeme} {after : Option Char}
    (h : s.Held read) (hl : l.EndsBefore after) (hread : s.read l = .ok next) :
    next.Held (read ++ l.spelling) := by
  have houter : ∀ scope ∈ s.scopes, ∀ o, scope.outer = some o →
      RunsIn o.text (read ++ l.spelling) :=
    fun scope hscope o ho => (h.outer scope hscope o ho).append_right _
  by_cases hdivider : l.isDivider = false
  · obtain ⟨hstatement, hscopes⟩ := read_other hdivider hread
    exact ⟨hstatement ▸ Statement.heldIn_put h.statement s.line hl, hscopes ▸ houter⟩
  rcases l.cases_of_isDivider (by simpa using hdivider) with rfl | rfl | rfl
  · obtain ⟨hstatement, hscopes⟩ := read_semicolon hread
    exact ⟨hstatement ▸ .nil _, hscopes ▸ houter⟩
  · obtain ⟨hstatement, scope, hscopes, hscope⟩ := read_opening hread
    refine ⟨hstatement ▸ .nil _, ?_⟩
    rw [hscopes, List.forall_mem_cons]
    refine ⟨fun o ho => ?_, houter⟩
    rw [hscope] at ho
    split_ifs at ho
    cases ho
    exact h.statement.runs.append_right _
  · obtain ⟨scope, hscopes, hstatement⟩ := read_closing hread
    rw [hscopes, List.forall_mem_cons] at houter
    refine ⟨?_, houter.2⟩
    rw [hstatement]
    cases ho : scope.outer with
    | none => exact .nil _
    | some o =>
      have hheld : HeldIn o.resume.text (read ++ ['\x7d'] ++ []) :=
        .of_gap (houter.1 o ho) (by decide) rfl []
      rwa [List.append_nil] at hheld

theorem Reaches.held {s last : Scan} {read t u : Text} (h : Reaches s t last u)
    (hs : s.Held read) : ∃ more, t = more ++ u ∧ last.Held (read ++ more) := by
  induction h generalizing read with
  | refl s t => exact ⟨[], rfl, by rwa [List.append_nil]⟩
  | step hlexeme hread _ ih =>
    obtain ⟨more, rfl, hlast⟩ := ih (hs.read (endsBefore_of_lexeme? hlexeme) hread)
    rw [List.append_assoc] at hlast
    exact ⟨_, (lexeme?_spelling hlexeme).trans (List.append_assoc _ _ _).symm, hlast⟩

/-- A run of name characters in a statement stands in the file, before what is left to read. -/
theorem Reaches.runsIn {s : Scan} {t rest : Text} (h : Reaches start t s rest) :
    RunsIn s.statement.text t := by
  obtain ⟨more, rfl, hheld⟩ := h.held held_start
  exact hheld.statement.runs.append_right rest

/-- A scan that fails does so at a lexeme that it cannot find or cannot read. -/
theorem exists_of_readFrom_eq_error {s : Scan} {t : Text} {p : Problem}
    (h : s.readFrom t = .error p) : ∃ (last : Scan) (c : Char) (rest : Text),
      Reaches s t last (c :: rest) ∧ (lexeme? c rest = .error p.fault ∨
        ∃ l tail, lexeme? c rest = .ok (l, tail) ∧ last.read l = .error p) := by
  -- the cases are what may happen at a lexeme
  fun_induction nativeStatementsFrom s t with
  | case1 s =>
    rw [readFrom_nil] at h
    cases h
  | case2 s c rest fault hlexeme =>
    rw [s.readFrom_of_error hlexeme] at h
    cases h
    exact ⟨s, c, rest, .refl s _, .inl hlexeme⟩
  | case3 s c rest l tail hlexeme _ problem hread =>
    rw [s.readFrom_of_ok hlexeme, hread] at h
    cases h
    exact ⟨s, c, rest, .refl s _, .inr ⟨l, tail, hlexeme, hread⟩⟩
  | case4 s c rest l tail hlexeme _ next hread _ ih
  | case5 s c rest l tail hlexeme _ next hread _ ih =>
    rw [s.readFrom_of_read hlexeme hread] at h
    obtain ⟨last, d, more, hreaches, hfault⟩ := ih h
    exact ⟨last, d, more, .step hlexeme hread hreaches, hfault⟩

/-- Only a closing brace and a native statement cannot be read. -/
theorem read_eq_error {s : Scan} {l : Lexeme} {p : Problem} (h : s.read l = .error p) :
    p.fault = .strayBrace ∨ isNativeStatement s.statement.text = true := by
  obtain ⟨-, hstatement, -, -⟩ := s.dropPending_fields
  cases l with
  | mark c =>
    simp only [Scan.read, mark] at h
    split_ifs at h
    · unfold endStatement at h
      dsimp only at h
      rw [hstatement] at h
      split at h
      · next hnative => exact .inr hnative
      · cases h
    · unfold closeScope at h
      split at h
      · cases h
        exact .inl rfl
      · cases h
  | blank c | comment body | lineComment body | literal quote body | textBlock body => cases h

end Scan

/-- Faults of comments, literals and braces. Every other fault is one of a native signature or of
a parameter in it. -/
def plainFaults : List Fault := [.openComment, .openLiteral, .openTextBlock, .strayBrace]

theorem mem_plainFaults_of_lexeme? {c : Char} {rest : Text} {fault : Fault}
    (h : lexeme? c rest = .error fault) : fault ∈ plainFaults := by
  unfold lexeme? at h
  split at h
  · cases h
  split at h
  · split at h
    · cases h
    · cases h
      decide
  · cases h
  · split at h
    · cases h
    · cases h
      decide
  · split at h
    · split at h
      · cases h
      · cases h
        decide
    · cases h

/-- No statement of a file without the word is native. -/
theorem isNativeStatement_of_absent {t rest : Text} {s : Scan} (h : occursIn nativeWord t = false)
    (hreaches : Scan.Reaches .start t s rest) : isNativeStatement s.statement.text = false := by
  rw [← Bool.not_eq_true]
  intro hnative
  have hword : hasWord nativeWord s.statement.text = true := (Bool.and_eq_true_iff.mp hnative).1
  have hname : IsNameRun nativeWord := List.all_eq_true.mp rfl
  exact (occursIn_eq_false_iff nativeWord t).mp h
    (hreaches.runsIn nativeWord hname (infix_of_hasWord hword))

/-- A file that does not mention `native` holds no native method: reading it fails with a comment,
a literal or a brace only, and what it gives has no declarations and no skipped methods. -/
theorem read_of_native_absent {t : Text} (h : occursIn nativeWord t = false) :
    (∀ p, Source.read t = .error p → p.fault ∈ plainFaults) ∧
      ∀ contents, Source.read t = .ok contents →
        contents.declarations = [] ∧ contents.skipped = [] := by
  constructor
  · intro p hp
    obtain ⟨last, c, rest, hreaches, hlexeme | ⟨l, tail, -, hread⟩⟩ :=
      Scan.exists_of_readFrom_eq_error hp
    · exact mem_plainFaults_of_lexeme? hlexeme
    · rcases Scan.read_eq_error hread with hbrace | hnative
      · rw [hbrace]
        decide
      · rw [isNativeStatement_of_absent h hreaches] at hnative
        cases hnative
  · intro contents hread
    have hnone : nativeStatements t = [] := by
      refine List.eq_nil_iff_forall_not_mem.mpr fun n hn => ?_
      obtain ⟨last, hreaches, hnative, -⟩ :=
        (mem_nativeStatementsFrom_iff .start t contents hread n).mp hn
      rw [isNativeStatement_of_absent h hreaches] at hnative
      cases hnative
    obtain ⟨outcomes, hyields, hrecord⟩ := Scan.record_readFrom .start t contents hread
    rw [Scan.recordBefore_of_none _ _ rfl] at hrecord
    rw [← nativeStatements, hnone, List.forall₂_nil_left_iff] at hyields
    rw [hyields] at hrecord
    exact Prod.mk.inj hrecord

/-- A class in which a comment, braces, literals and the ends of lines part the word. -/
def partedFile : Text :=
  ("class A \x7b\n// nat\nna/**/tive void f();\nint n = g(na\x7b x; \x7dtive);\n" ++
    "String s = \"nat\" + 'i' + ve; /*JNI 1*/ \x7d").toList

def partedContents : Contents := ⟨[.raw ⟨" 1".toList, 5⟩], []⟩

theorem partedFile_contents : occursIn nativeWord partedFile = false ∧
    Source.read partedFile = .ok partedContents ∧
    partedContents.declarations = [] ∧ partedContents.skipped = [] := by
  have habsent : occursIn nativeWord partedFile = false := by decide +kernel
  have hread : Source.read partedFile = .ok partedContents :=
    eq_ok_of_toOption (by decide +kernel)
  exact ⟨habsent, hread, (read_of_native_absent habsent).2 _ hread⟩

end Source

end NativeGlue
