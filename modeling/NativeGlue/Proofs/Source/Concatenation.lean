import NativeGlue.Proofs.Source.Clauses
import NativeGlue.Proofs.Source.NativeOutcome
import NativeGlue.Proofs.Source.Simulation
import NativeGlue.Proofs.Source.Slices

/-!
Source files one after the other. Behind a file that leaves no brace open and nothing but blanks
in its statement, a scan is like one that starts, save for its line and what it has found: no
method waits, since methods wait inside classes only, and nothing of a statement is left. What
stands there is therefore read as if it were a file of its own, on later lines.
-/

namespace NativeGlue.Source

open Text

namespace Scan

/-- A method waits inside a class only, and a statement of blanks is an empty one. -/
structure Settled (s : Scan) : Prop where
  waits : s.pending.isSome = true → s.scopes ≠ []
  empty : (∀ c ∈ s.statement.text, isBlank c = true) →
    s.statement.begun = false ∧ s.statement.depth = 0

theorem owner_of_nil {s : Scan} (h : s.scopes = []) : s.owner = none := by
  rw [owner, h]
  rfl

theorem read_waits {s next : Scan} {l : Lexeme} (hs : s.pending.isSome = true → s.scopes ≠ [])
    (h : s.read l = .ok next) : next.pending.isSome = true → next.scopes ≠ [] := by
  have hnone {scan : Scan} (hscan : scan.pending = s.dropPending.pending) :
      scan.pending.isSome = true → scan.scopes ≠ [] := by
    rw [hscan, dropPending_pending]
    exact nofun
  cases l with
  | blank c =>
    cases h
    exact hs
  | comment body =>
    cases h
    intro hsome
    rw [s.comment_pending] at hsome
    cases hsome
  | lineComment body =>
    cases h
    exact hnone rfl
  | literal quote body =>
    cases h
    exact hnone rfl
  | textBlock body =>
    cases h
    exact hnone rfl
  | mark c =>
    rcases mark_cases h with ⟨-, h⟩ | ⟨-, rfl⟩ | ⟨-, h⟩ | ⟨-, -, -, rfl⟩
    · rcases endStatement_cases h with ⟨-, rfl⟩ | ⟨-, m, hm, rfl⟩
      · exact hnone rfl
      · intro _ hnil
        have hnone : s.dropPending.owner = none := owner_of_nil hnil
        have howner := (readNativeMethod_cases hm).1
        rw [hnone] at howner
        cases howner
    · exact hnone rfl
    · obtain ⟨scope, scopes, -, rfl⟩ := closeScope_cases h
      exact hnone rfl
    · exact hnone rfl

end Scan

/-- A statement of blanks got nothing but blanks. -/
theorem Statement.put_empty {s : Statement} {line : Int} {l : Lexeme} {next : Option Char}
    (hl : l.EndsBefore next)
    (hs : (∀ c ∈ s.text, isBlank c = true) → s.begun = false ∧ s.depth = 0)
    (hblank : ∀ c ∈ (s.put line l).text, isBlank c = true) :
    (s.put line l).begun = false ∧ (s.put line l).depth = 0 := by
  have hnever {t : Text} {c : Char} (hc : isBlank c = false) (hin : c ∈ t)
      (ht : ∀ d ∈ t, isBlank d = true) : False := by
    rw [ht c hin] at hc
    cases hc
  have hfront {u : Text} (ht : ∀ d ∈ s.text ++ u, isBlank d = true) :
      s.begun = false ∧ s.depth = 0 := hs fun d hd => ht d (List.mem_append_left u hd)
  cases l with
  | blank c => exact hfront hblank
  | comment body => exact hfront hblank
  | lineComment body => exact hfront hblank
  | literal quote body =>
    have hquote : isBlank quote = false := by rcases hl.1 with rfl | rfl <;> rfl
    exact (hnever hquote (by simp [put, putText]) hblank).elim
  | textBlock body =>
    have hquote : '"' ∈ (s.put line (.textBlock body)).text := by simp [put, putText]
    exact (hnever rfl hquote hblank).elim
  | mark c => exact (hnever hl.1 (by simp [put, putText]) hblank).elim

namespace Scan

theorem read_settled {s next : Scan} {l : Lexeme} {char : Option Char} (hl : l.EndsBefore char)
    (hs : s.Settled) (h : s.read l = .ok next) : next.Settled := by
  refine ⟨read_waits hs.waits h, ?_⟩
  cases hdivider : l.isDivider with
  | false =>
    rw [(read_other hdivider h).1]
    exact Statement.put_empty hl hs.empty
  | true =>
    obtain rfl | rfl | rfl := l.cases_of_isDivider hdivider
    · rw [(read_semicolon h).1]
      exact fun _ => ⟨rfl, rfl⟩
    · rw [(read_opening h).1]
      exact fun _ => ⟨rfl, rfl⟩
    · obtain ⟨scope, -, hstatement⟩ := read_closing h
      rw [hstatement]
      cases scope.outer with
      | none => exact fun _ => ⟨rfl, rfl⟩
      | some outer =>
        -- the braces leave a trace that is no blank
        intro hblank
        have hbrace := hblank '{' (by simp [Statement.resume])
        cases hbrace

theorem run_settled {s last : Scan} {ls : List Lexeme} {t : Text} (hls : Lexed ls t)
    (hs : s.Settled) (h : s.run ls = .ok last) : last.Settled := by
  refine run_induction (fun l hl s next hread hs => ?_) h hs
  obtain ⟨char, hends⟩ := hls.exists_endsBefore l hl
  exact read_settled hends hs hread

theorem start_settled : start.Settled where
  waits := nofun
  empty := fun _ => ⟨rfl, rfl⟩

end Scan

theorem Lexed.eq_nil {ls : List Lexeme} (h : Lexed ls []) : ls = [] := by
  rw [lexed_iff, lexemes.eq_def] at h
  exact (Prod.mk.inj h).1.symm

/-- A lexeme that ends with a line feed ends there whatever follows. -/
theorem Lexeme.EndsBefore.of_feed {l : Lexeme} {next : Option Char} (h : l.EndsBefore next)
    (hfeed : l.spelling.getLast? = some '\n') (next' : Option Char) : l.EndsBefore next' := by
  have hmem := List.mem_of_getLast? hfeed
  cases l with
  | blank c => exact h
  | comment body => exact h
  | lineComment body =>
    have hin : '\n' ∈ body := by simpa [spelling] using hmem
    exact absurd hin h.1
  | literal quote body =>
    rw [spelling, List.getLast?_concat] at hfeed
    have hquote : quote = '\n' := Option.some.inj hfeed
    rcases h.1 with hq | hq <;> rw [hquote] at hq <;> cases hq
  | textBlock body => exact h
  | mark c =>
    obtain rfl : '\n' = c := by simpa [spelling] using hmem
    exact absurd h.1 (by decide)

/-- The lexemes of a text that ends with a line feed are read whatever follows it. -/
theorem Lexed.reaches_append {ls : List Lexeme} {a : Text} (h : Lexed ls a)
    (hend : a = [] ∨ a.getLast? = some '\n') (b : Text) {s last : Scan}
    (hrun : s.run ls = .ok last) : Scan.Reaches s (a ++ b) last b := by
  induction h generalizing s with
  | nil =>
    cases hrun
    exact .refl _ b
  | @cons l ls t hl hls ih =>
    obtain ⟨next, hread, hlater⟩ := (Scan.run_cons_eq_ok_iff _ _ _ _).mp hrun
    have hsplit : l.EndsBefore (t ++ b).head? ∧ (t = [] ∨ t.getLast? = some '\n') := by
      rcases hend with hnil | hfeed
      · exact absurd (List.append_eq_nil_iff.mp hnil).1 l.spelling_ne_nil
      cases t with
      | nil =>
        rw [List.append_nil] at hfeed
        exact ⟨hl.of_feed hfeed _, .inl rfl⟩
      | cons c t =>
        rw [List.getLast?_append_of_ne_nil _ (List.cons_ne_nil c t)] at hfeed
        exact ⟨hl, .inr hfeed⟩
    obtain ⟨c, rest, hspelling, hlexeme⟩ := lexeme?_of_endsBefore l (t ++ b) hsplit.1
    rw [List.append_assoc, hspelling]
    exact .step hlexeme hread (ih hsplit.2 hlater)

/-- A scan behind a finished file is like one that starts. -/
theorem Scan.Settled.start_like {s : Scan} (hs : s.Settled) (hscopes : s.scopes = [])
    (hblank : ∀ c ∈ s.statement.text, isBlank c = true) :
    Scan.start.Like (· + (s.line - 1)) id s.finish s := by
  have hpending : s.pending = none := by
    by_contra hsome
    exact hs.waits (Option.isSome_iff_ne_none.mpr hsome) hscopes
  obtain ⟨hbegun, hdepth⟩ := hs.empty hblank
  refine ⟨?_, ?_, ?_, ?_, ?_⟩
  · simp only [start, id_eq]
    omega
  · refine ⟨?_, hbegun.symm, hdepth.symm, nofun, fun _ _ hc => absurd hc List.not_mem_nil, nofun⟩
    have hspace : ∀ c ∈ ' ' :: s.statement.text, isBlank c = true :=
      List.forall_mem_cons.mpr ⟨rfl, hblank⟩
    exact (collapse_blanks (List.cons_ne_nil ' ' _) hspace).symm
  · rw [hscopes]
    exact .nil
  · rw [hpending]
    rfl
  · have hfinish : s.finish = s.found := by simp only [finish, dropPending, hpending, found]
    rw [Contents.mapLines_id, hfinish]
    exact (Contents.add_none s.found).symm

/-- A file behind another one, which ends with a line feed, leaves no brace open and has nothing
but blanks behind its last statement, is read as on its own, but on later lines. -/
theorem read_append (a b : Text) (contents : Contents) (s : Scan) (ha : read a = .ok contents)
    (hend : a.getLast? = some '\n') (hs : Scan.Reaches .start a s []) (hscopes : s.scopes = [])
    (hblank : ∀ c ∈ s.statement.text, isBlank c = true) :
    (∀ found, read b = .ok found →
      read (a ++ b) = .ok (contents.add (found.mapLines (· + (s.line - 1))))) ∧
    ∀ problem, read b = .error problem →
      read (a ++ b) = .error (problem.mapLines (· + (s.line - 1))) := by
  obtain ⟨ls, last, hls, hrun, rfl⟩ := (read_eq_ok_iff a contents).mp ha
  obtain rfl : last = s := by
    obtain ⟨ahead, behind, rfl, hbehind, hahead⟩ := hs.exists_run hls
    rw [hbehind.eq_nil, List.append_nil, hahead] at hrun
    exact (Except.ok.inj hrun).symm
  have hagree := ((Scan.run_settled hls Scan.start_settled hrun).start_like hscopes hblank).readFrom
    (fun x y n hxy => by simp only [id_eq] at hxy ⊢; omega) b
  rw [← Scan.read_eq_readFrom,
    ← (hls.reaches_append (.inr hend) b hrun).readFrom_eq, ← Scan.read_eq_readFrom] at hagree
  generalize read b = x at hagree
  generalize read (a ++ b) = y at hagree
  cases hagree with
  | ok hsame =>
    refine ⟨?_, nofun⟩
    rintro found ⟨⟩
    rw [Contents.mapLines_id] at hsame
    rw [hsame]
  | error hsame =>
    refine ⟨nofun, ?_⟩
    rintro problem ⟨⟩
    exact congrArg Except.error hsame.symm

/-- A class, and a raw block and a line comment behind it. -/
def topFile : Text :=
  "import x;\nclass A \x7b\nnative void f(); /*1*/\n\x7d\n/*JNI 2*/ // end\n".toList

def topContents : Contents where
  segments := [.declared ⟨['A'], ['f'], false, [], ['1'], 3, 3, 3⟩, .raw ⟨" 2".toList, 5⟩]
  skipped := []

/-- The scan behind it, with the line of the last statement that began. -/
def topScan : Scan :=
  ⟨6, ⟨"\n   \n".toList, 3, false, 0⟩, [], none, topContents.segments, []⟩

/-- A class whose method gets no code. -/
def nextFile : Text := "class B \x7b\nnative void g();\n\x7d".toList

theorem topFile_append : Scan.Reaches .start topFile topScan [] ∧
    read (topFile ++ nextFile) = .ok ⟨topContents.segments, [⟨7, ['B'], ['g']⟩]⟩ ∧
    read (topFile ++ ['\n', '}']) = .error ⟨7, .strayBrace⟩ := by
  have hread : read topFile = .ok topContents := eq_ok_of_toOption (by decide +kernel)
  have hnext : read nextFile = .ok ⟨[], [⟨2, ['B'], ['g']⟩]⟩ :=
    eq_ok_of_toOption (by decide +kernel)
  have hstray : read ['\n', '}'] = .error ⟨2, .strayBrace⟩ := by
    rw [Scan.read_eq_readFrom, Scan.readFrom_of_read .start (lexeme?_blank '\n' _ rfl) rfl,
      Scan.readFrom_of_ok _ (lexeme?_ordinary '}' [] rfl (by decide))]
    rfl
  have hlexed : Lexed (lexemes topFile).1 topFile :=
    (lexed_iff _ _).mpr (Prod.ext rfl (by decide +kernel))
  have hrun : Scan.start.run (lexemes topFile).1 = .ok topScan :=
    eq_ok_of_toOption (by decide +kernel)
  have hreaches := hlexed.reaches_append (.inr (by decide)) [] hrun
  rw [List.append_nil] at hreaches
  have happend (b : Text) := read_append topFile b topContents topScan hread (by decide) hreaches
    rfl (List.all_eq_true.mp (by decide))
  exact ⟨hreaches, (happend nextFile).1 _ hnext, (happend ['\n', '}']).2 _ hstray⟩

end NativeGlue.Source
