import NativeGlue.Proofs.Source.Clauses
import NativeGlue.Proofs.Source.NativeOutcome
import NativeGlue.Proofs.Source.Slices

/-!
Line numbers. A scan counts the line feeds of blanks, comments and text blocks, and the other
lexemes hold none unless a literal goes on over the end of its line. The line of a scan is then
one more than the line feeds it has read, and so are the lines of comments and of statements.
-/

namespace NativeGlue.Source

open Text

namespace Lexeme

/-- A literal in which a backslash stands before a line feed. -/
def breaksLine : Lexeme → Bool
  | literal _ body => occursIn "\\\n".toList body
  | _ => false

end Lexeme

theorem LiteralBody.not_mem_feed {quote : Char} {body : Text} (h : LiteralBody quote body)
    (hkept : ¬ "\\\n".toList <:+: body) : '\n' ∉ body := by
  induction h with
  | nil => exact List.not_mem_nil
  | @escape t c ht ih =>
    have hc : c ≠ '\n' := by
      rintro rfl
      exact hkept (List.prefix_append "\\\n".toList t).isInfix
    have htail := ih fun hin => hkept (hin.trans (List.suffix_append ['\\', c] t).isInfix)
    simp only [List.mem_cons, not_or]
    exact ⟨by decide, hc.symm, htail⟩
  | @plain t c hc ht ih =>
    have htail := ih fun hin => hkept (hin.trans (List.suffix_cons c t).isInfix)
    simp only [List.mem_cons, not_or]
    exact ⟨hc.2.1.symm, htail⟩

/-- What a scan counts in a lexeme is what there is. -/
theorem Lexeme.lines_eq_feeds {l : Lexeme} {next : Option Char} (h : l.EndsBefore next)
    (hkept : l.breaksLine = false) : l.lines = feeds l.spelling := by
  cases l with
  | blank c => rfl
  | comment body =>
    rw [lines, spelling, feeds_append, feeds_append]
    exact (Nat.zero_add _).symm
  | lineComment body =>
    have hbody : feeds body = 0 := List.count_eq_zero.mpr h.1
    rw [lines, spelling, feeds_append, hbody]
    rfl
  | literal quote body =>
    have hbody : '\n' ∉ body :=
      h.2.1.not_mem_feed ((occursIn_eq_false_iff _ _).mp hkept)
    have hquote : quote ≠ '\n' := by rcases h.1 with rfl | rfl <;> decide
    refine (List.count_eq_zero.mpr ?_).symm
    simp [spelling, hbody, hquote.symm]
  | textBlock body =>
    rw [lines, spelling, feeds_append, feeds_append]
    exact (Nat.zero_add _).symm
  | mark c =>
    have hc : c ≠ '\n' := by
      rintro rfl
      exact absurd h.1 (by decide)
    refine (List.count_eq_zero.mpr ?_).symm
    simp [spelling, hc.symm]

theorem linesIn_eq_feeds (ls : List Lexeme) (h : ∀ l ∈ ls, l.lines = feeds l.spelling) :
    linesIn ls = feeds (spelled ls) := by
  induction ls with
  | nil => rfl
  | cons l ls ih =>
    obtain ⟨hl, hls⟩ := List.forall_mem_cons.mp h
    rw [linesIn, hl, ih hls, ← feeds_append]
    rfl

theorem Lexed.lines_eq_feeds {ls : List Lexeme} {t : Text} (h : Lexed ls t)
    (hkept : ∀ l ∈ ls, l.breaksLine = false) (l : Lexeme) (hl : l ∈ ls) :
    l.lines = feeds l.spelling := by
  obtain ⟨next, hends⟩ := h.exists_endsBefore l hl
  exact Lexeme.lines_eq_feeds hends (hkept l hl)

/-- Equal texts at the end of a list of lexemes are the same lexemes. -/
theorem eq_of_spelled_suffix {ls ms all : List Lexeme} (hls : ls <:+ all) (hms : ms <:+ all)
    (h : spelled ls = spelled ms) : ls = ms := by
  have hshort {short long : List Lexeme} (hend : short <:+ long)
      (heq : spelled short = spelled long) : short = long := by
    obtain ⟨front, rfl⟩ := hend
    have hfront : spelled front = [] := by
      rwa [spelled_append, List.self_eq_append_left] at heq
    cases front with
    | nil => rfl
    | cons l front =>
      exact absurd (List.flatMap_eq_nil_iff.mp hfront l List.mem_cons_self) l.spelling_ne_nil
  rcases List.suffix_or_suffix_of_suffix hls hms with hend | hend
  · exact hshort hend h
  · exact (hshort hend h.symm).symm

namespace Scan

theorem run_line {s last : Scan} {ls : List Lexeme} (h : s.run ls = .ok last) :
    last.line = s.line + linesIn ls := by
  induction ls generalizing s with
  | nil =>
    cases h
    exact (Int.add_zero last.line).symm
  | cons l ls ih =>
    obtain ⟨next, hread, hrun⟩ := (run_cons_eq_ok_iff _ _ _ _).mp h
    rw [ih hrun, read_line hread, linesIn]
    omega

end Scan

/-- The lines of a segment from a comment, by the line feeds before its opener and before its
end. -/
def PlacedComment.FixesLines (p : PlacedComment) : Segment → Prop
  | .raw block => block.line = 1 + feeds (spelled p.ahead)
  | .declared d => d.startLine = 1 + feeds (spelled p.ahead) ∧
      d.endLine = 1 + feeds (spelled p.ahead ++ "/*".toList ++ p.body)
  | .linked _ => False

theorem PlacedComment.Gives.fixesLines {p : PlacedComment} {segment : Segment}
    (h : p.Gives segment) (hline : linesIn p.ahead = feeds (spelled p.ahead)) :
    p.FixesLines segment := by
  have hp : p.line = 1 + feeds (spelled p.ahead) := by rw [line, hline]
  cases segment with
  | raw block => exact h.2.trans hp
  | declared d =>
    obtain ⟨-, hbody, hstart, hstop⟩ := h
    have hopener : feeds "/*".toList = 0 := rfl
    refine ⟨hstart.trans hp, ?_⟩
    rw [hstop, hp, hbody, feeds_append, feeds_append, hopener]
    omega
  | linked m => exact h.elim

/-- What is neither a gap nor a literal is a mark. -/
theorem Lexeme.EndsBefore.exists_mark {l : Lexeme} {next : Option Char} (h : l.EndsBefore next)
    (hgap : l.isGap = false) (hliteral : l.isLiteral = false) : ∃ c, l = .mark c := by
  cases l with
  | mark c => exact ⟨c, rfl⟩
  | blank c =>
    have hblank : isBlank c = true := h
    rw [isGap, hblank] at hgap
    cases hgap
  | comment body => cases hgap
  | lineComment body => cases hgap
  | literal quote body => cases hliteral
  | textBlock body => cases hliteral

/-- A statement among the lexemes of a file, up to its semicolon: behind a boundary and a gap it
begins with `first`. -/
structure StatementPlace where
  ahead : List Lexeme
  gap : List Lexeme
  first : Lexeme
  rest : List Lexeme
  behind : List Lexeme
  deriving DecidableEq, Repr

namespace StatementPlace

def clause (p : StatementPlace) : List Lexeme := p.first :: p.rest

/-- What stands before the semicolon. -/
def front (p : StatementPlace) : List Lexeme := p.ahead ++ p.gap ++ p.clause

/-- The place is that of a native statement among the given lexemes. -/
structure Holds (p : StatementPlace) (ls : List Lexeme) (n : NativeStatement) : Prop where
  lexemes_eq : ls = p.front ++ .mark ';' :: p.behind
  behind_eq : spelled p.behind = n.after
  boundary : Boundary p.ahead
  gap : ∀ l ∈ p.gap, l.isGap = true
  clause : ∃ depth, Clause p.clause depth

end StatementPlace

theorem Clause.isGap_first {clause : List Lexeme} {depth : Nat} (h : Clause clause depth)
    {l : Lexeme} {rest : List Lexeme} (hfirst : clause = l :: rest) : l.isGap = false := by
  induction h generalizing rest with
  | nil => cases hfirst
  | @lexeme ls m depth hls hm hgap ih =>
    cases ls with
    | nil =>
      obtain ⟨rfl, -⟩ := List.cons.inj hfirst
      exact hgap rfl
    | cons k ls =>
      obtain ⟨rfl, -⟩ := List.cons.inj hfirst
      exact ih rfl
  | @braces ls body depth hls hdepth hbody ih =>
    cases ls with
    | nil =>
      obtain ⟨rfl, -⟩ := List.cons.inj hfirst
      rfl
    | cons k ls =>
      obtain ⟨rfl, -⟩ := List.cons.inj hfirst
      exact ih rfl

namespace Scan

/-- The lexemes that a scan has read before a native statement's semicolon end with that
statement. -/
theorem exists_place_of_run {ls : List Lexeme} {last : Scan} (behind : List Lexeme)
    (h : start.run ls = .ok last) (hnative : isNativeStatement last.statement.text = true) :
    ∃ p : StatementPlace, p.front = ls ∧ p.behind = behind ∧ Boundary p.ahead ∧
      (∀ l ∈ p.gap, l.isGap = true) ∧ ∃ depth, Clause p.clause depth := by
  obtain ⟨hbefore, hgap, hclause⟩ := unfinished_of_run h
  rename_i before gap clause
  cases clause with
  | nil =>
    -- a gap leaves nothing but blanks in the statement
    rw [List.append_nil] at h
    obtain ⟨next, hnext, hblanks⟩ := (run_append_eq_ok_iff _ _ _ _).mp h
    obtain ⟨hatrest, -⟩ := (atRest_of_boundary hbefore next hnext).run_gap hgap hblanks
    rw [isNativeStatement_of_blank hatrest.blank] at hnative
    cases hnative
  | cons l rest => exact ⟨⟨before, gap, l, rest, behind⟩, rfl, rfl, hbefore, hgap, _, hclause⟩

/-- A statement that begins with a mark has the line that the scan has there. -/
theorem statement_line_of_place {p : StatementPlace} {last : Scan} {c : Char} {depth : Nat}
    (hbefore : Boundary p.ahead) (hgap : ∀ l ∈ p.gap, l.isGap = true)
    (hclause : Clause p.clause depth) (hfirst : p.first = .mark c)
    (h : start.run p.front = .ok last) :
    last.statement.line = 1 + linesIn (p.ahead ++ p.gap) := by
  obtain ⟨next, hnext, hstatement⟩ := (run_append_eq_ok_iff _ _ _ _).mp h
  obtain ⟨bound, hbound, hblanks⟩ := (run_append_eq_ok_iff _ _ _ _).mp hnext
  obtain ⟨hatrest, -⟩ := (atRest_of_boundary hbefore bound hbound).run_gap hgap hblanks
  obtain ⟨-, -, hline⟩ := hatrest.run_clause hclause hstatement
  rw [(hline c p.rest (by rw [StatementPlace.clause, hfirst])).2, run_line hnext]
  rfl

end Scan

/-- The line that an outcome gives for its method. -/
def Outcome.line : Outcome → Int
  | declared d => d.signatureLine
  | skipped method => method.line

theorem NativeStatement.Yields.line_eq {n : NativeStatement} {o : Outcome} (h : n.Yields o) :
    o.line = n.statement.line := by
  obtain ⟨m, -, -, hline, rfl⟩ := h
  rw [← hline, Outcome.of]
  split <;> rfl

/-- A native statement has a place among the lexemes, and the line that the line feeds before its
first character give, unless that begins a literal. -/
theorem NativeStatement.line_of_place {t : Text} {contents : Contents} {ls : List Lexeme}
    (h : Source.read t = .ok contents) (hls : Lexed ls t)
    (hkept : ∀ l ∈ ls, l.breaksLine = false) (n : NativeStatement) (hn : n ∈ nativeStatements t) :
    (∃ p : StatementPlace, p.Holds ls n) ∧ ∀ p : StatementPlace, p.Holds ls n →
      p.first.isLiteral = false → n.statement.line = 1 + feeds (spelled (p.ahead ++ p.gap)) := by
  obtain ⟨last, hreaches, hnative, hlast⟩ :=
    (mem_nativeStatementsFrom_iff .start t contents h n).mp hn
  obtain ⟨ahead, behind, rfl, hbehind, hrun⟩ := hreaches.exists_run hls
  obtain ⟨more, rfl, hmore⟩ := hbehind.exists_cons (lexeme?_semicolon n.after)
  have hspelled := hmore.spelled_eq
  constructor
  · obtain ⟨p, rfl, rfl, hbefore, hgap, hclause⟩ :=
      Scan.exists_place_of_run more hrun hnative
    exact ⟨p, rfl, hspelled, hbefore, hgap, hclause⟩
  · rintro p ⟨hlexemes, hafter, hbefore, hgap, depth, hclause⟩ hliteral
    have hbehind : p.behind = more := by
      have hplace : p.behind <:+ ahead ++ .mark ';' :: more := by
        rw [hlexemes, List.append_cons]
        exact List.suffix_append _ _
      have hmore : more <:+ ahead ++ .mark ';' :: more := by
        rw [List.append_cons]
        exact List.suffix_append _ _
      exact eq_of_spelled_suffix hplace hmore (hafter.trans hspelled.symm)
    rw [hbehind] at hlexemes
    obtain rfl := List.append_cancel_right hlexemes
    have hmem : ∀ l ∈ p.ahead ++ p.gap,
        l ∈ p.front ++ .mark ';' :: more := by
      intro l hl
      exact List.mem_append_left _ (List.mem_append_left _ hl)
    have hlines : linesIn (p.ahead ++ p.gap) = feeds (spelled (p.ahead ++ p.gap)) :=
      linesIn_eq_feeds _ fun l hl => hls.lines_eq_feeds hkept l (hmem l hl)
    obtain ⟨next, hends⟩ := hls.exists_endsBefore p.first (by
      simp [StatementPlace.front, StatementPlace.clause])
    obtain ⟨c, hc⟩ := hends.exists_mark (hclause.isGap_first rfl) hliteral
    rw [hlast, ← hlines]
    exact Scan.statement_line_of_place hbefore hgap hclause hc hrun

/-- Where no literal goes on over the end of its line, the lines of segments and methods count the
line feeds before them. The segments come from comments of the file, in their order, and every
native statement yields a declaration or a skipped method. -/
theorem lines_count_feeds (t : Text) (contents : Contents) (ls : List Lexeme)
    (h : Source.read t = .ok contents) (hls : Lexed ls t)
    (hkept : ∀ l ∈ ls, l.breaksLine = false) :
    (∃ found : List (PlacedComment × Segment), found.map Prod.snd = contents.segments ∧
      (found.map Prod.fst).Sublist (comments ls) ∧
      ∀ f ∈ found, (f.1.slice f.2.opener f.2.code).Holds t f.2 ∧ f.1.FixesLines f.2) ∧
    ∃ outcomes, contents.declarations = outcomes.filterMap Outcome.declaration? ∧
      contents.skipped = outcomes.filterMap Outcome.skipped? ∧
      List.Forall₂ (fun (n : NativeStatement) (o : Outcome) => n.Yields o ∧
        (∃ p : StatementPlace, p.Holds ls n) ∧
        ∀ p : StatementPlace, p.Holds ls n → p.first.isLiteral = false →
          o.line = 1 + feeds (spelled (p.ahead ++ p.gap))) (nativeStatements t) outcomes := by
  constructor
  · obtain ⟨ms, last, hms, hrun, rfl⟩ := (read_eq_ok_iff t contents).mp h
    obtain rfl : ms = ls := by
      rw [lexed_iff] at hms hls
      exact (Prod.mk.inj (hms.symm.trans hls)).1
    obtain ⟨found, hsegments, hsublist, -, hgives⟩ :=
      Scan.exists_found_of_run .start last [] ms rfl hrun
    refine ⟨found, hsegments.symm.trans last.finish_segments.symm, hsublist, fun f hf => ?_⟩
    have hmem : f.1 ∈ comments ms := hsublist.subset (List.mem_map_of_mem hf)
    have hahead : f.1.ahead <+: ms := by
      obtain ⟨-, hlexemes⟩ := lexemes_of_mem_commentsFrom hmem
      exact ⟨_, hlexemes⟩
    have hlines : linesIn f.1.ahead = feeds (spelled f.1.ahead) :=
      linesIn_eq_feeds _ fun l hl => hls.lines_eq_feeds hkept l (hahead.subset hl)
    exact ⟨(hgives f hf).holds hls hmem, (hgives f hf).fixesLines hlines⟩
  · obtain ⟨outcomes, hyields, hrecord⟩ := Scan.record_readFrom .start t contents h
    rw [Scan.recordBefore_of_none _ _ rfl] at hrecord
    refine ⟨outcomes, congrArg Prod.fst hrecord, congrArg Prod.snd hrecord, ?_⟩
    refine List.forall₂_iff_get.mpr ⟨hyields.length_eq, fun i hi ho => ?_⟩
    have hyield := hyields.get hi ho
    obtain ⟨hplace, hline⟩ := NativeStatement.line_of_place h hls hkept _
      (List.get_mem (nativeStatements t) ⟨i, hi⟩)
    exact ⟨hyield, hplace, fun p hp hliteral => hyield.line_eq.trans (hline p hp hliteral)⟩

/-- A class with a text block over two lines, a method whose statement braces interrupt, a method
without code and a raw block. -/
def spreadFile : Text :=
  ("class A \x7b\nString s = \"\"\"\n  x\"\"\";\n@Names(value = \x7b\n  \"f;\"\n\x7d)\n" ++
    "native void f(); /*1;\n2;*/\n// gap\n\nnative void g();\n/*JNI 3\n*/\n\x7d").toList

def spreadContents : Contents where
  segments := [.declared ⟨['A'], ['f'], false, [], "1;\n2;".toList, 7, 8, 4⟩,
    .raw ⟨" 3\n".toList, 12⟩]
  skipped := [⟨11, ['A'], ['g']⟩]

theorem spreadFile_lines : Source.read spreadFile = .ok spreadContents ∧
    Lexed (lexemes spreadFile).1 spreadFile ∧
    ∃ outcomes, spreadContents.declarations = outcomes.filterMap Outcome.declaration? ∧
      spreadContents.skipped = outcomes.filterMap Outcome.skipped? ∧
      List.Forall₂ (fun (n : NativeStatement) (o : Outcome) => n.Yields o ∧
        (∃ p : StatementPlace, p.Holds (lexemes spreadFile).1 n) ∧
        ∀ p : StatementPlace, p.Holds (lexemes spreadFile).1 n → p.first.isLiteral = false →
          o.line = 1 + feeds (spelled (p.ahead ++ p.gap))) (nativeStatements spreadFile)
        outcomes := by
  have hread : Source.read spreadFile = .ok spreadContents :=
    eq_ok_of_toOption (by decide +kernel)
  have hlexed : Lexed (lexemes spreadFile).1 spreadFile :=
    (lexed_iff _ _).mpr (Prod.ext rfl (by decide +kernel))
  have hkept : ∀ l ∈ (lexemes spreadFile).1, l.breaksLine = false := by decide +kernel
  exact ⟨hread, hlexed, (lines_count_feeds _ _ _ hread hlexed hkept).2⟩

end NativeGlue.Source
