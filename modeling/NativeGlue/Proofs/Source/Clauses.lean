import NativeGlue.Proofs.Source.Lexing
import NativeGlue.Proofs.Source.Passage

/-!
Statements among the lexemes of a source file. A statement begins behind a boundary: the start of
the file, a semicolon, an opening brace, or a closing brace whose opening brace stands outside
parentheses. Braces inside parentheses interrupt it, and what stands between them does not belong
to it. These rules do not mention a scan. A scan obeys them: behind a boundary its statement is
empty, and whatever it has read is a boundary, a gap and the statement so far.
-/

namespace NativeGlue.Source

open Text

namespace Lexeme

/-- Lexemes that leave nothing but a blank in a statement. -/
def isGap : Lexeme → Bool
  | blank c => isBlank c
  | comment _ | lineComment _ => true
  | _ => false

def isLiteral : Lexeme → Bool
  | literal _ _ | textBlock _ => true
  | _ => false

/-- The marks at which statements end or are interrupted. -/
def isDivider (l : Lexeme) : Bool := [mark ';', mark '{', mark '}'].contains l

/-- The open parentheses after a lexeme. -/
def depthAfter (depth : Nat) : Lexeme → Nat
  | mark c => Scan.depthAfter depth c
  | _ => depth

end Lexeme

def braced (body : List Lexeme) : List Lexeme := .mark '{' :: (body ++ [.mark '}'])

/-- Lexemes whose braces match. -/
inductive Balanced : List Lexeme → Prop
  | nil : Balanced []
  | other {ls : List Lexeme} {l : Lexeme} (hls : Balanced ls)
    (hl : l ≠ .mark '{' ∧ l ≠ .mark '}') : Balanced (ls ++ [l])
  | group {ls body : List Lexeme} (hls : Balanced ls) (hbody : Balanced body) :
    Balanced (ls ++ braced body)

/-- The lexemes of one statement from its first one on, and the parentheses open behind them.
Braces belong to it inside parentheses only. -/
inductive Clause : List Lexeme → Nat → Prop
  | nil : Clause [] 0
  | lexeme {ls : List Lexeme} {l : Lexeme} {depth : Nat} (hls : Clause ls depth)
    (hl : l.isDivider = false) (hfirst : ls = [] → l.isGap = false) :
    Clause (ls ++ [l]) (l.depthAfter depth)
  | braces {ls body : List Lexeme} {depth : Nat} (hls : Clause ls depth) (hdepth : 0 < depth)
    (hbody : Balanced body) : Clause (ls ++ braced body) depth

/-- A statement may begin behind these lexemes. -/
inductive Boundary : List Lexeme → Prop
  | start : Boundary []
  | semicolon (ls : List Lexeme) : Boundary (ls ++ [.mark ';'])
  | opening (ls : List Lexeme) : Boundary (ls ++ [.mark '{'])
  | closing {before gap clause body : List Lexeme} (hbefore : Boundary before)
    (hgap : ∀ l ∈ gap, l.isGap = true) (hclause : Clause clause 0) (hbody : Balanced body) :
    Boundary (before ++ gap ++ clause ++ braced body)

/-- Lexemes that end with the beginning of a statement. -/
inductive Unfinished : List Lexeme → Nat → Prop
  | mk {before gap clause : List Lexeme} {depth : Nat} (hbefore : Boundary before)
    (hgap : ∀ l ∈ gap, l.isGap = true) (hclause : Clause clause depth) :
    Unfinished (before ++ gap ++ clause) depth

/-- The open scopes stand for the open braces among the lexemes. One that has interrupted a
statement keeps the depth at which it did. -/
inductive Enclosed : List Scope → List Lexeme → Prop
  | outermost (ls : List Lexeme) : Enclosed [] ls
  | inside {scope : Scope} {scopes : List Scope} {before body : List Lexeme} {depth : Nat}
    (hbefore : Unfinished before depth)
    (houter : scope.outer.map Statement.depth = if depth = 0 then none else some depth)
    (hbody : Balanced body) (hscopes : Enclosed scopes before) :
    Enclosed (scope :: scopes) (before ++ .mark '{' :: body)

theorem Boundary.unfinished {ls : List Lexeme} (h : Boundary ls) : Unfinished ls 0 := by
  have hnone : ∀ l ∈ ([] : List Lexeme), l.isGap = true := fun l hl => absurd hl List.not_mem_nil
  simpa using Unfinished.mk h hnone .nil

/-- A statement goes on with any lexeme that does not divide statements. -/
theorem Unfinished.other {ls : List Lexeme} {depth : Nat} {l : Lexeme} (h : Unfinished ls depth)
    (hl : l.isDivider = false) : Unfinished (ls ++ [l]) (l.depthAfter depth) := by
  obtain ⟨hbefore, hgap, hclause⟩ := h
  rename_i before gap clause
  by_cases hfirst : clause = [] → l.isGap = false
  · have hmore := Unfinished.mk hbefore hgap (hclause.lexeme hl hfirst)
    rwa [← List.append_assoc] at hmore
  · obtain ⟨rfl, hl⟩ : clause = [] ∧ l.isGap = true := by simpa using hfirst
    have hdepth : l.depthAfter depth = depth := by
      cases l with
      | mark c => cases hl
      | _ => rfl
    have hmore : ∀ m ∈ gap ++ [l], m.isGap = true := by
      intro m hm
      rcases List.mem_append.mp hm with hm | hm
      · exact hgap m hm
      · rwa [List.mem_singleton.mp hm]
    rw [hdepth]
    simpa using Unfinished.mk hbefore hmore hclause

theorem Enclosed.other {scopes : List Scope} {ls : List Lexeme} {l : Lexeme}
    (h : Enclosed scopes ls) (hl : l ≠ .mark '{' ∧ l ≠ .mark '}') :
    Enclosed scopes (ls ++ [l]) := by
  cases h with
  | outermost => exact .outermost _
  | inside hbefore houter hbody hscopes =>
    rw [List.append_assoc]
    exact .inside hbefore houter (hbody.other hl) hscopes

theorem Enclosed.group {scopes : List Scope} {ls body : List Lexeme} (h : Enclosed scopes ls)
    (hbody : Balanced body) : Enclosed scopes (ls ++ braced body) := by
  cases h with
  | outermost => exact .outermost _
  | inside hbefore houter hinner hscopes =>
    rw [List.append_assoc]
    exact .inside hbefore houter (hinner.group hbody) hscopes

theorem Lexeme.ne_brace_of_isDivider {l : Lexeme} (h : l.isDivider = false) :
    l ≠ .mark '{' ∧ l ≠ .mark '}' := by
  constructor <;> rintro rfl <;> simp [isDivider] at h

theorem Lexeme.cases_of_isDivider {l : Lexeme} (h : l.isDivider = true) :
    l = .mark ';' ∨ l = .mark '{' ∨ l = .mark '}' := by
  simpa [isDivider] using h

/-- A statement with one more lexeme that does not divide statements. -/
def Statement.put (s : Statement) (line : Int) : Lexeme → Statement
  | .blank c => s.putBlank c
  | .comment _ | .lineComment _ => s.putBlank ' '
  | .literal quote _ => s.putText line [quote, quote]
  | .textBlock body => s.putText (line + feeds body) "\"\"".toList
  | .mark c => { s with depth := Scan.depthAfter s.depth c }.putText line [c]

theorem Statement.put_depth (s : Statement) (line : Int) (l : Lexeme) :
    (s.put line l).depth = l.depthAfter s.depth := by
  cases l <;> rfl

/-- A statement keeps the line on which it began. -/
theorem Statement.put_line (s : Statement) (line : Int) (l : Lexeme) (h : s.begun = true) :
    (s.put line l).begun = true ∧ (s.put line l).line = s.line := by
  cases l <;> simp [put, putBlank, putText, h]

/-- It begins with its first lexeme other than a gap, on the line of that. -/
theorem Statement.put_first (s : Statement) (line : Int) (c : Char) (h : s.begun = false) :
    (s.put line (.mark c)).begun = true ∧ (s.put line (.mark c)).line = line := by
  simp [put, putText, h]

namespace Scan

theorem run_append_eq_ok_iff (s last : Scan) (ls more : List Lexeme) :
    s.run (ls ++ more) = .ok last ↔ ∃ next, s.run ls = .ok next ∧ next.run more = .ok last := by
  rw [run_append]
  cases s.run ls with
  | error problem => exact ⟨nofun, nofun⟩
  | ok next => exact ⟨fun h => ⟨next, rfl, h⟩, fun ⟨_, hnext, h⟩ => Except.ok.inj hnext ▸ h⟩

theorem run_singleton (s : Scan) (l : Lexeme) : s.run [l] = s.read l := by
  rw [run_cons]
  cases s.read l <;> rfl

theorem run_concat_eq_ok_iff (s last : Scan) (ls : List Lexeme) (l : Lexeme) :
    s.run (ls ++ [l]) = .ok last ↔ ∃ next, s.run ls = .ok next ∧ next.read l = .ok last := by
  simp only [run_append_eq_ok_iff, run_singleton]

/-- Whatever a comment holds, the statement goes on behind it. -/
theorem commentSegment_statement (s : Scan) (body : Text) (lastLine : Int) :
    (s.commentSegment body lastLine).statement = s.statement := by
  obtain ⟨-, hstatement, -, -⟩ := s.dropPending_fields
  unfold commentSegment
  split
  · exact hstatement
  split
  · split
    · exact hstatement
    · rfl
  · rfl

/-- A lexeme that divides no statements goes into the current one. -/
theorem read_other {s next : Scan} {l : Lexeme} (hl : l.isDivider = false)
    (h : s.read l = .ok next) :
    next.statement = s.statement.put s.line l ∧ next.scopes = s.scopes := by
  obtain ⟨hopen, hclose⟩ := l.ne_brace_of_isDivider hl
  refine ⟨?_, (read_fields h).1 hopen hclose⟩
  obtain ⟨hline, hstatement, -, -⟩ := s.dropPending_fields
  cases l with
  | blank c =>
    cases h
    rfl
  | comment body =>
    cases h
    simp only [comment, commentSegment_statement]
    rfl
  | lineComment body =>
    cases h
    simp only [blank, hstatement]
    rfl
  | literal quote body =>
    cases h
    simp only [putText, hstatement, hline]
    rfl
  | textBlock body =>
    cases h
    simp only [textBlock, putText, hstatement, hline]
    rfl
  | mark c =>
    rcases mark_cases h with ⟨rfl, -⟩ | ⟨rfl, -⟩ | ⟨rfl, -⟩ | ⟨-, -, -, rfl⟩
    · simp [Lexeme.isDivider] at hl
    · simp at hopen
    · simp at hclose
    · simp only [putMark, putText, hstatement, hline]
      rfl

theorem read_semicolon {s next : Scan} (h : s.read (.mark ';') = .ok next) :
    next.statement = s.statement.clear ∧ next.scopes = s.scopes := by
  obtain ⟨-, hstatement, hscopes, -⟩ := s.dropPending_fields
  rw [← hstatement, ← hscopes]
  rcases endStatement_cases h with ⟨-, rfl⟩ | ⟨-, m, -, rfl⟩ <;> exact ⟨rfl, rfl⟩

/-- An opening brace begins a scope, which keeps the statement if parentheses are open. -/
theorem read_opening {s next : Scan} (h : s.read (.mark '{') = .ok next) :
    next.statement = s.statement.clear ∧ ∃ scope, next.scopes = scope :: s.scopes ∧
      scope.outer = if s.statement.depth = 0 then none else some s.statement := by
  obtain ⟨-, hstatement, hscopes, -⟩ := s.dropPending_fields
  cases h
  rw [← hstatement, ← hscopes]
  refine ⟨rfl, _, rfl, ?_⟩
  by_cases hdepth : s.dropPending.statement.depth = 0
  · simp [hdepth]
  · rw [if_pos (Nat.pos_of_ne_zero hdepth), if_neg hdepth]

theorem read_closing {s next : Scan} (h : s.read (.mark '}') = .ok next) :
    ∃ scope, s.scopes = scope :: next.scopes ∧
      next.statement = (scope.outer.map Statement.resume).getD s.statement.clear := by
  obtain ⟨-, hstatement, hscopes, -⟩ := s.dropPending_fields
  obtain ⟨scope, scopes, heq, rfl⟩ := closeScope_cases h
  exact ⟨scope, hscopes.symm.trans heq, by rw [← hstatement]⟩

/-- Braces around lexemes that keep the scopes: the scopes are kept, and the statement goes on if
parentheses were open and is over otherwise. -/
theorem run_braced {s last : Scan} {body : List Lexeme}
    (hkeeps : ∀ t u : Scan, t.run body = .ok u → u.scopes = t.scopes)
    (h : s.run (braced body) = .ok last) : last.scopes = s.scopes ∧ ∃ inner : Statement,
      last.statement = if s.statement.depth = 0 then inner.clear else s.statement.resume := by
  obtain ⟨opened, hopen, hrun⟩ := (run_cons_eq_ok_iff _ _ _ _).mp h
  obtain ⟨inside, hinside, hclose⟩ := (run_concat_eq_ok_iff _ _ _ _).mp hrun
  obtain ⟨-, scope, hopened, houter⟩ := read_opening hopen
  obtain ⟨closed, hclosed, hstatement⟩ := read_closing hclose
  rw [hkeeps opened inside hinside, hopened] at hclosed
  obtain ⟨rfl, hscopes⟩ := List.cons.inj hclosed
  refine ⟨hscopes.symm, inside.statement, ?_⟩
  rw [hstatement, houter]
  split <;> rfl

/-- Lexemes whose braces match leave the open scopes as they were. -/
theorem run_balanced {ls : List Lexeme} (h : Balanced ls) (s last : Scan)
    (hrun : s.run ls = .ok last) : last.scopes = s.scopes := by
  induction h generalizing s last with
  | nil =>
    cases hrun
    rfl
  | other hls hl ih =>
    obtain ⟨next, hnext, hread⟩ := (run_concat_eq_ok_iff _ _ _ _).mp hrun
    exact ((read_fields hread).1 hl.1 hl.2).trans (ih s next hnext)
  | group hls hbody ih ihbody =>
    obtain ⟨next, hnext, hbraced⟩ := (run_append_eq_ok_iff _ _ _ _).mp hrun
    exact (run_braced ihbody hbraced).1.trans (ih s next hnext)

theorem AtRest.run_gap {s last : Scan} {gap : List Lexeme} (hs : s.AtRest)
    (hgap : ∀ l ∈ gap, l.isGap = true) (h : s.run gap = .ok last) :
    last.AtRest ∧ last.scopes = s.scopes := by
  induction gap generalizing s with
  | nil =>
    cases h
    exact ⟨hs, rfl⟩
  | cons l gap ih =>
    obtain ⟨next, hread, hrun⟩ := (run_cons_eq_ok_iff _ _ _ _).mp h
    obtain ⟨hl, hlater⟩ := List.forall_mem_cons.mp hgap
    have hdivider : l.isDivider = false := by
      cases l with
      | mark c => cases hl
      | _ => rfl
    obtain ⟨hstatement, hscopes⟩ := read_other hdivider hread
    have hnext : next.AtRest := by
      cases l with
      | blank c => exact hs.putBlank s next c hl hstatement
      | comment body => exact hs.putBlank s next ' ' rfl hstatement
      | lineComment body => exact hs.putBlank s next ' ' rfl hstatement
      | _ => cases hl
    obtain ⟨hlast, hkept⟩ := ih hnext hlater hrun
    exact ⟨hlast, hkept.trans hscopes⟩

/-- A statement keeps the open scopes, also where braces interrupt it, and the line of its first
lexeme. -/
theorem AtRest.run_clause {s last : Scan} {clause : List Lexeme} {depth : Nat} (hs : s.AtRest)
    (hclause : Clause clause depth) (h : s.run clause = .ok last) :
    last.scopes = s.scopes ∧ last.statement.depth = depth ∧
      ∀ c rest, clause = .mark c :: rest →
        last.statement.begun = true ∧ last.statement.line = s.line := by
  induction hclause generalizing last with
  | nil =>
    cases h
    exact ⟨rfl, hs.level, nofun⟩
  | @lexeme ls l depth hls hl hfirst ih =>
    obtain ⟨next, hnext, hread⟩ := (run_concat_eq_ok_iff _ _ _ _).mp h
    obtain ⟨hscopes, hdepth, hline⟩ := ih hnext
    obtain ⟨hstatement, hkept⟩ := read_other hl hread
    refine ⟨hkept.trans hscopes, by rw [hstatement, Statement.put_depth, hdepth], ?_⟩
    intro c rest heq
    rw [hstatement]
    cases ls with
    | nil =>
      cases hnext
      obtain ⟨rfl, -⟩ := List.cons.inj heq
      exact s.statement.put_first s.line c hs.fresh
    | cons m ls =>
      obtain ⟨rfl, -⟩ := List.cons.inj heq
      obtain ⟨hbegun, hfirstline⟩ := hline c ls rfl
      rw [← hfirstline]
      exact next.statement.put_line next.line l hbegun
  | @braces ls body depth hls hpos hbody ih =>
    obtain ⟨next, hnext, hbraced⟩ := (run_append_eq_ok_iff _ _ _ _).mp h
    obtain ⟨hscopes, hdepth, hline⟩ := ih hnext
    obtain ⟨hkept, inner, hstatement⟩ := run_braced (run_balanced hbody) hbraced
    rw [hdepth, if_neg (Nat.ne_of_gt hpos)] at hstatement
    refine ⟨hkept.trans hscopes, by rw [hstatement]; exact hdepth, ?_⟩
    intro c rest heq
    rw [hstatement]
    cases ls with
    | nil =>
      -- braces cannot come first, since no parenthesis is open there
      cases hnext
      rw [hs.level] at hdepth
      exact absurd hdepth (Nat.ne_of_lt hpos)
    | cons m ls =>
      obtain ⟨rfl, -⟩ := List.cons.inj heq
      exact hline c ls rfl

/-- Behind a boundary the statement of a scan is empty. -/
theorem atRest_of_boundary {before : List Lexeme} (h : Boundary before) (last : Scan)
    (hrun : start.run before = .ok last) : last.AtRest := by
  induction h generalizing last with
  | start =>
    cases hrun
    exact ⟨fun c hc => absurd hc List.not_mem_nil, rfl, rfl⟩
  | semicolon ls =>
    obtain ⟨next, -, hread⟩ := (run_concat_eq_ok_iff _ _ _ _).mp hrun
    exact .of_clear last next.statement (read_semicolon hread).1
  | opening ls =>
    obtain ⟨next, -, hread⟩ := (run_concat_eq_ok_iff _ _ _ _).mp hrun
    exact .of_clear last next.statement (read_opening hread).1
  | closing hbefore hgap hclause hbody ih =>
    obtain ⟨next, hnext, hbraced⟩ := (run_append_eq_ok_iff _ _ _ _).mp hrun
    obtain ⟨first, hfirst, hstatement⟩ := (run_append_eq_ok_iff _ _ _ _).mp hnext
    obtain ⟨rest, hrest, hblanks⟩ := (run_append_eq_ok_iff _ _ _ _).mp hfirst
    obtain ⟨hatrest, -⟩ := (ih rest hrest).run_gap hgap hblanks
    obtain ⟨-, hdepth, -⟩ := hatrest.run_clause hclause hstatement
    obtain ⟨-, inner, hclear⟩ := run_braced (run_balanced hbody) hbraced
    rw [if_pos hdepth] at hclear
    exact .of_clear last inner hclear

/-- One lexeme: the lexemes read so far end with the statement of the scan, and the open braces
among them are its open scopes. -/
theorem read_enclosed {s next : Scan} {ls : List Lexeme} {l : Lexeme}
    (hstatement : Unfinished ls s.statement.depth) (hscopes : Enclosed s.scopes ls)
    (h : s.read l = .ok next) :
    Unfinished (ls ++ [l]) next.statement.depth ∧ Enclosed next.scopes (ls ++ [l]) := by
  cases hl : l.isDivider with
  | false =>
    obtain ⟨hput, hkept⟩ := read_other hl h
    rw [hput, Statement.put_depth, hkept]
    exact ⟨hstatement.other hl, hscopes.other (l.ne_brace_of_isDivider hl)⟩
  | true =>
    obtain rfl | rfl | rfl := l.cases_of_isDivider hl
    · obtain ⟨hclear, hkept⟩ := read_semicolon h
      rw [hclear, hkept]
      exact ⟨(Boundary.semicolon ls).unfinished, hscopes.other (by decide)⟩
    · obtain ⟨hclear, scope, hopened, houter⟩ := read_opening h
      rw [hclear, hopened]
      refine ⟨(Boundary.opening ls).unfinished, .inside hstatement ?_ .nil hscopes⟩
      rw [houter]
      split <;> rfl
    · obtain ⟨scope, hopen, hclosed⟩ := read_closing h
      rw [hopen] at hscopes
      generalize hall : ls ++ [.mark '}'] = all
      cases hscopes with
      | @inside _ _ before body depth hbefore houter hbody hscopes =>
        obtain rfl : before ++ braced body = all := by
          rw [← hall]
          simp [braced]
        refine ⟨?_, hscopes.group hbody⟩
        rw [hclosed]
        obtain ⟨hboundary, hgap, hclause⟩ := hbefore
        by_cases hdepth : depth = 0
        · rw [if_pos hdepth, Option.map_eq_none_iff] at houter
          subst hdepth
          rw [houter]
          exact (Boundary.closing hboundary hgap hclause hbody).unfinished
        · rw [if_neg hdepth] at houter
          obtain ⟨outer, hsome, rfl⟩ := Option.map_eq_some_iff.mp houter
          rw [hsome, List.append_assoc]
          exact .mk hboundary hgap (hclause.braces (Nat.pos_of_ne_zero hdepth) hbody)

theorem run_enclosed {s last : Scan} (before ls : List Lexeme)
    (hstatement : Unfinished before s.statement.depth) (hscopes : Enclosed s.scopes before)
    (h : s.run ls = .ok last) :
    Unfinished (before ++ ls) last.statement.depth ∧ Enclosed last.scopes (before ++ ls) := by
  induction ls generalizing s before with
  | nil =>
    cases h
    rw [List.append_nil]
    exact ⟨hstatement, hscopes⟩
  | cons l ls ih =>
    obtain ⟨next, hread, hrun⟩ := (run_cons_eq_ok_iff _ _ _ _).mp h
    obtain ⟨hnext, hkept⟩ := read_enclosed hstatement hscopes hread
    rw [List.append_cons]
    exact ih (before ++ [l]) hnext hkept hrun

/-- Whatever a scan has read is a boundary, a gap and the statement so far. -/
theorem unfinished_of_run {ls : List Lexeme} {last : Scan} (h : start.run ls = .ok last) :
    Unfinished ls last.statement.depth :=
  (run_enclosed [] ls Boundary.start.unfinished (.outermost []) h).1

end Scan

end NativeGlue.Source
