import NativeGlue.Proofs.Source.Reading

/-!
Open braces in two stacks. One stack holds the names of the scopes and the other the statements
that the braces interrupted, and a closing brace takes from each of them. The scan that keeps name
and statement together reads as the one with two stacks, in which the stacks are therefore equally
high whenever a brace comes, and neither is ever found empty where the other is not.
-/

namespace NativeGlue.Source

open Text

/-- A scan whose scopes have their names alone. What they interrupted stands beside it. -/
structure TwoStacks where
  scan : Scan
  suspended : List (Option Statement)
  deriving DecidableEq, Repr

inductive StackFault where
  | problem (problem : Problem)
  | nothingSuspended
  deriving DecidableEq, Repr

namespace TwoStacks

def start : TwoStacks := ⟨.start, []⟩

def openScope (s : TwoStacks) : TwoStacks :=
  let statement := s.scan.statement
  let scope : Scope :=
    if statement.depth > 0 then ⟨none, none⟩ else ⟨className? statement.text, none⟩
  let outer := if statement.depth > 0 then some statement else none
  ⟨{ s.scan with statement := statement.clear, scopes := scope :: s.scan.scopes },
    outer :: s.suspended⟩

/-- Take a name from the one stack and a statement from the other. -/
def closeScope (s : TwoStacks) : Except StackFault TwoStacks :=
  match s.scan.scopes with
  | [] => .error (.problem ⟨s.scan.line, .strayBrace⟩)
  | _ :: scopes =>
    match s.suspended with
    | [] => .error .nothingSuspended
    | outer :: suspended =>
      let statement :=
        match outer with
        | some outer => outer.resume
        | none => s.scan.statement.clear
      .ok ⟨{ s.scan with statement := statement, scopes := scopes }, suspended⟩

/-- Only braces touch the stacks. -/
def read (s : TwoStacks) (l : Lexeme) : Except StackFault TwoStacks :=
  if l = .mark '{' then .ok (openScope ⟨s.scan.dropPending, s.suspended⟩)
  else if l = .mark '}' then closeScope ⟨s.scan.dropPending, s.suspended⟩
  else
    match s.scan.read l with
    | .ok next => .ok ⟨next, s.suspended⟩
    | .error problem => .error (.problem problem)

def run (s : TwoStacks) (ls : List Lexeme) : Except StackFault TwoStacks := ls.foldlM read s

end TwoStacks

namespace Scan

/-- The scan without what its scopes interrupted. -/
def namesOnly (s : Scan) : Scan := { s with scopes := s.scopes.map fun scope => ⟨scope.name, none⟩ }

def twoStacks (s : Scan) : TwoStacks := ⟨s.namesOnly, s.scopes.map (·.outer)⟩

/-- The outcome of a reading, told by the two stacks. -/
def liftStacks : Except Problem Scan → Except StackFault TwoStacks
  | .ok s => .ok s.twoStacks
  | .error problem => .error (.problem problem)

theorem owner_namesOnly (s : Scan) : s.namesOnly.owner = s.owner := by
  have hnames : s.namesOnly.scopes.reverse.filterMap (·.name) =
      s.scopes.reverse.filterMap (·.name) := by
    rw [namesOnly, ← List.map_reverse, List.filterMap_map]
    rfl
  unfold owner
  rw [hnames]

theorem dropPending_namesOnly (s : Scan) : s.namesOnly.dropPending = s.dropPending.namesOnly := by
  unfold dropPending
  cases h : s.pending <;> simp [namesOnly, h]

theorem comment_namesOnly (s : Scan) (body : Text) :
    s.namesOnly.comment body = (s.comment body).namesOnly := by
  have hsegment (endLine : Int) : s.namesOnly.commentSegment body endLine =
      (s.commentSegment body endLine).namesOnly := by
    unfold commentSegment
    cases dropStart? rawTag body with
    | some code => exact congrArg (addSegment · _) s.dropPending_namesOnly
    | none =>
      have hpending : s.namesOnly.pending = s.pending := rfl
      rw [hpending, dropPending_namesOnly]
      cases s.pending with
      | none => rfl
      | some m =>
        by_cases hstar : body.head? = some '*'
        · simp only [if_pos hstar]
        · simp only [if_neg hstar]
          rfl
  have hcomment := congrArg (fun read : Scan => { read with
    line := s.line + feeds body
    statement := read.statement.putBlank ' ' }) (hsegment (s.line + feeds body))
  exact hcomment

theorem endStatement_namesOnly (s : Scan) :
    s.namesOnly.endStatement = s.endStatement.map namesOnly := by
  have hstatement : s.namesOnly.statement = s.statement := rfl
  unfold endStatement
  rw [owner_namesOnly, hstatement]
  dsimp only
  cases isNativeStatement s.statement.text with
  | false => rfl
  | true => cases readNativeMethod s.owner s.statement.line s.statement.text <;> rfl

/-- A lexeme other than a brace is read without regard to what scopes interrupted. -/
theorem read_namesOnly (s : Scan) (l : Lexeme) (hopen : l ≠ .mark '{') (hclose : l ≠ .mark '}') :
    s.namesOnly.read l = (s.read l).map namesOnly := by
  cases l with
  | blank c => rfl
  | comment body => exact congrArg Except.ok (s.comment_namesOnly body)
  | lineComment body =>
    change Except.ok (s.namesOnly.dropPending.blank ' ') = _
    rw [dropPending_namesOnly]
    rfl
  | literal quote body =>
    change Except.ok (s.namesOnly.dropPending.putText [quote, quote]) = _
    rw [dropPending_namesOnly]
    rfl
  | textBlock body =>
    change Except.ok (s.namesOnly.dropPending.textBlock body) = _
    rw [dropPending_namesOnly]
    rfl
  | mark c =>
    have hneOpen : c ≠ '{' := fun h => hopen (h ▸ rfl)
    have hneClose : c ≠ '}' := fun h => hclose (h ▸ rfl)
    change s.namesOnly.dropPending.mark c = (s.dropPending.mark c).map namesOnly
    rw [dropPending_namesOnly]
    unfold mark
    by_cases hend : c = ';'
    · rw [if_pos hend, if_pos hend]
      exact s.dropPending.endStatement_namesOnly
    · rw [if_neg hend, if_neg hneOpen, if_neg hneClose, if_neg hend, if_neg hneOpen,
        if_neg hneClose]
      rfl

theorem openScope_twoStacks (s : Scan) : s.twoStacks.openScope = s.openScope.twoStacks := by
  unfold TwoStacks.openScope openScope
  by_cases h : s.statement.depth > 0 <;> simp [twoStacks, namesOnly, h]

theorem closeScope_twoStacks (s : Scan) : s.twoStacks.closeScope = liftStacks s.closeScope := by
  unfold TwoStacks.closeScope closeScope
  cases h : s.scopes with
  | nil => simp [twoStacks, namesOnly, h, liftStacks]
  | cons scope scopes =>
    cases houter : scope.outer <;> simp [twoStacks, namesOnly, h, houter, liftStacks]

/-- One lexeme, read with two stacks. -/
theorem read_twoStacks (s : Scan) (l : Lexeme) : s.twoStacks.read l = liftStacks (s.read l) := by
  have hdrop : (⟨s.twoStacks.scan.dropPending, s.twoStacks.suspended⟩ : TwoStacks) =
      s.dropPending.twoStacks := by
    obtain ⟨-, -, hscopes, -⟩ := s.dropPending_fields
    simp only [twoStacks, dropPending_namesOnly, hscopes]
  unfold TwoStacks.read
  by_cases hopen : l = .mark '{'
  · rw [if_pos hopen, hdrop, openScope_twoStacks, hopen]
    rfl
  by_cases hclose : l = .mark '}'
  · rw [if_neg hopen, if_pos hclose, hdrop, closeScope_twoStacks, hclose]
    rfl
  rw [if_neg hopen, if_neg hclose]
  have hread := s.read_namesOnly l hopen hclose
  cases hnext : s.read l with
  | error problem => simp [twoStacks, hread, hnext, liftStacks, Except.map]
  | ok next =>
    have hscopes := (read_fields hnext).1 hopen hclose
    simp [twoStacks, hread, hnext, liftStacks, Except.map, hscopes]

/-- All lexemes, read with two stacks. -/
theorem run_twoStacks (s : Scan) (ls : List Lexeme) :
    s.twoStacks.run ls = liftStacks (s.run ls) := by
  induction ls generalizing s with
  | nil => rfl
  | cons l ls ih =>
    have hread := s.read_twoStacks l
    unfold TwoStacks.run run at ih ⊢
    simp only [List.foldlM_cons]
    cases hnext : s.read l with
    | error problem =>
      rw [hread, hnext]
      rfl
    | ok next =>
      rw [hread, hnext]
      exact ih next

end Scan

namespace TwoStacks

/-- Reading with two stacks from the start of a file. It stops where the scan does and for the
same reason, so a closing brace that finds a name finds a statement too, and between two lexemes
the stacks are equally high. -/
theorem run_start (ls : List Lexeme) :
    start.run ls = Scan.liftStacks (Scan.start.run ls) ∧ start.run ls ≠ .error .nothingSuspended ∧
      ∀ s, start.run ls = .ok s → s.suspended.length = s.scan.scopes.length := by
  have hrun : start.run ls = Scan.liftStacks (Scan.start.run ls) := Scan.start.run_twoStacks ls
  refine ⟨hrun, ?_⟩
  cases hread : Scan.start.run ls with
  | error problem =>
    rw [hrun, hread]
    exact ⟨nofun, nofun⟩
  | ok last =>
    rw [hrun, hread]
    refine ⟨nofun, fun s h => ?_⟩
    cases h
    simp [Scan.twoStacks, Scan.namesOnly]

end TwoStacks

end NativeGlue.Source
