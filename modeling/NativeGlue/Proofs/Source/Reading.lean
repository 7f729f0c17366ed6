import NativeGlue.Proofs.Text.Occurrence
import NativeGlue.Source.Scan

/-!
Reading from the middle of a source file. What remains to be read is a text, and a scan that
has read the text before it goes on lexeme by lexeme. A text that takes one scan to another,
whatever follows it, can be read on its own.
-/

namespace NativeGlue.Source

open Text

/-- The body of a comment that may hold the code of a method. -/
def isCode (body : Text) : Bool := !(Scan.rawTag.isPrefixOf body || ['*'].isPrefixOf body)

namespace Contents

def none : Contents := ⟨[], []⟩

/-- What two texts hold that stand one after the other. -/
def add (c d : Contents) : Contents := ⟨c.segments ++ d.segments, c.skipped ++ d.skipped⟩

theorem none_add (c : Contents) : none.add c = c := rfl

theorem add_none (c : Contents) : c.add none = c := by
  simp [add, none]

theorem add_assoc (c d e : Contents) : (c.add d).add e = c.add (d.add e) := by
  simp [add]

end Contents

theorem lexemes_of_ok {c : Char} {rest tail : Text} {l : Lexeme}
    (h : lexeme? c rest = .ok (l, tail)) :
    lexemes (c :: rest) = (l :: (lexemes tail).1, (lexemes tail).2) := by
  rw [lexemes.eq_def]
  dsimp only
  split
  · next fault hfault => simp [hfault] at h
  · next l' tail' hok =>
    obtain ⟨rfl, rfl⟩ : l' = l ∧ tail' = tail := by simpa [hok] using h
    rfl

theorem lexemes_of_error {c : Char} {rest : Text} {fault : Fault}
    (h : lexeme? c rest = .error fault) : lexemes (c :: rest) = ([], some fault) := by
  rw [lexemes.eq_def]
  dsimp only
  split
  · next fault' hfault =>
    obtain rfl : fault' = fault := by simpa [hfault] using h
    rfl
  · next l' tail' hok => simp [hok] at h

theorem lexeme?_semicolon (rest : Text) : lexeme? ';' rest = .ok (.mark ';', rest) := rfl

theorem eq_of_lexeme?_blank {c d : Char} {rest tail : Text}
    (h : lexeme? c rest = .ok (.blank d, tail)) : d = c ∧ tail = rest ∧ isBlank c = true := by
  unfold lexeme? at h
  split at h
  · next hblank =>
    cases h
    exact ⟨rfl, rfl, hblank⟩
  · repeat' split at h
    all_goals cases h

theorem eq_of_lexeme?_comment {c : Char} {rest body tail : Text}
    (h : lexeme? c rest = .ok (.comment body, tail)) :
    ∃ after, c = '/' ∧ rest = '*' :: after ∧ commentBody? after = some (body, tail) := by
  unfold lexeme? at h
  split at h
  · cases h
  · split at h
    · split at h
      · next hbody =>
        cases h
        exact ⟨_, rfl, rfl, hbody⟩
      · cases h
    all_goals
      repeat' split at h
      all_goals cases h

theorem eq_of_lexeme?_mark {c d : Char} {rest tail : Text}
    (h : lexeme? c rest = .ok (.mark d, tail)) : d = c ∧ tail = rest := by
  have hspelling := lexeme?_spelling h
  simp only [Lexeme.spelling, List.singleton_append, List.cons.injEq] at hspelling
  exact ⟨hspelling.1.symm, hspelling.2.symm⟩

namespace Scan

theorem dropPending_pending (s : Scan) : s.dropPending.pending = none := by
  unfold dropPending
  split
  · assumption
  · rfl

theorem dropPending_fields (s : Scan) : s.dropPending.line = s.line ∧
    s.dropPending.statement = s.statement ∧ s.dropPending.scopes = s.scopes ∧
    s.dropPending.segments = s.segments := by
  unfold dropPending
  split <;> exact ⟨rfl, rfl, rfl, rfl⟩

/-- No method waits behind a comment. -/
theorem comment_pending (s : Scan) (body : Text) : (s.comment body).pending = none := by
  unfold comment commentSegment
  split
  · exact s.dropPending_pending
  · split
    · split
      · exact s.dropPending_pending
      · rfl
    · assumption

/-- What a mark does to a scan. -/
theorem mark_cases {s next : Scan} {c : Char} (h : s.mark c = .ok next) :
    (c = ';' ∧ s.endStatement = .ok next) ∨ (c = '{' ∧ next = s.openScope) ∨
      (c = '}' ∧ s.closeScope = .ok next) ∨
      (c ≠ ';' ∧ c ≠ '{' ∧ c ≠ '}' ∧ next = s.putMark c) := by
  unfold mark at h
  split at h
  · next hend => exact .inl ⟨hend, h⟩
  next hend =>
  split at h
  · next hopen =>
    cases h
    exact .inr (.inl ⟨hopen, rfl⟩)
  next hopen =>
  split at h
  · next hclose => exact .inr (.inr (.inl ⟨hclose, h⟩))
  · next hclose =>
    cases h
    exact .inr (.inr (.inr ⟨hend, hopen, hclose, rfl⟩))

/-- A semicolon leaves an empty statement behind, and a native method that waits if the statement
declares one. -/
theorem endStatement_cases {s next : Scan} (h : s.endStatement = .ok next) :
    (isNativeStatement s.statement.text = false ∧
      next = { s with statement := s.statement.clear }) ∨
    (isNativeStatement s.statement.text = true ∧ ∃ m,
      readNativeMethod s.owner s.statement.line s.statement.text = .ok m ∧
      next = { s with statement := s.statement.clear, pending := some m }) := by
  unfold endStatement at h
  dsimp only at h
  split at h
  · next hnative =>
    split at h
    · next m hm =>
      cases h
      exact .inr ⟨hnative, m, hm, rfl⟩
    · cases h
  · next hnative =>
    cases h
    exact .inl ⟨by simpa using hnative, rfl⟩

/-- A closing brace takes up the statement that the scope interrupted, if there is one. -/
theorem closeScope_cases {s next : Scan} (h : s.closeScope = .ok next) :
    ∃ scope scopes, s.scopes = scope :: scopes ∧
      next = { s with
        statement := (scope.outer.map Statement.resume).getD s.statement.clear
        scopes := scopes } := by
  unfold closeScope at h
  split at h
  · cases h
  · next scope scopes hscopes =>
    cases h
    refine ⟨scope, scopes, hscopes, ?_⟩
    cases scope.outer <;> rfl

theorem commentSegment_fields (s : Scan) (body : Text) (endLine : Int) :
    (s.commentSegment body endLine).scopes = s.scopes ∧
    (s.commentSegment body endLine).segments.filterMap Segment.linked? =
      s.segments.filterMap Segment.linked? := by
  obtain ⟨-, -, hscopes, hsegments⟩ := s.dropPending_fields
  unfold commentSegment
  split
  · exact ⟨hscopes, by simp [addSegment, hsegments, Segment.linked?]⟩
  split
  · split
    · exact ⟨hscopes, by rw [hsegments]⟩
    · exact ⟨rfl, by simp [addSegment, Segment.linked?]⟩
  · exact ⟨rfl, rfl⟩

theorem endStatement_fields {s next : Scan} (h : s.endStatement = .ok next) :
    next.scopes = s.scopes ∧ next.segments = s.segments := by
  rcases endStatement_cases h with ⟨-, rfl⟩ | ⟨-, m, -, rfl⟩ <;> exact ⟨rfl, rfl⟩

theorem closeScope_segments {s next : Scan} (h : s.closeScope = .ok next) :
    next.segments = s.segments := by
  obtain ⟨scope, scopes, -, rfl⟩ := closeScope_cases h
  rfl

/-- Only a brace opens or closes a scope, and no lexeme links a method. -/
theorem read_fields {s next : Scan} {l : Lexeme} (h : s.read l = .ok next) :
    (l ≠ .mark '{' → l ≠ .mark '}' → next.scopes = s.scopes) ∧
    next.segments.filterMap Segment.linked? = s.segments.filterMap Segment.linked? := by
  obtain ⟨-, -, hscopes, hsegments⟩ := s.dropPending_fields
  have hkeeps (held : next.scopes = s.dropPending.scopes ∧
      next.segments = s.dropPending.segments) : (l ≠ .mark '{' → l ≠ .mark '}' →
        next.scopes = s.scopes) ∧ next.segments.filterMap Segment.linked? =
          s.segments.filterMap Segment.linked? :=
    ⟨fun _ _ => held.1.trans hscopes, by rw [held.2, hsegments]⟩
  cases l with
  | blank c =>
    cases h
    exact ⟨fun _ _ => rfl, rfl⟩
  | comment body =>
    cases h
    obtain ⟨hkept, hlinked⟩ := s.commentSegment_fields body (s.line + feeds body)
    exact ⟨fun _ _ => hkept, hlinked⟩
  | lineComment body =>
    cases h
    exact hkeeps ⟨rfl, rfl⟩
  | literal quote body =>
    cases h
    exact hkeeps ⟨rfl, rfl⟩
  | textBlock body =>
    cases h
    exact hkeeps ⟨rfl, rfl⟩
  | mark c =>
    rcases mark_cases h with ⟨-, h⟩ | ⟨hopen, rfl⟩ | ⟨hclose, h⟩ | ⟨-, -, -, rfl⟩
    · exact hkeeps (endStatement_fields h)
    · exact ⟨fun hne => absurd (hopen ▸ rfl) hne, by rw [← hsegments]; rfl⟩
    · exact ⟨fun _ hne => absurd (hclose ▸ rfl) hne, by rw [closeScope_segments h, hsegments]⟩
    · exact hkeeps ⟨rfl, rfl⟩

theorem isCode_eq_false_of_tagged {body code : Text} (h : dropStart? rawTag body = some code) :
    isCode body = false := by
  have hfront : rawTag.isPrefixOf body = true := by
    rw [List.isPrefixOf_iff_prefix]
    exact ⟨code, (eq_append_of_dropStart? h).symm⟩
  rw [isCode, hfront]
  rfl

theorem isCode_of_untagged {body : Text} (h : dropStart? rawTag body = none) :
    isCode body = !decide (body.head? = some '*') := by
  have hfront : rawTag.isPrefixOf body = false := by
    rw [← Bool.not_eq_true, List.isPrefixOf_iff_prefix]
    exact (dropStart?_eq_none_iff rawTag body).mp h
  have hstar : ['*'].isPrefixOf body = decide (body.head? = some '*') := by
    cases body with
    | nil => rfl
    | cons c body =>
      by_cases hc : c = '*'
      · simp [List.isPrefixOf, hc]
      · simp [List.isPrefixOf, hc, Ne.symm hc]
  rw [isCode, hfront, hstar, Bool.false_or]

/-- Read the rest of a source file. -/
def readFrom (s : Scan) (t : Text) : Except Problem Contents := do
  let (ls, stopped) := lexemes t
  let s ← s.run ls
  match stopped with
  | some fault => .error ⟨s.line, fault⟩
  | none => return s.finish

theorem read_eq_readFrom (t : Text) : Source.read t = start.readFrom t := rfl

theorem readFrom_nil (s : Scan) : s.readFrom [] = .ok s.finish := by
  rw [readFrom, lexemes.eq_def]
  rfl

theorem readFrom_of_ok (s : Scan) {c : Char} {rest tail : Text} {l : Lexeme}
    (h : lexeme? c rest = .ok (l, tail)) :
    s.readFrom (c :: rest) = (s.read l).bind fun next => next.readFrom tail := by
  rw [readFrom, lexemes_of_ok h]
  simp only [run, List.foldlM_cons]
  cases s.read l <;> rfl

theorem readFrom_of_error (s : Scan) {c : Char} {rest : Text} {fault : Fault}
    (h : lexeme? c rest = .error fault) :
    s.readFrom (c :: rest) = .error ⟨s.line, fault⟩ := by
  rw [readFrom, lexemes_of_error h]
  rfl

/-- A scan that can read the first lexeme goes on behind it. -/
theorem readFrom_of_read (s : Scan) {c : Char} {rest tail : Text} {l : Lexeme} {next : Scan}
    (hlexeme : lexeme? c rest = .ok (l, tail)) (hread : s.read l = .ok next) :
    s.readFrom (c :: rest) = next.readFrom tail := by
  rw [s.readFrom_of_ok hlexeme, hread]
  rfl

/-- A scan before one text becomes another scan before a later part of it. -/
inductive Reaches : Scan → Text → Scan → Text → Prop
  | refl (s : Scan) (t : Text) : Reaches s t s t
  | step {s next last : Scan} {c : Char} {rest tail t : Text} {l : Lexeme}
      (hlexeme : lexeme? c rest = .ok (l, tail)) (hread : s.read l = .ok next)
      (hlater : Reaches next tail last t) : Reaches s (c :: rest) last t

theorem Reaches.trans {s next last : Scan} {t u v : Text} (h : Reaches s t next u)
    (hlater : Reaches next u last v) : Reaches s t last v := by
  induction h with
  | refl s t => exact hlater
  | step hlexeme hread _ ih => exact .step hlexeme hread (ih hlater)

theorem reaches_cons_iff {s next last : Scan} {c : Char} {rest tail t : Text} {l : Lexeme}
    (hlexeme : lexeme? c rest = .ok (l, tail)) (hread : s.read l = .ok next) :
    Reaches s (c :: rest) last t ↔ (last = s ∧ t = c :: rest) ∨ Reaches next tail last t := by
  constructor
  · intro h
    cases h with
    | refl => exact .inl ⟨rfl, rfl⟩
    | step hlexeme' hread' hlater =>
      obtain ⟨rfl, rfl⟩ : _ = _ ∧ _ = _ := by simpa [hlexeme] using hlexeme'
      obtain rfl : _ = _ := by simpa [hread] using hread'
      exact .inr hlater
  · rintro (⟨rfl, rfl⟩ | hlater)
    · exact .refl _ _
    · exact .step hlexeme hread hlater

/-- What is left to read is the end of what there was. -/
theorem Reaches.suffix {s next : Scan} {t u : Text} (h : Reaches s t next u) : u <:+ t := by
  induction h with
  | refl s t => exact List.suffix_refl t
  | step hlexeme _ _ ih =>
    rw [lexeme?_spelling hlexeme]
    exact ih.trans (List.suffix_append _ _)

theorem Reaches.readFrom_eq {s next : Scan} {t u : Text} (h : Reaches s t next u) :
    s.readFrom t = next.readFrom u := by
  induction h with
  | refl s t => rfl
  | step hlexeme hread _ ih => rw [readFrom_of_read _ hlexeme hread, ih]

end Scan

end NativeGlue.Source
