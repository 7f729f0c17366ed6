import NativeGlue.Source.Fault
import NativeGlue.Text.Blank
import NativeGlue.Text.Comment

/-!
The lexemes of a source file: blanks, comments, literals, and single characters of everything
else. Written one after the other they give back the file. Reading stops at a comment or
literal that does not end, and reports it.
-/

namespace NativeGlue.Source

open Text

inductive Lexeme where
  | blank (c : Char)
  | comment (body : Text)
  | lineComment (body : Text)
  | literal (quote : Char) (body : Text)
  | textBlock (body : Text)
  | mark (c : Char)
  deriving DecidableEq, Repr

def Lexeme.spelling : Lexeme → Text
  | blank c => [c]
  | comment body => "/*".toList ++ body ++ "*/".toList
  | lineComment body => "//".toList ++ body
  | literal quote body => quote :: body ++ [quote]
  | textBlock body => "\"\"\"".toList ++ body ++ "\"\"\"".toList
  | mark c => [c]

/-- The body of a literal and what follows it. A backslash takes the next character with it,
and a literal does not go beyond its line. -/
def literalBody? (quote : Char) : Text → Option (Text × Text)
  | [] => none
  | '\\' :: c :: rest =>
    (literalBody? quote rest).map fun found => ('\\' :: c :: found.1, found.2)
  | c :: rest =>
    if c = '\n' || c = '\\' then none
    else if c = quote then some ([], rest)
    else (literalBody? quote rest).map fun found => (c :: found.1, found.2)

/-- The body of a text block and what follows it. Three quotes after a backslash do not end the
block; `before` is the last character read. -/
def textBlockBody? (before : Char) : Text → Option (Text × Text)
  | [] => none
  | c :: rest =>
    match if before = '\\' then none else dropStart? "\"\"\"".toList (c :: rest) with
    | some after => some ([], after)
    | none => (textBlockBody? c rest).map fun found => (c :: found.1, found.2)

def isFeed (c : Char) : Bool := c == '\n'

/-- The lexeme that starts with `c`, and what follows it. -/
def lexeme? (c : Char) (rest : Text) : Except Fault (Lexeme × Text) :=
  if isBlank c then .ok (.blank c, rest)
  else
    match c, rest with
    | '/', '*' :: after =>
      match commentBody? after with
      | some (body, tail) => .ok (.comment body, tail)
      | none => .error .openComment
    | '/', '/' :: after =>
      .ok (.lineComment (after.takeWhile (!isFeed ·)), after.dropWhile (!isFeed ·))
    | '"', '"' :: '"' :: after =>
      match textBlockBody? '"' after with
      | some (body, tail) => .ok (.textBlock body, tail)
      | none => .error .openTextBlock
    | c, rest =>
      if c = '"' || c = '\'' then
        match literalBody? c rest with
        | some (body, tail) => .ok (.literal c body, tail)
        | none => .error .openLiteral
      else .ok (.mark c, rest)

theorem literalBody?_spelling {quote : Char} {t body tail : Text}
    (h : literalBody? quote t = some (body, tail)) : t = body ++ quote :: tail := by
  fun_induction literalBody? quote t generalizing body tail with
  | case1 => cases h
  | case2 c rest ih =>
    obtain ⟨found, hfound, heq⟩ := Option.map_eq_some_iff.mp h
    cases heq
    simp [ih hfound]
  | case3 => cases h
  | case4 => cases h; simp_all
  | case5 c rest _ _ _ ih =>
    obtain ⟨found, hfound, heq⟩ := Option.map_eq_some_iff.mp h
    cases heq
    simp [ih hfound]

theorem textBlockBody?_spelling {before : Char} {t body tail : Text}
    (h : textBlockBody? before t = some (body, tail)) :
    t = body ++ "\"\"\"".toList ++ tail := by
  induction t generalizing before body tail with
  | nil => cases h
  | cons c rest ih =>
    unfold textBlockBody? at h
    split at h
    · next after heq =>
      cases h
      split at heq
      · cases heq
      · exact eq_append_of_dropStart? heq
    · obtain ⟨found, hfound, heq⟩ := Option.map_eq_some_iff.mp h
      cases heq
      simp [ih hfound]

/-- A lexeme and what follows it are the text from which it was read. -/
theorem lexeme?_spelling {c : Char} {rest tail : Text} {l : Lexeme}
    (h : lexeme? c rest = .ok (l, tail)) : c :: rest = l.spelling ++ tail := by
  unfold lexeme? at h
  split at h
  · cases h; rfl
  · split at h
    · split at h
      · next hbody => cases h; simp [Lexeme.spelling, eq_append_of_commentBody? hbody]
      · cases h
    · cases h; simp [Lexeme.spelling, List.takeWhile_append_dropWhile]
    · split at h
      · next hbody => cases h; simp [Lexeme.spelling, textBlockBody?_spelling hbody]
      · cases h
    · split at h
      · split at h
        · next hbody => cases h; simp [Lexeme.spelling, literalBody?_spelling hbody]
        · cases h
      · cases h; rfl

theorem Lexeme.spelling_ne_nil (l : Lexeme) : l.spelling ≠ [] := by
  cases l <;> simp [spelling]

theorem length_of_lexeme? {c : Char} {rest tail : Text} {l : Lexeme}
    (h : lexeme? c rest = .ok (l, tail)) : tail.length < (c :: rest).length := by
  have hpos := List.length_pos_iff.mpr l.spelling_ne_nil
  rw [lexeme?_spelling h, List.length_append]
  omega

/-- All lexemes of a text, and what stopped the reading if it stopped before the end. -/
def lexemes : Text → List Lexeme × Option Fault
  | [] => ([], none)
  | c :: rest =>
    match h : lexeme? c rest with
    | .error fault => ([], some fault)
    | .ok (l, tail) =>
      have : tail.length < rest.length + 1 := length_of_lexeme? h
      let more := lexemes tail
      (l :: more.1, more.2)
termination_by t => t.length

end NativeGlue.Source
