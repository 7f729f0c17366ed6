import NativeGlue.Text.Word

/-!
Shell scripts as they are read: words with their quotes and expansions, redirections, and the
commands made of them. All texts are byte texts.
-/

namespace NativeGlue.Shell

open Text

/-- What a here-document or another redirection does to a stream. -/
inductive OpenMode where
  | read
  | write
  /-- Writing that may empty an existing file although the shell is told to spare those. -/
  | overwrite
  | append
  | readWrite
  deriving DecidableEq, Repr

mutual

/-- A part of a word. Marks are the quotation marks themselves: what stands between two of them
is quoted, and they keep an empty field alive. -/
inductive Part where
  | char (c : Char) (isQuoted : Bool)
  | mark
  | parameter (name : Text) (use : Use)
  | command (body : Option Command)
  | arithmetic (expression : List Part)

/-- What is made of a parameter. The flag of the first four tells whether an empty value counts
as none. -/
inductive Use where
  | value
  | length
  | orElse (orEmpty : Bool) (word : List Part)
  | assign (orEmpty : Bool) (word : List Part)
  | require (orEmpty : Bool) (word : List Part)
  | instead (orEmpty : Bool) (word : List Part)
  | trim (atStart longest : Bool) (pattern : List Part)
  /-- An expansion that cannot be understood, which is noticed only when it is made. -/
  | bad

/-- A here-document is named by its place among all that were read. -/
inductive Redirection where
  | file (fd : Nat) (mode : OpenMode) (path : List Part)
  | duplicate (fd : Nat) (source : List Part)
  | document (fd index : Nat)

inductive Command where
  | simple (line : Nat) (assignments : List (Text × List Part)) (words : List (List Part))
      (redirections : List Redirection)
  | redirected (line : Nat) (body : Command) (redirections : List Redirection)
  | subshell (line : Nat) (body : Command) (redirections : List Redirection)
  | background (body : Command)
  | pipeline (stages : List Command)
  | negated (body : Command)
  | sequence (first second : Command)
  | andThen (first second : Command)
  | orElse (first second : Command)
  | choose (condition whenTrue : Command) (whenFalse : Option Command)
  | repeating (untilTrue : Bool) (condition body : Command)
  | each (line : Nat) (name : Text) (words : List (List Part)) (body : Command)
  | select (line : Nat) (subject : List Part) (cases : List (List (List Part) × Option Command))
  | define (name : Text) (body : Command)

end

abbrev Word := List Part

namespace Word

/-- The characters of a word that has neither quotes nor expansions. -/
def plain? : Word → Option Text
  | [] => some []
  | .char c false :: rest => (plain? rest).map (c :: ·)
  | _ => none

/-- The characters that stand unquoted at the start of a word. -/
def plainStart : Word → Text
  | .char c false :: rest => c :: plainStart rest
  | _ => []

def assignmentFrom (name : Text) : Word → Option (Text × Word)
  | .char c false :: rest =>
    if c = '=' then if isAsciiName name then some (name, rest) else none
    else if isAsciiWord c then assignmentFrom (name ++ [c]) rest
    else none
  | _ => none

/-- The name and the value of a word that assigns to a variable. -/
def assignment? (w : Word) : Option (Text × Word) := assignmentFrom [] w

/-- All arguments, each as a field of its own. -/
def allArguments : Word := [.mark, .parameter ['@'] .value, .mark]

end Word

end NativeGlue.Shell
