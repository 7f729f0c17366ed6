import NativeGlue.Shell.Token

/-!
Reading a script character by character. A backslash at the end of a line joins it to the next,
except between single quotes. Lines are counted, so that faults can be placed. The text of an
alias is read in place of its name, and the alias rests until that text has been left.
-/

namespace NativeGlue.Shell

open Text

/-- A here-document whose redirection has been read, but not its text. -/
structure PendingDocument where
  index : Nat
  delimiter : Text
  isQuoted : Bool
  stripsTabs : Bool

/-- An alias whose text is being read. -/
structure OpenAlias where
  name : Text
  /-- How many characters are left after its text. -/
  after : Nat
  /-- The word after its text may be an alias as well. -/
  endsInBlank : Bool

structure Reading where
  rest : Text
  line : Nat
  /-- A token that was read too early. -/
  pushed : Option Token
  pending : List PendingDocument
  /-- The documents read, each with its index. -/
  documents : List (Nat × Word)
  nextDocument : Nat
  aliases : List (Text × Text)
  opened : List OpenAlias

abbrev Reader := ExceptT ScriptFault (StateM Reading)

def Reading.start (t : Text) (firstDocument : Nat) : Reading :=
  ⟨t, 1, none, [], [], firstDocument, [], []⟩

namespace Reader

/-- Drop the ends of lines that are joined to the next. -/
def joinLines (line : Nat) : Text → Nat × Text
  | '\\' :: '\n' :: rest => joinLines (line + 1) rest
  | t => (line, t)

/-- The next character as it stands. -/
def peekRaw : Reader (Option Char) := do return (← get).rest.head?

/-- The next character once lines are joined. -/
def peek : Reader (Option Char) := do
  let s ← get
  let (line, rest) := joinLines s.line s.rest
  set { s with line := line, rest := rest }
  return rest.head?

def skip : Reader Unit :=
  modify fun s =>
    match s.rest with
    | [] => s
    | c :: rest => { s with rest := rest, line := if c = '\n' then s.line + 1 else s.line }

/-- Skip a given character, if it is the next. -/
def skipIf (c : Char) : Reader Bool := do
  if (← peek) = some c then
    skip
    return true
  else return false

/-- How many characters aliases may add to a script. -/
def aliasRoom : Nat := 100000

/-- A bound for the number of characters and tokens that are left, with the one that was read too
early and the end. -/
def fuel : Reader Nat := do
  let s ← get
  return s.rest.length + 3 + if s.aliases.isEmpty then 0 else aliasRoom

/-- The longest run of characters of a kind. -/
def takeWhile (p : Char → Bool) : Nat → Reader Text
  | 0 => return []
  | fuel + 1 => do
    match ← peek with
    | none => return []
    | some c =>
      if p c then
        skip
        return c :: (← takeWhile p fuel)
      else return []

/-- Read the text of an alias before what is left, unless it is being read already. -/
def openAlias? (name : Text) : Reader Bool := do
  let s ← get
  match s.aliases.lookup name with
  | none => return false
  | some value =>
    if s.opened.any (·.name = name) then return false
    else
      let last := value.getLast?
      let entry : OpenAlias := ⟨name, s.rest.length, last = some ' ' || last = some '\t'⟩
      set { s with rest := value ++ s.rest
                   opened := if value.isEmpty then s.opened else entry :: s.opened }
      return true

/-- Close the aliases whose texts have been left, and tell whether the word that was just read may
be an alias for that. -/
def closeAliases : Reader Bool := do
  let s ← get
  let size := s.rest.length
  if s.opened.isEmpty then return false
  else
    set { s with opened := s.opened.filter fun a => a.after ≤ size }
    return s.opened.any fun a => size < a.after && a.endsInBlank

/-- Read another text in place of what is left, with lines counted anew. -/
def within {α : Type} (t : Text) (line : Nat) (reader : Reader α) : Reader α := do
  let outer ← get
  let opened := outer.opened.map fun a => { a with after := 0 }
  set { outer with rest := t, line := line, pushed := none, pending := [], opened := opened }
  let result ← reader
  modify fun s =>
    { s with rest := outer.rest, line := outer.line, pushed := outer.pushed
             pending := outer.pending, opened := outer.opened }
  return result

end Reader

end NativeGlue.Shell
