import NativeGlue.Shell.WordReader

/-!
Reading tokens, redirections and here-documents. The text of a here-document starts after the
line that mentions it, so it is read when that line has ended.
-/

namespace NativeGlue.Shell

open Text

/-- What the next token may be. -/
structure Expecting where
  keywords : Bool
  /-- Ends of lines are skipped. -/
  skipsLines : Bool
  aliases : Bool

namespace Expecting

def anything : Expecting := ⟨false, false, false⟩

/-- A word of a command before its name. -/
def leadingWord : Expecting := ⟨false, false, true⟩

def command : Expecting := ⟨true, false, true⟩

def commandOnAnyLine : Expecting := ⟨true, true, true⟩

/-- The pattern of a case, or the end of all cases. -/
def case : Expecting := ⟨true, true, false⟩

end Expecting

namespace Reader

def skipBlanks : Nat → Reader Unit
  | 0 => pure ()
  | fuel + 1 => do
    match ← peek with
    | some ' ' =>
      skip
      skipBlanks fuel
    | some '\t' =>
      skip
      skipBlanks fuel
    | some '#' =>
      modify fun s => { s with rest := s.rest.dropWhile (· != '\n') }
      skipBlanks fuel
    | _ => pure ()

/-- One operator or a longer one that starts with it. -/
def opOr (short : String) (c : Char) (long : String) : Reader Token := do
  skip
  return .op (if ← skipIf c then long else short)

/-- The stream that a redirection changes, if a word may number it. -/
def streamNumber? (w : Word) (default : Nat) : Option Nat :=
  match w.plain? with
  | some [] => some default
  | some [c] => if c.isDigit then some (c.toNat - 48) else none
  | _ => none

/-- A redirection from its sign on. -/
def redirectionSign (w : Word) (c : Char) : Reader (Option Token) := do
  match streamNumber? w (if c = '>' then 1 else 0) with
  | none => return none
  | some fd =>
    skip
    let kind : RedirectionKind ←
      if c = '>' then do
        if ← skipIf '>' then pure (.file .append)
        else if ← skipIf '|' then pure (.file .overwrite)
        else if ← skipIf '&' then pure .duplicate
        else pure (.file .write)
      else do
        if ← skipIf '<' then pure (.document (← skipIf '-'))
        else if ← skipIf '&' then pure .duplicate
        else if ← skipIf '>' then pure (.file .readWrite)
        else pure (.file .read)
    return some (.redirection fd kind)

/-- The next token of the text. -/
def rawToken (commands : Bool → Reader (Option Command)) (x : Context) : Reader Token := do
  skipBlanks (← fuel)
  match ← peek with
  | none => return .endOfFile
  | some '\n' =>
    skip
    return .newline
  | some '&' => opOr "&" '&' "&&"
  | some '|' => opOr "|" '|' "||"
  | some ';' => opOr ";" ';' ";;"
  | some '(' =>
    skip
    return .op "("
  | some ')' =>
    skip
    return .op ")"
  | some _ =>
    let w ← parts commands x
    match ← peek with
    | some c =>
      if c = '<' || c = '>' then return (← redirectionSign w c).getD (.word w)
      else return .word w
    | none => return .word w

/-- The text of a here-document, and whether its last line was ended. Where expansions are made, a
backslash protects the end of a line. -/
def documentFrom (d : PendingDocument) : Nat → Bool → Reader Text
  | 0, _ => return []
  | fuel + 1, atStart => do
    if atStart && d.stripsTabs then
      modify fun s => { s with rest := s.rest.dropWhile (· == '\t') }
    let s ← get
    let ending : Option Text := if atStart then dropStart? d.delimiter s.rest else none
    match ending with
    | some [] =>
      set { s with rest := [] }
      return []
    | some ('\n' :: after) =>
      set { s with rest := after, line := s.line + 1 }
      return []
    | _ =>
      match s.rest with
      | [] => return []
      | '\\' :: c :: _ =>
        skip
        if d.isQuoted then return '\\' :: (← documentFrom d fuel false)
        else
          skip
          return '\\' :: c :: (← documentFrom d fuel false)
      | c :: _ =>
        skip
        return c :: (← documentFrom d fuel (c == '\n'))

def document (commands : Bool → Reader (Option Command)) (d : PendingDocument) :
    Reader Unit := do
  let line := (← get).line
  let t ← documentFrom d (← fuel) true
  let w ←
    if d.isQuoted then pure (t.map fun c => Part.char c true)
    else within t line (parts commands .document)
  modify fun s => { s with documents := s.documents ++ [(d.index, w)] }

/-- The here-documents that the ended line mentions. -/
def pendingDocuments (commands : Bool → Reader (Option Command)) : Reader Unit := do
  let pending := (← get).pending
  modify fun s => { s with pending := [] }
  pending.forM (document commands)

def skipNewlines (commands : Bool → Reader (Option Command)) : Nat → Token → Reader Token
  | fuel + 1, .newline => do
    pendingDocuments commands
    skipNewlines commands fuel (← rawToken commands .word)
  | _, t => return t

/-- A word that is spelled like a keyword is one where keywords are expected. -/
def asKeyword (t : Token) : Token :=
  match t with
  | .word w =>
    match w.plain?.bind keyword? with
    | some k => .keyword k
    | none => t
  | _ => t

/-- The name of an alias that a token may be. -/
def aliasName? : Token → Option Text
  | .word w => w.plain?
  | _ => none

def tokenFrom (commands : Bool → Reader (Option Command)) : Nat → Expecting → Reader Token
  | 0, _ => throw .tooDeep
  | fuel + 1, x => do
    let t ←
      match (← get).pushed with
      | some t =>
        modify fun s => { s with pushed := none }
        pure t
      | none => rawToken commands .word
    let t ← if x.skipsLines then skipNewlines commands (← Reader.fuel) t else pure t
    let aliases := (← closeAliases) || x.aliases
    let t := if x.keywords then asKeyword t else t
    match if aliases then aliasName? t else none with
    | some name =>
      if ← openAlias? name then tokenFrom commands fuel { x with aliases := true }
      else return t
    | none => return t

def token (commands : Bool → Reader (Option Command)) (x : Expecting) : Reader Token := do
  tokenFrom commands (← fuel) x

def push (t : Token) : Reader Unit := modify fun s => { s with pushed := some t }

def literalText (w : Word) : Text :=
  w.filterMap fun part =>
    match part with
    | .char c _ => some c
    | _ => none

def isQuotedWord (w : Word) : Bool :=
  w.any fun part =>
    match part with
    | .char _ isQuoted => isQuoted
    | _ => true

/-- What a redirection leads to, read after its sign. -/
def redirectionTarget (commands : Bool → Reader (Option Command)) (fd : Nat)
    (kind : RedirectionKind) : Reader Redirection := do
  match ← if kind matches .document _ then rawToken commands .delimiter
    else token commands .anything with
  | .word w =>
    match kind with
    | .file mode => return .file fd mode w
    | .duplicate => return .duplicate fd w
    | .document stripsTabs =>
      let s ← get
      let d : PendingDocument :=
        ⟨s.nextDocument, literalText w, isQuotedWord w, stripsTabs⟩
      set { s with pending := s.pending ++ [d], nextDocument := s.nextDocument + 1 }
      return .document fd d.index
  | t => throw (.unexpected t)

end Reader

end NativeGlue.Shell
