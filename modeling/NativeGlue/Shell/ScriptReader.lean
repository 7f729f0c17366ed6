import NativeGlue.Shell.TokenReader

/-!
Reading commands. A script is read one complete command at a time, up to the end of a line, so
that what comes before a fault can run.
-/

namespace NativeGlue.Shell

open Text

/-- Builtins whose faults end the shell; no function may have their names. -/
def specialBuiltins : List String :=
  [".", ":", "break", "continue", "eval", "exec", "exit", "export", "readonly", "return", "set",
    "shift", "times", "trap", "unset", "local"]

/-- How far a list of commands reaches. -/
inductive Extent where
  /-- Up to the end of a line. -/
  | line
  /-- Up to a token that ends a list; there must be a command. -/
  | some
  /-- Up to a token that ends a list, which may come at once. -/
  | any
  deriving DecidableEq

/-- What a list of commands ended at. -/
inductive Ending where
  | commands (body : Option Command)
  | endOfFile

namespace Reader

section

variable (commands : Bool → Reader (Option Command))

def next (x : Expecting) : Reader Token := token commands x

def expectKeyword (k : String) (x : Expecting) : Reader Unit := do
  let t ← next commands x
  if t.isKeyword k then return else throw (.expected t (.keyword k))

/-- Redirections after a compound command. A keyword counts as one only before the first. -/
def redirectionsFrom : Nat → Expecting → Reader (List Redirection)
  | 0, _ => return []
  | fuel + 1, x => do
    match ← next commands x with
    | .redirection fd kind =>
      let r ← redirectionTarget commands fd kind
      return r :: (← redirectionsFrom fuel .anything)
    | t =>
      push t
      return []

def redirections : Reader (List Redirection) := do redirectionsFrom commands (← fuel) .command

/-- The words of a loop, up to the end of its line. -/
def loopWords : Nat → Reader (List Word)
  | 0 => throw .tooDeep
  | fuel + 1 => do
    match ← next commands .anything with
    | .word w => return w :: (← loopWords fuel)
    | t =>
      if t matches .newline || t.isOp ";" then return [] else throw (.unexpected t)

structure Simple where
  assignments : List (Text × Word)
  words : List Word
  redirections : List Redirection

/-- A simple command as far as it has been read. An opening parenthesis after a single word makes
it the definition of a function. -/
def simpleFrom : Nat → Simple → Reader (Simple × Bool)
  | 0, _ => throw .tooDeep
  | fuel + 1, s => do
    match ← next commands (if s.words.isEmpty then .leadingWord else .anything) with
    | .word w =>
      match if s.words.isEmpty then w.assignment? else none with
      | some a => simpleFrom fuel { s with assignments := s.assignments ++ [a] }
      | none => simpleFrom fuel { s with words := s.words ++ [w] }
    | .redirection fd kind =>
      let r ← redirectionTarget commands fd kind
      simpleFrom fuel { s with redirections := s.redirections ++ [r] }
    | t =>
      if t.isOp "(" && s.words.length = 1 && s.assignments.isEmpty && s.redirections.isEmpty then
        return (s, true)
      else
        push t
        return (s, false)

/-- The name of a function to be defined. -/
def functionName (s : Simple) : Reader Text := do
  match s.words.head?.bind Word.plain? with
  | some name =>
    if isAsciiName name && !specialBuiltins.contains (String.ofList name) then return name
    else throw .functionName
  | none => throw .functionName

/-- The patterns of a case, up to the closing parenthesis. -/
def patterns : Nat → Token → Reader (List Word)
  | 0, _ => throw .tooDeep
  | fuel + 1, t => do
    let after ← next commands .anything
    if after.isOp "|" then return t.wordOf :: (← patterns fuel (← next commands .anything))
    else if after.isOp ")" then return [t.wordOf]
    else throw (.expected after (.op ")"))

mutual

/-- A list of commands; `before` are those already read. -/
def listFrom : Nat → Extent → Bool → Option Command → Reader Ending
  | 0, _, _, _ => throw .tooDeep
  | fuel + 1, extent, isFirst, before => do
    let isLine := extent = .line
    let t ← next commands (if isLine then .command else .commandOnAnyLine)
    let isEnd := t matches .endOfFile
    if t matches .newline then
      pendingDocuments commands
      return .commands before
    else if isEnd then
      pendingDocuments commands
      push t
      return if before.isNone && isLine then .endOfFile else .commands before
    else
      push t
      if t.endsList && (extent = .any || (!isFirst && extent = .some)) then
        return .commands before
      else
        let body ← andOr fuel
        let t ← next commands .anything
        let body := if t.isOp "&" then .background body else body
        let all := some (match before with
          | none => body
          | some first => .sequence first body)
        if t matches .endOfFile then
          pendingDocuments commands
          push t
          return .commands all
        else if t matches .newline then
          push t
          listFrom fuel extent false all
        else if t.isOp "&" || t.isOp ";" then listFrom fuel extent false all
        else if isLine then throw (.unexpected t)
        else
          push t
          return .commands all

def andOr : Nat → Reader Command
  | 0 => throw .tooDeep
  | fuel + 1 => do andOrFrom fuel (← pipeline fuel .anything)

def andOrFrom : Nat → Command → Reader Command
  | 0, _ => throw .tooDeep
  | fuel + 1, first => do
    let t ← next commands .anything
    if t.isOp "&&" then andOrFrom fuel (.andThen first (← pipeline fuel .commandOnAnyLine))
    else if t.isOp "||" then andOrFrom fuel (.orElse first (← pipeline fuel .commandOnAnyLine))
    else
      push t
      return first

def pipeline : Nat → Expecting → Reader Command
  | 0, _ => throw .tooDeep
  | fuel + 1, x => do
    let t ← next commands x
    if t.isKeyword "!" then
      let first ← command fuel .command
      return .negated (← stages fuel first)
    else
      push t
      let first ← command fuel .anything
      stages fuel first

/-- The commands of a pipeline after its first. -/
def stages : Nat → Command → Reader Command
  | 0, _ => throw .tooDeep
  | fuel + 1, first => do
    let rest ← stagesFrom fuel
    return if rest.isEmpty then first else .pipeline (first :: rest)

def stagesFrom : Nat → Reader (List Command)
  | 0 => throw .tooDeep
  | fuel + 1 => do
    let t ← next commands .anything
    if t.isOp "|" then
      let stage ← command fuel .commandOnAnyLine
      return stage :: (← stagesFrom fuel)
    else
      push t
      return []

/-- A list in which there must be a command. Where the text ends instead, the token that should
follow the list is missed. -/
def block : Nat → Reader Command
  | 0 => throw .tooDeep
  | fuel + 1 => do
    match ← listFrom fuel .some true none with
    | .commands (some body) => return body
    | _ => return .pipeline []

/-- A condition with its branches, read after its first keyword, and the token after them. -/
def conditional : Nat → Reader Command
  | 0 => throw .tooDeep
  | fuel + 1 => do
    let condition ← block fuel
    expectKeyword commands "then" .anything
    let whenTrue ← block fuel
    let t ← next commands .anything
    if t.isKeyword "elif" then return .choose condition whenTrue (some (← conditional fuel))
    else if t.isKeyword "else" then
      let whenFalse ← block fuel
      expectKeyword commands "fi" .anything
      return .choose condition whenTrue (some whenFalse)
    else if t.isKeyword "fi" then return .choose condition whenTrue none
    else throw (.expected t (.keyword "fi"))

/-- The body of a loop between its keywords. -/
def loopBody : Nat → Expecting → Reader Command
  | 0, _ => throw .tooDeep
  | fuel + 1, x => do
    expectKeyword commands "do" x
    let body ← block fuel
    expectKeyword commands "done" .anything
    return body

/-- A loop over words, read after its keyword. -/
def each : Nat → Nat → Reader Command
  | 0, _ => throw .tooDeep
  | fuel + 1, line => do
    let name ←
      match ← next commands .anything with
      | .word w =>
        match w.plain? with
        | some name => if isAsciiName name then pure name else throw .loopVariable
        | none => throw .loopVariable
      | _ => throw .loopVariable
    let t ← next commands .commandOnAnyLine
    let words ←
      if t.isKeyword "in" then loopWords commands (← Reader.fuel)
      else
        if !t.isOp ";" then push t
        pure [Word.allArguments]
    return .each line name words (← loopBody fuel .commandOnAnyLine)

/-- The cases of a selection, up to its last keyword. -/
def cases : Nat → Reader (List (List Word × Option Command))
  | 0 => throw .tooDeep
  | fuel + 1 => do
    let t ← next commands .case
    if t.isKeyword "esac" then return []
    else
      let first ← if t.isOp "(" then next commands .anything else pure t
      let ps ← patterns commands (← Reader.fuel) first
      let body ←
        match ← listFrom fuel .any true none with
        | .commands body => pure body
        | .endOfFile => pure none
      let t ← next commands .case
      if t.isKeyword "esac" then return [(ps, body)]
      else if t.isOp ";;" then return (ps, body) :: (← cases fuel)
      else throw (.expected t (.op ";;"))

/-- A selection, read after its keyword. -/
def select : Nat → Nat → Reader Command
  | 0, _ => throw .tooDeep
  | fuel + 1, line => do
    match ← next commands .anything with
    | .word subject =>
      expectKeyword commands "in" .commandOnAnyLine
      return .select line subject (← cases fuel)
    | t => throw (.expected t (.word []))

/-- A simple command or the definition of a function. -/
def simple : Nat → Reader Command
  | 0 => throw .tooDeep
  | fuel + 1 => do
    let line := (← get).line
    let (s, isFunction) ← simpleFrom commands (← Reader.fuel) ⟨[], [], []⟩
    if isFunction then
      let t ← next commands .anything
      if !t.isOp ")" then throw (.expected t (.op ")"))
      let name ← functionName s
      return .define name (← command fuel .commandOnAnyLine)
    else return .simple line s.assignments s.words s.redirections

def command : Nat → Expecting → Reader Command
  | 0, _ => throw .tooDeep
  | fuel + 1, x => do
    let line := (← get).line
    let t ← next commands x
    let redirected (body : Command) : Reader Command := do
      let rs ← redirections commands
      return if rs.isEmpty then body else .redirected line body rs
    if t.isKeyword "if" then redirected (← conditional fuel)
    else if t.isKeyword "while" then
      let condition ← block fuel
      redirected (.repeating false condition (← loopBody fuel .anything))
    else if t.isKeyword "until" then
      let condition ← block fuel
      redirected (.repeating true condition (← loopBody fuel .anything))
    else if t.isKeyword "for" then redirected (← each fuel line)
    else if t.isKeyword "case" then redirected (← select fuel line)
    else if t.isOp "(" then
      let body ← block fuel
      let t ← next commands .anything
      if !t.isOp ")" then throw (.expected t (.op ")"))
      return .subshell line body (← redirections commands)
    else if t.isKeyword "\x7b" then
      let body ← block fuel
      expectKeyword commands "\x7d" .anything
      redirected body
    else if t matches .word _ || t matches .redirection _ _ then
      push t
      simple fuel
    else throw (.unexpected t)

end

def list (extent : Extent) : Reader Ending := do
  listFrom commands (8 * (← fuel) + 8) extent true none

end

/-- The commands of a substitution. The flag tells whether a parenthesis closes them; otherwise
what follows them is left alone. Substitutions are nested at most `depth` deep. -/
def substitution : Nat → Bool → Reader (Option Command)
  | 0, _ => throw .tooDeep
  | depth + 1, isClosed => do
    let pending := (← get).pending
    modify fun s => { s with pending := [] }
    let body ←
      match ← list (substitution depth) .any with
      | .commands body => pure body
      | .endOfFile => pure none
    if isClosed then
      let t ← token (substitution depth) .anything
      if !t.isOp ")" then throw (.expected t (.op ")"))
    modify fun s => { s with pending := pending, pushed := none }
    return body

/-- The next complete command of a script. -/
def completeCommand : Reader Ending := do list (substitution (← fuel)) .line

end Reader

end NativeGlue.Shell
