import NativeGlue.Shell.Reader

/-!
Reading words. What a character means depends on the context: the quotes, braces or parentheses
that are open, and the here-document or delimiter that is being read.
-/

namespace NativeGlue.Shell

open Text

/-- What ends a text. -/
inductive Closer where
  | blank
  | brace
  | quote
  /-- Two parentheses, after as many as are open inside. -/
  | parentheses (opened : Nat)
  | endOfDocument
  deriving DecidableEq

structure Context where
  closer : Closer
  /-- Most characters stand for themselves, as between double quotes. -/
  isDouble : Bool
  inBraces : Bool
  inDocument : Bool
  /-- A delimiter of a here-document has no expansions. -/
  isDelimiter : Bool

namespace Context

def word : Context := ⟨.blank, false, false, false, false⟩

def delimiter : Context := { word with isDelimiter := true }

def document : Context := ⟨.endOfDocument, true, false, true, false⟩

/-- The fault of a text that ends too early. -/
def fault? (x : Context) : Option ScriptFault :=
  match x.closer with
  | .blank => none
  | .endOfDocument => none
  | .parentheses _ => some .openArithmetic
  | .brace => some (if x.isDouble && !x.inDocument then .openQuote else .openBrace)
  | .quote => some (if x.inDocument then .openBrace else .openQuote)

/-- Between double quotes a backslash protects only some characters. -/
def escapes (x : Context) (c : Char) : Bool :=
  !x.isDouble || c == '\\' || c == '`' || c == '$' ||
    (c == '"' && !(x.inDocument && !x.inBraces)) || (c == '}' && x.inBraces)

def arithmetic (x : Context) : Context :=
  { x with closer := .parentheses 0, isDouble := true, inBraces := false }

def quotes (x : Context) : Context := { x with closer := .quote, isDouble := true }

/-- The word of an expansion. Patterns are never like quoted text. -/
def braces (x : Context) (isPattern : Bool) : Context :=
  { x with closer := .brace, isDouble := x.isDouble && !isPattern, inBraces := true }

end Context

def isMeta (c : Char) : Bool := " \t\n;&|<>()".toList.contains c

def isSpecial (c : Char) : Bool := "@*#?-$!".toList.contains c || c.isDigit

def isNameHead (c : Char) : Bool := isAsciiLetter c || c == '_'

namespace Reader

/-- The characters up to a single quote. -/
def singleQuoted : Nat → Reader Text
  | 0 => throw .openQuote
  | fuel + 1 => do
    match ← peekRaw with
    | none => throw .openQuote
    | some c =>
      skip
      if c = '\'' then return [] else return c :: (← singleQuoted fuel)

/-- The characters up to a backquote, without the backslashes that the quotation itself needs. -/
def backquoted (isDouble : Bool) : Nat → Reader Text
  | 0 => throw .openBackquote
  | fuel + 1 => do
    match ← peek with
    | none => throw .openBackquote
    | some '`' =>
      skip
      return []
    | some '\\' =>
      skip
      match ← peekRaw with
      | none => throw .openBackquote
      | some c =>
        skip
        let more ← backquoted isDouble fuel
        if c = '\\' || c = '`' || c = '$' || (isDouble && c = '"') then return c :: more
        else return '\\' :: c :: more
    | some c =>
      skip
      return c :: (← backquoted isDouble fuel)

/-- A name, or a number where the next character is a digit. -/
def nameOrNumber : Reader Text := do
  if (← peek).any Char.isDigit then takeWhile Char.isDigit (← fuel)
  else takeWhile isAsciiWord (← fuel)

/-- What an expansion in braces names, how it uses it, and whether a word follows. -/
structure Head where
  name : Text
  use : Word → Use
  isPattern : Bool
  hasWord : Bool

def Head.bad : Head := ⟨[], fun _ => .bad, false, true⟩

/-- The use after a colon, which makes empty values count as none. -/
def useOf? (orEmpty : Bool) (c : Char) : Option (Word → Use) :=
  if c = '-' then some (.orElse orEmpty)
  else if c = '=' then some (.assign orEmpty)
  else if c = '?' then some (.require orEmpty)
  else if c = '+' then some (.instead orEmpty)
  else none

/-- A use that has a word, or a bad one. The character that names it has been looked at. -/
def worded (name : Text) (orEmpty : Bool) (c : Option Char) : Reader Head := do
  match c with
  | none => return .bad
  | some c =>
    skip
    match useOf? orEmpty c with
    | some use => return ⟨name, use, false, true⟩
    | none => return .bad

/-- What follows the name of an expansion in braces. -/
def afterName (name : Text) : Reader Head := do
  match ← peek with
  | some '}' =>
    skip
    return ⟨name, fun _ => .value, false, false⟩
  | some ':' =>
    skip
    worded name true (← peek)
  | some c =>
    if c = '%' || c = '#' then
      skip
      let longest ← skipIf c
      return ⟨name, .trim (c == '#') longest, true, true⟩
    else worded name false (some c)
  | none => return .bad

/-- The length of a parameter, unless more than its name stands in the braces. -/
def lengthOf (name : Text) : Reader Head := do
  if ← skipIf '}' then return ⟨name, fun _ => .length, false, false⟩ else return .bad

/-- What follows a number sign that opens an expansion in braces: it asks for a length, or is
the parameter itself. -/
def afterNumberSign : Reader Head := do
  match ← peek with
  | none => return .bad
  | some c =>
    if isAsciiWord c then lengthOf (← nameOrNumber)
    else if c = '}' then afterName ['#']
    else
      let before ← get
      skip
      if (← peek) = some '}' then
        if isSpecial c then lengthOf [c] else return .bad
      else
        set before
        afterName ['#']

/-- What an expansion begins with, read after its opening brace. -/
def head : Reader Head := do
  match ← peek with
  | none => return .bad
  | some c =>
    if isAsciiWord c then afterName (← nameOrNumber)
    else if c = '}' then return .bad
    else
      skip
      if c = '#' then afterNumberSign
      else if isSpecial c then afterName [c]
      else return .bad

mutual

/-- The parts of a text up to the end of its context, before which stand the parts `before` in
reverse. `commands` reads the commands of a substitution, up to a parenthesis if the flag says
so. -/
def partsFrom (commands : Bool → Reader (Option Command)) :
    Nat → Context → List Part → Reader Word
  | 0, _, _ => throw .tooDeep
  | fuel + 1, x, before => do
    match ← peek with
    | none =>
      match x.fault? with
      | some fault => throw fault
      | none => return before.reverse
    | some c =>
      let plain : Reader Word := do
        skip
        partsFrom commands fuel x (.char c x.isDouble :: before)
      match x.closer with
      | .blank => if isMeta c then return before.reverse
      | .brace =>
        if c = '}' then
          skip
          return before.reverse
      | .quote =>
        if c = '"' then
          skip
          return before.reverse
      | .parentheses opened =>
        if c = '(' then
          skip
          return ← partsFrom commands fuel { x with closer := .parentheses (opened + 1) }
            (.char c true :: before)
        if c = ')' && 0 < opened then
          skip
          return ← partsFrom commands fuel { x with closer := .parentheses (opened - 1) }
            (.char c true :: before)
        if c = ')' then
          skip
          if ← skipIf ')' then return before.reverse
          else return ← partsFrom commands fuel x (.char c true :: before)
      | .endOfDocument => pure ()
      if c = '\\' then
        skip
        match ← peekRaw with
        | none => partsFrom commands fuel x (.char '\\' true :: before)
        | some d =>
          skip
          if x.escapes d then partsFrom commands fuel x (.char d true :: before)
          else partsFrom commands fuel x (.char d true :: .char '\\' true :: before)
      else if c = '\'' && !x.isDouble then
        skip
        let t ← singleQuoted (← Reader.fuel)
        partsFrom commands fuel x
          (.mark :: (t.map fun c => Part.char c true).reverse ++ .mark :: before)
      else if c = '"' then
        if x.isDouble && (x.closer matches .parentheses _ || x.inDocument && !x.inBraces) then
          plain
        else
          skip
          let inner ← partsFrom commands fuel x.quotes []
          partsFrom commands fuel x (.mark :: inner.reverse ++ .mark :: before)
      else if c = '$' && !x.isDelimiter then
        skip
        let part ← expansion commands fuel x
        partsFrom commands fuel x (part :: before)
      else if c = '`' && !x.isDelimiter then
        skip
        let t ← backquoted x.isDouble (← Reader.fuel)
        let body ← within t 1 (commands false)
        partsFrom commands fuel x (.command body :: before)
      else plain

/-- An expansion, read after its dollar sign. -/
def expansion (commands : Bool → Reader (Option Command)) : Nat → Context → Reader Part
  | 0, _ => throw .tooDeep
  | fuel + 1, x => do
    match ← peek with
    | none => return .char '$' x.isDouble
    | some c =>
      if c = '(' then
        skip
        if ← skipIf '(' then
          return .arithmetic (← partsFrom commands fuel x.arithmetic [])
        else return .command (← commands true)
      else if c = '{' then
        skip
        let h ← head
        let word ← if h.hasWord then partsFrom commands fuel (x.braces h.isPattern) [] else pure []
        return .parameter h.name (h.use word)
      else if isNameHead c then
        return .parameter (← takeWhile isAsciiWord (← Reader.fuel)) .value
      else if isSpecial c then
        skip
        return .parameter [c] .value
      else return .char '$' x.isDouble

end

/-- The parts of a context from here on. -/
def parts (commands : Bool → Reader (Option Command)) (x : Context) : Reader Word := do
  partsFrom commands (2 * (← fuel)) x []

end Reader

end NativeGlue.Shell
