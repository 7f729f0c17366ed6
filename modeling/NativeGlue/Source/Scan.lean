import NativeGlue.Segment
import NativeGlue.Source.Lexeme
import NativeGlue.Source.NativeMethod

/-!
The scan of a source file reads its lexemes one by one. It keeps the text of the current
statement, the open scopes and the native method that still waits for its code, and collects the
segments and the methods that got no code.
-/

namespace NativeGlue.Source

open Text

/-- The text since the last boundary of a statement, with comments blanked and literals emptied.
`line` is the line of its first character that is not blank. -/
structure Statement where
  text : Text
  line : Int
  begun : Bool
  depth : Nat
  deriving DecidableEq, Repr

namespace Statement

def empty : Statement := ⟨[], 1, false, 0⟩

def clear (s : Statement) : Statement := ⟨[], s.line, false, 0⟩

def putBlank (s : Statement) (c : Char) : Statement := { s with text := s.text ++ [c] }

/-- Characters that are not blank, met on the given line. -/
def putText (s : Statement) (line : Int) (t : Text) : Statement :=
  { s with text := s.text ++ t, line := if s.begun then s.line else line, begun := true }

/-- Braces that stood inside parentheses leave a trace, so that words on either side stay
apart. -/
def resume (s : Statement) : Statement := { s with text := s.text ++ "\x7b\x7d".toList }

end Statement

/-- An open brace: the class it belongs to, if any, and the statement it interrupted. -/
structure Scope where
  name : Option Text
  outer : Option Statement
  deriving DecidableEq, Repr

/-- A native method for which no code was found. -/
structure Skipped where
  line : Int
  className : Text
  methodName : Text
  deriving DecidableEq, Repr

def Skipped.message (path : Option Text) (s : Skipped) : Text :=
  Place.say ⟨path, some s.line⟩
    ("native method '".toList ++ s.className ++ '#' :: s.methodName ++
      "' has no embedded code block; skipped".toList)

structure Scan where
  line : Int
  statement : Statement
  scopes : List Scope
  pending : Option NativeMethod
  segments : List Segment
  skipped : List Skipped
  deriving DecidableEq, Repr

namespace Scan

def start : Scan := ⟨1, .empty, [], none, [], []⟩

/-- The names of the open classes, outermost first, joined by dollar signs. -/
def owner (s : Scan) : Option Text :=
  match s.scopes.reverse.filterMap (·.name) with
  | [] => none
  | names => some (join ['$'] names)

/-- Give up waiting for the pending method's code. -/
def dropPending (s : Scan) : Scan :=
  match s.pending with
  | none => s
  | some m =>
    { s with pending := none, skipped := s.skipped ++ [⟨m.line, m.className, m.methodName⟩] }

def addSegment (s : Scan) (segment : Segment) : Scan :=
  { s with segments := s.segments ++ [segment] }

def blank (s : Scan) (c : Char) : Scan :=
  { s with
    line := if c = '\n' then s.line + 1 else s.line
    statement := s.statement.putBlank c }

def rawTag : Text := "JNI".toList

def declarationOf (m : NativeMethod) (code : Text) (startLine endLine : Int) : Declaration :=
  ⟨m.className, m.methodName, m.isStatic, m.parameters, code, startLine, endLine, m.line⟩

/-- A tagged comment is a raw block. Any other but a documentation comment is the code of the
pending method. -/
def commentSegment (s : Scan) (body : Text) (endLine : Int) : Scan :=
  match dropStart? rawTag body with
  | some code => s.dropPending.addSegment (.raw ⟨code, s.line⟩)
  | none =>
    match s.pending with
    | some m =>
      if body.head? = some '*' then s.dropPending
      else { s with pending := none }.addSegment
        (.declared (declarationOf m body s.line endLine))
    | none => s

def comment (s : Scan) (body : Text) : Scan :=
  let endLine := s.line + feeds body
  let read := s.commentSegment body endLine
  { read with line := endLine, statement := read.statement.putBlank ' ' }

def putText (s : Scan) (t : Text) : Scan :=
  { s with statement := s.statement.putText s.line t }

def textBlock (s : Scan) (body : Text) : Scan :=
  { s with line := s.line + feeds body }.putText "\"\"".toList

/-- A statement ends. If it is native, its method waits for its code. -/
def endStatement (s : Scan) : Except Problem Scan :=
  let statement := s.statement
  let closed := { s with statement := statement.clear }
  if isNativeStatement statement.text then
    match readNativeMethod s.owner statement.line statement.text with
    | .ok m => .ok { closed with pending := some m }
    | .error fault => .error ⟨statement.line, fault⟩
  else .ok closed

/-- A brace inside parentheses interrupts the statement; any other ends it, and the scope bears
the name of the class whose head the statement is. -/
def openScope (s : Scan) : Scan :=
  let scope : Scope :=
    if s.statement.depth > 0 then ⟨none, some s.statement⟩
    else ⟨className? s.statement.text, none⟩
  { s with statement := s.statement.clear, scopes := scope :: s.scopes }

def closeScope (s : Scan) : Except Problem Scan :=
  match s.scopes with
  | [] => .error ⟨s.line, .strayBrace⟩
  | scope :: scopes =>
    let statement :=
      match scope.outer with
      | some outer => outer.resume
      | none => s.statement.clear
    .ok { s with statement := statement, scopes := scopes }

def depthAfter (depth : Nat) (c : Char) : Nat :=
  if c = '(' then depth + 1 else if c = ')' then depth - 1 else depth

def putMark (s : Scan) (c : Char) : Scan :=
  { s with
    statement := { s.statement with depth := depthAfter s.statement.depth c } }.putText [c]

def mark (s : Scan) (c : Char) : Except Problem Scan :=
  if c = ';' then s.endStatement
  else if c = '{' then .ok s.openScope
  else if c = '}' then s.closeScope
  else .ok (s.putMark c)

/-- Read one lexeme. Only blanks and comments may stand between a native method and its code. -/
def read (s : Scan) : Lexeme → Except Problem Scan
  | .blank c => .ok (s.blank c)
  | .comment body => .ok (s.comment body)
  | .lineComment _ => .ok (s.dropPending.blank ' ')
  | .literal quote _ => .ok (s.dropPending.putText [quote, quote])
  | .textBlock body => .ok (s.dropPending.textBlock body)
  | .mark c => s.dropPending.mark c

def run (s : Scan) (ls : List Lexeme) : Except Problem Scan := ls.foldlM read s

end Scan

/-- What a source file holds. -/
structure Contents where
  segments : List Segment
  skipped : List Skipped
  deriving DecidableEq, Repr

def Contents.declarations (c : Contents) : List Declaration :=
  c.segments.filterMap Segment.declaration?

def Scan.finish (s : Scan) : Contents :=
  let done := s.dropPending
  ⟨done.segments, done.skipped⟩

/-- Read a source file, or find its first problem. -/
def read (t : Text) : Except Problem Contents := do
  let (ls, stopped) := lexemes t
  let s ← Scan.start.run ls
  match stopped with
  | some fault => .error ⟨s.line, fault⟩
  | none => return s.finish

end NativeGlue.Source
