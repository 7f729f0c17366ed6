import NativeGlue.Text.Basic

/-!
Wildcard patterns. A star stands for any run of characters, a question mark for one character,
and brackets for one character of a set or, after an exclamation mark, for one outside it. A set
lists characters and ranges; ranges that run backwards are left out. An opening bracket without
a closing one stands for itself.
-/

namespace NativeGlue.Text

structure CharSet where
  negated : Bool
  ranges : List (Char × Char)
  deriving DecidableEq, Repr

def CharSet.contains (s : CharSet) (c : Char) : Bool :=
  (s.ranges.any fun r => r.1 ≤ c && c ≤ r.2) != s.negated

namespace Wildcard

inductive Piece where
  | star
  | any
  | one (c : Char)
  | set (s : CharSet)
  deriving DecidableEq, Repr

def Piece.accepts : Piece → Char → Bool
  | star, _ => true
  | any, _ => true
  | one d, c => c == d
  | set s, c => s.contains c

/-- Cut a set's text at the hyphens that make ranges. A hyphen among the next `skip` characters
does not. -/
def chunksFrom : Nat → Text → Text → List Text
  | _, chunk, [] => [chunk]
  | skip + 1, chunk, c :: rest => chunksFrom skip (chunk ++ [c]) rest
  | 0, chunk, c :: rest =>
    if c = '-' then chunk :: chunksFrom 2 [] rest else chunksFrom 0 (chunk ++ [c]) rest

/-- A hyphen at the end makes no range and belongs to the chunk before it. -/
def closeChunks : List Text → List Text
  | [chunk, []] => [chunk ++ ['-']]
  | chunk :: rest => chunk :: closeChunks rest
  | [] => []

/-- Whether the range between two chunks runs backwards. -/
def isBackwards (left right : Text) : Bool :=
  match left.getLast?, right.head? with
  | some low, some high => high < low
  | _, _ => false

/-- Leave out the ends of ranges that run backwards. -/
def dropBackwards : List Text → List Text
  | [] => []
  | chunk :: rest =>
    match dropBackwards rest with
    | [] => [chunk]
    | next :: more =>
      if isBackwards chunk next then (chunk.dropLast ++ next.tail) :: more
      else chunk :: next :: more

def chunks (body : Text) : List Text :=
  dropBackwards (closeChunks (chunksFrom (if body.head? = some '!' then 2 else 1) [] body))

/-- The range between two neighbours; a hyphen with nothing before it stands for itself. -/
def rangeBetween (left right : Text) : List (Char × Char) :=
  match left.getLast?, right.head? with
  | some low, some high => [(low, high)]
  | none, _ => [('-', '-')]
  | _, none => []

def rangesOf : List Text → List (Char × Char)
  | [] => []
  | [chunk] => chunk.map fun c => (c, c)
  | chunk :: next :: rest =>
    (chunk.map fun c => (c, c)) ++ rangeBetween chunk next ++ rangesOf (next :: rest)

/-- The set that the text between two brackets describes. -/
def setOf (body : Text) : CharSet :=
  match chunks body with
  | ('!' :: chunk) :: rest => ⟨true, if chunk.isEmpty && rest.isEmpty then [] else
      rangesOf (chunk :: rest)⟩
  | found => ⟨false, rangesOf found⟩

/-- The text of a set, read after its opening bracket. A closing bracket that comes first, or
right after the exclamation mark, belongs to the set. -/
def setBody? (t : Text) : Option Text :=
  let mark := t.takeWhile (· == '!') |>.take 1
  let afterMark := t.drop mark.length
  let bracket := afterMark.takeWhile (· == ']') |>.take 1
  let afterBracket := afterMark.drop bracket.length
  let members := afterBracket.takeWhile (· != ']')
  if members.length < afterBracket.length then some (mark ++ bracket ++ members) else none

/-- The first `skip` characters belong to a set already read. -/
def piecesFrom : Nat → Text → List Piece
  | _, [] => []
  | skip + 1, _ :: rest => piecesFrom skip rest
  | 0, c :: rest =>
    if c = '*' then .star :: piecesFrom 0 rest
    else if c = '?' then .any :: piecesFrom 0 rest
    else if c = '[' then
      match setBody? rest with
      | some body => .set (setOf body) :: piecesFrom (body.length + 1) rest
      | none => .one c :: piecesFrom 0 rest
    else .one c :: piecesFrom 0 rest

/-- All ends of a text, the longest first. -/
def ends : Text → List Text
  | [] => [[]]
  | c :: rest => (c :: rest) :: ends rest

/-- What one more piece may leave over. The texts are ends of the first of them, the longest
first, and so are those that are left: a star may stop at any end of the first. -/
def advance (rests : List Text) : Piece → List Text
  | .star => (rests.head?.map ends).getD []
  | p => rests.filterMap fun rest =>
      match rest with
      | [] => none
      | c :: after => if p.accepts c then some after else none

/-- What pieces at the start of a text may leave over of it, the longest first. -/
def leftOver (ps : List Piece) (t : Text) : List Text := ps.foldl advance [t]

/-- Whether the pieces stand for the whole text. -/
def accept (ps : List Piece) (t : Text) : Bool := (leftOver ps t).contains []

def isMatch (pattern t : Text) : Bool := accept (piecesFrom 0 pattern) t

/-- A pattern that starts with two stars and a slash also stands for what its rest stands
for. -/
def isMatchAtAnyDepth (t pattern : Text) : Bool :=
  isMatch pattern t || (dropStart? "**/".toList pattern).any fun rest => isMatch rest t

def isMatchOfAny (patterns : List Text) (t : Text) : Bool :=
  patterns.any (isMatchAtAnyDepth t)

end Wildcard

end NativeGlue.Text
