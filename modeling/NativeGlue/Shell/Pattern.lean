import NativeGlue.Text.Wildcard

/-!
Patterns of the shell, in which a character may be quoted and then stands for itself. Sets may
name classes of characters.
-/

namespace NativeGlue.Shell

open Text

/-- A character of a field, which may be a pattern. -/
structure Mark where
  char : Char
  isQuoted : Bool
  deriving DecidableEq, Repr

abbrev Pattern := List Mark

namespace Pattern

open Wildcard

def text (p : Pattern) : Text := p.map (·.char)

/-- A backslash that is not quoted quotes what follows it. -/
def unescape : Pattern → Pattern
  | ⟨'\\', false⟩ :: m :: rest => ⟨m.char, true⟩ :: unescape rest
  | m :: rest => m :: unescape rest
  | [] => []

def isActive (c : Char) (m : Mark) : Bool := m.char == c && !m.isQuoted

def classes : List (String × List (Char × Char)) :=
  [("alnum", [('0', '9'), ('A', 'Z'), ('a', 'z')]), ("alpha", [('A', 'Z'), ('a', 'z')]),
    ("blank", [('\t', '\t'), (' ', ' ')]), ("cntrl", [('\x00', '\x1f'), ('\x7f', '\x7f')]),
    ("digit", [('0', '9')]), ("graph", [('!', '~')]), ("lower", [('a', 'z')]),
    ("print", [(' ', '~')]),
    ("punct", [('!', '/'), (':', '@'), ('[', '\x60'), ('\x7b', '~')]),
    ("space", [('\t', '\r'), (' ', ' ')]), ("upper", [('A', 'Z')]),
    ("xdigit", [('0', '9'), ('A', 'F'), ('a', 'f')])]

def class? (name : Text) : Option (List (Char × Char)) :=
  (classes.find? fun entry => entry.1.toList == name).map (·.2)

/-- A class that is named here between brackets and colons, and what follows it. -/
def leadingClass? : Pattern → Option (List (Char × Char) × Pattern)
  | ⟨'[', false⟩ :: ⟨':', false⟩ :: rest =>
    let name := rest.takeWhile fun m => m.char.isAlpha
    match rest.drop name.length with
    | ⟨':', false⟩ :: ⟨']', false⟩ :: after =>
      (class? (text name)).map fun ranges => (ranges, after)
    | _ => none
  | _ => none

/-- The ranges of a set up to its closing bracket, which cannot be the first of its members. -/
def ranges? : Nat → Bool → Pattern → Option (List (Char × Char) × Pattern)
  | 0, _, _ => none
  | _, _, [] => none
  | fuel + 1, isFirst, m :: rest =>
    let go (found : List (Char × Char)) (after : Pattern) :=
      (ranges? fuel false after).map fun more => (found ++ more.1, more.2)
    if isActive ']' m && !isFirst then some ([], rest)
    else
      match leadingClass? (m :: rest), rest with
      | some (found, after), _ => go found after
      | none, ⟨'-', false⟩ :: high :: after =>
        if isActive ']' high then go [(m.char, m.char)] rest else go [(m.char, high.char)] after
      | none, _ => go [(m.char, m.char)] rest

/-- The set that is open, and what follows it. -/
def set? (p : Pattern) : Option (Piece × Pattern) :=
  let isNegated := p.head?.any (isActive '!')
  let body := if isNegated then p.tail else p
  (ranges? (body.length + 1) true body).map fun found => (.set ⟨isNegated, found.1⟩, found.2)

/-- The pieces of a pattern without backslashes. A bracket that opens no set stands for
itself. -/
def piecesFrom : Nat → Pattern → List Piece
  | 0, _ => []
  | _, [] => []
  | fuel + 1, m :: rest =>
    if isActive '*' m then .star :: piecesFrom fuel rest
    else if isActive '?' m then .any :: piecesFrom fuel rest
    else
      match if isActive '[' m then set? rest else none with
      | some (piece, after) => piece :: piecesFrom fuel after
      | none => .one m.char :: piecesFrom fuel rest

def pieces (p : Pattern) : List Piece := piecesFrom (p.length + 1) (unescape p)

def isMatch (p : Pattern) (t : Text) : Bool := accept (pieces p) t

/-- The first of the values that null characters keep apart, and what follows it. -/
def firstValue (t : Text) : Text × Text :=
  (t.takeWhile (· != '\x00'), t.dropWhile (· != '\x00'))

/-- Cut the shortest or the longest match off the start of a text. A match does not reach beyond the
first value, but the longest takes the other values along if it reaches its end. -/
def trimStart (longest : Bool) (p : Pattern) (t : Text) : Text :=
  let (first, others) := firstValue t
  let rests := leftOver (pieces p) first
  match if longest then rests.getLast? else rests.head? with
  | some [] => if longest then [] else others
  | some rest => rest ++ others
  | none => t

/-- Cut the shortest or the longest match off the end of a text, with the values that follow it. A
match does not reach beyond its value, and the longest is one in the first. -/
def trimEnd (longest : Bool) (p : Pattern) (t : Text) : Text :=
  let ps := pieces p
  let places := if longest then (ends t).take ((firstValue t).1.length + 1) else ends t
  let fitting := places.filter fun s => accept ps (firstValue s).1
  match if longest then fitting.head? else fitting.getLast? with
  | some suffix => t.take (t.length - suffix.length)
  | none => t

end Pattern

end NativeGlue.Shell
