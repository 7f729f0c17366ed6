import NativeGlue.Text.Basic

/-!
Paths as they are written. A path is relative or starts at the root; two slashes at the start
are kept apart from one. Empty components and single dots are dropped when a path is read, two
dots are kept.
-/

namespace NativeGlue

open Text

structure Path where
  slashes : Nat
  parts : List Text
  deriving DecidableEq, Repr

namespace Path

def splitSlashes (t : Text) : List Text := t.splitOn '/'

def isNamed (part : Text) : Bool := !part.isEmpty && part != ['.']

/-- Three slashes and more at the start count as one. -/
def rootSlashes (t : Text) : Nat :=
  let n := (t.takeWhile (· == '/')).length
  if n ≤ 2 then n else 1

def ofText (t : Text) : Path := ⟨rootSlashes t, (splitSlashes t).filter isNamed⟩

def text (p : Path) : Text :=
  if p.slashes = 0 && p.parts.isEmpty then ['.']
  else List.replicate p.slashes '/' ++ join ['/'] p.parts

/-- The path of names from the root. -/
def absolute (names : List Text) : Path := ⟨1, names⟩

def isAbsolute (p : Path) : Bool := 0 < p.slashes

/-- A path taken from a directory; an absolute one stays as it is. -/
def under (base p : Path) : Path :=
  if p.isAbsolute then p else ⟨base.slashes, base.parts ++ p.parts⟩

/-- A path given by its text, taken from a directory. -/
def child (base : Path) (t : Text) : Path := base.under (ofText t)

/-- Take one step by name alone. -/
def lexicalStep (here : List Text) (name : Text) : List Text :=
  if name.isEmpty || name = ['.'] then here
  else if name = ['.', '.'] then here.dropLast
  else here ++ [name]

/-- The longest path that can be looked for, in bytes. -/
def longest : Nat := 4095

def isTooLongText (t : Text) : Bool := longest < (String.ofList t).utf8ByteSize

def isTooLong (p : Path) : Bool := isTooLongText p.text

def name (p : Path) : Text := p.parts.getLast?.getD []

def parent (p : Path) : Path := ⟨p.slashes, p.parts.dropLast⟩

def dropParts? : List Text → List Text → Option (List Text)
  | [], parts => some parts
  | _ :: _, [] => none
  | b :: base, p :: parts => if b = p then dropParts? base parts else none

/-- What leads from a directory to a path below it. -/
def relativeTo? (p base : Path) : Option Path :=
  if p.slashes = base.slashes then (dropParts? base.parts p.parts).map fun rest => ⟨0, rest⟩
  else none

/-- A name without what follows its last dot. A dot at either end starts no suffix. -/
def stem (name : Text) : Text :=
  let suffix := name.reverse.takeWhile (· != '.')
  let before := name.take (name.length - suffix.length - 1)
  if suffix.isEmpty || before.isEmpty then name else before

/-- The qualified name of the class in a file: the directories and the stem, joined by dots. -/
def className? (p : Path) : Option Text :=
  match p.parts.getLast? with
  | none => none
  | some file => some (join ['.'] (p.parts.dropLast ++ [stem file]))

/-- Order by components, each by code point. -/
def partsLe : List Text → List Text → Bool
  | [], _ => true
  | _ :: _, [] => false
  | a :: as, b :: bs => if a = b then partsLe as bs else Text.le a b

end Path

end NativeGlue
