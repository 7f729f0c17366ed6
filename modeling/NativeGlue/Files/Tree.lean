import NativeGlue.Files.Path
import NativeGlue.Text.Encoding

/-!
File trees. A directory holds other trees by their names, and a location is the list of names that
leads to a tree from the root. Walking a path follows symbolic links, of which one path may meet
only so many; resolving a path works its links out by name, whether or not anything is there.
-/

namespace NativeGlue

open Text

abbrev Location := List Text

inductive Tree where
  | file (bytes : Bytes)
  /-- A program that comes with the machine. -/
  | program (name : Text)
  /-- The device that forgets what is written to it. -/
  | null
  | link (target : Text)
  | directory (inside : List (Text × Tree))

/-- Why a file operation is refused. -/
inductive FileFault where
  | missing | denied | occupied | notDirectory | isDirectory | nameTooLong | linkLoop
  deriving DecidableEq, Repr

namespace FileFault

def number : FileFault → Nat
  | missing => 2
  | denied => 13
  | occupied => 17
  | notDirectory => 20
  | isDirectory => 21
  | nameTooLong => 36
  | linkLoop => 40

def description : FileFault → Text
  | missing => "No such file or directory".toList
  | denied => "Permission denied".toList
  | occupied => "File exists".toList
  | notDirectory => "Not a directory".toList
  | isDirectory => "Is a directory".toList
  | nameTooLong => "File name too long".toList
  | linkLoop => "Too many levels of symbolic links".toList

end FileFault

namespace Tree

def empty : Tree := directory []

def isDirectory : Tree → Bool
  | directory _ => true
  | _ => false

def isLink : Tree → Bool
  | link _ => true
  | _ => false

/-- Whether a tree is a file whose contents are kept. -/
def isFile : Tree → Bool
  | file _ => true
  | program _ => true
  | _ => false

/-- Whether a tree may be run or entered. -/
def isRunnable : Tree → Bool
  | program _ => true
  | directory _ => true
  | _ => false

/-- What every program starts with. It is no text. -/
def programBytes : Bytes := [0x7f, 0x45, 0x4c, 0x46, 0x02, 0x01, 0x01, 0x00, 0xff]

/-- What can be read from a tree that is no directory. -/
def bytes? : Tree → Option Bytes
  | file bytes => some bytes
  | program _ => some programBytes
  | null => some []
  | _ => none

/-- The tree at a location. -/
def find? : Tree → Location → Option Tree
  | tree, [] => some tree
  | directory inside, name :: rest => (inside.lookup name).bind fun tree => find? tree rest
  | _, _ :: _ => none

/-- The entries of a directory after one was set. A new one comes last. -/
def setIn (name : Text) (tree : Tree) : List (Text × Tree) → List (Text × Tree)
  | [] => [(name, tree)]
  | e :: rest => if e.1 = name then (name, tree) :: rest else e :: setIn name tree rest

/-- Put a tree at a location. Directories above it are made where nothing is. -/
def put : Tree → Location → Tree → Tree
  | _, [], new => new
  | directory inside, name :: rest, new =>
    directory (setIn name (put ((inside.lookup name).getD empty) rest new) inside)
  | tree, _ :: _, _ => tree

/-- Remove what is at a location. -/
def erase : Tree → Location → Tree
  | directory inside, [name] => directory (inside.filter fun e => e.1 != name)
  | directory inside, name :: rest =>
    match inside.lookup name with
    | some tree => directory (setIn name (erase tree rest) inside)
    | none => directory inside
  | tree, _ => tree

/-- Give an entry of a directory another name, where it takes the place of what has that name. It
keeps its own place among the entries. -/
def rename (tree : Tree) (place : Location) (old new : Text) : Tree :=
  match tree.find? place with
  | some (directory inside) =>
    let others := inside.filter fun e => e.1 != new
    tree.put place (directory (others.map fun e => if e.1 = old then (new, e.2) else e))
  | _ => tree

mutual

/-- The trees below a location, those above before those in them. -/
def entriesFrom (here : Location) : Tree → List (Location × Tree)
  | directory inside => entriesIn here inside
  | _ => []

def entriesIn (here : Location) : List (Text × Tree) → List (Location × Tree)
  | [] => []
  | (name, tree) :: rest =>
    (here ++ [name], tree) :: entriesFrom (here ++ [name]) tree ++ entriesIn here rest

end

/-- The trees below a location, without those behind links. -/
def treesBelow (tree : Tree) (place : Location) : List (Location × Tree) :=
  (tree.find? place).elim [] (entriesFrom place)

def linkCount (tree : Tree) : Nat := ((tree.treesBelow []).filter fun e => e.2.isLink).length

/-- The longest name that a directory can hold, in bytes. -/
def longestName : Nat := 255

def isTooLong (name : Text) : Bool := longestName < (String.ofList name).utf8ByteSize

/-- Where a link in a directory leads from. -/
def linkBase (here : Location) (target : Text) : Location :=
  if target.head? = some '/' then [] else here

/-- Where one step of a walk leads: to a location, or to a link. -/
inductive Landing where
  | place (place : Location)
  | link (base : Location) (target : Text)

/-- Take one step of a walk, which must start at a directory. -/
def step (tree : Tree) (here : Location) (name : Text) : Except FileFault Landing :=
  match tree.find? here with
  | none => .error .missing
  | some (directory inside) =>
    if name.isEmpty || name = ['.'] then .ok (.place here)
    else if name = ['.', '.'] then .ok (.place here.dropLast)
    else if isTooLong name then .error .nameTooLong
    else
      match inside.lookup name with
      | some (link target) => .ok (.link (linkBase here target) target)
      | _ => .ok (.place (here ++ [name]))
  | some _ => .error .notDirectory

/-- Walk to the first link, and from there by `follow`. -/
def walkBy (tree : Tree) (follow : Location → List Text → Except FileFault Location) :
    Location → List Text → Except FileFault Location
  | here, [] => .ok here
  | here, name :: rest => do
    match ← tree.step here name with
    | .place next => walkBy tree follow next rest
    | .link base target => follow base (Path.splitSlashes target ++ rest)

/-- Walk through at most so many links. -/
def walkFrom (tree : Tree) : Nat → Location → List Text → Except FileFault Location
  | 0 => tree.walkBy fun _ _ => .error .linkLoop
  | links + 1 => tree.walkBy (tree.walkFrom links)

/-- The most links that a walk follows. -/
def mostLinks : Nat := 40

/-- Where a path leads. The last component need not exist, those before it must. -/
def walk (tree : Tree) (here : Location) (names : List Text) : Except FileFault Location :=
  tree.walkFrom mostLinks here names

/-- Where a path leads when its last component is not followed. -/
def walkToLast (tree : Tree) (here : Location) (names : List Text) :
    Except FileFault Location := do
  match names.getLast? with
  | none => return here
  | some last =>
    let parent ← tree.walk here names.dropLast
    match ← tree.step parent last with
    | .place place => return place
    | .link _ _ => return parent ++ [last]

/-- The tree to which a path leads. -/
def lookup (tree : Tree) (here : Location) (names : List Text) : Except FileFault Tree := do
  match tree.find? (← tree.walk here names) with
  | some found => return found
  | none => .error .missing

/-- Make a directory where nothing is yet. Slashes at the end of its path do not count. -/
def makeDirectory (tree : Tree) (here : Location) (names : List Text) :
    Except FileFault Tree := do
  let place ← tree.walkToLast here (names.reverse.dropWhile List.isEmpty).reverse
  match tree.find? place with
  | some _ => .error .occupied
  | none => return tree.put place empty

/-- Make a link where nothing is yet. -/
def makeLink (tree : Tree) (here : Location) (names : List Text) (target : Text) :
    Except FileFault Tree := do
  let place ← tree.walkToLast here names
  match tree.find? place with
  | some _ => .error .occupied
  | none => return tree.put place (link target)

def readFile (tree : Tree) (here : Location) (names : List Text) :
    Except FileFault Bytes := do
  match (← tree.lookup here names).bytes? with
  | some bytes => return bytes
  | none => .error .isDirectory

/-- Give a file new contents, making it where there is none. -/
def writeFile (tree : Tree) (here : Location) (names : List Text) (bytes : Bytes) :
    Except FileFault Tree := do
  let place ← tree.walk here names
  match tree.find? place with
  | some (directory _) => .error .isDirectory
  | some null => return tree
  | _ => return tree.put place (file bytes)

/-- Remove what a path names, without following a link at its end. -/
def remove (tree : Tree) (here : Location) (names : List Text) : Except FileFault Tree := do
  let place ← tree.walkToLast here names
  match tree.find? place with
  | none => .error .missing
  | some (directory _) => .error .isDirectory
  | some _ => return tree.erase place

end Tree

end NativeGlue
