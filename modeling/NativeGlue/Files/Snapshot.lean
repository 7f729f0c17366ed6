import NativeGlue.Files.Tree
import Std.Data.HashMap

/-!
What a directory shows before and after some work. A snapshot lists the paths below a directory
with what is found there; links are shown as what they lead to.
-/

namespace NativeGlue

open Text

/-- The bytes of a file; directories and links that lead nowhere show nothing. -/
abbrev Shown := Option Bytes

/-- The paths below a directory, those of directories with a slash at the end. -/
abbrev Snapshot := List (Text × Shown)

namespace Snapshot

def line (root : Tree) (directory place : Location) (tree : Tree) : Text × Shown :=
  let name := join ['/'] (place.drop directory.length)
  match if tree.isLink then root.lookup [] place else .ok tree with
  | .error _ => (name, none)
  | .ok found =>
    match found.bytes? with
    | some bytes => (name, some bytes)
    | none => (name ++ ['/'], none)

def of (tree : Tree) (directory : Location) : Snapshot :=
  (tree.treesBelow directory).map fun e => line tree directory e.1 e.2

/-- What a snapshot shows by path. -/
def byPath (s : Snapshot) : Std.HashMap String Shown :=
  Std.HashMap.ofList (s.map fun e => (String.ofList e.1, e.2))

/-- The lines that are new or show something else than before. -/
def changed (before after : Snapshot) : Snapshot :=
  let known := byPath before
  after.filter fun e => known[String.ofList e.1]? != some e.2

/-- The paths that are gone, in order. -/
def removed (before after : Snapshot) : List Text :=
  let known := byPath after
  Text.sort ((before.map (·.1)).filter fun name => !known.contains (String.ofList name))

end Snapshot

end NativeGlue
