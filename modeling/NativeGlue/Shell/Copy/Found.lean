import NativeGlue.Shell.Copy.Manner

/-!
What is found at the paths that are copied from and to, and when both lead to the same: a file is
known by its location, and the entry of a directory by that directory and a name in it.
-/

namespace NativeGlue.Shell

open Text

/-- Where a path leads and what is there. -/
structure Found where
  place : Location
  tree : Tree

namespace Found

/-- What is at a path. A link at its end is followed or not. Streams count as files. -/
def look (follows : Bool) (path : Text) : Run (Except FileFault Found) :=
  match streamAt? path with
  | some fd => do
    match ← Run.unread? fd with
    | some t => return .ok ⟨Path.splitSlashes path, .file (toBytes t)⟩
    | none => return .error .missing
  | none =>
    Run.onTree path fun tree here names => do
      let place ← if follows then tree.walk here names else tree.walkToLast here names
      match tree.find? place with
      | some found => return ⟨place, found⟩
      | none => throw .missing

def at? (follows : Bool) (path : Text) : Run (Option Found) := do
  return (← look follows path).toOption

end Found

namespace FileName

def withoutSlashes (path : Text) : Text :=
  let t := (path.reverse.dropWhile (· == '/')).reverse
  if t.isEmpty then path.take 1 else t

/-- The last component of a path. -/
def last (path : Text) : Text :=
  ((Path.splitSlashes (withoutSlashes path)).getLast?).getD []

/-- The path without its last component. -/
def lead (path : Text) : Text :=
  let t := withoutSlashes path
  let rest := t.take (t.length - (last path).length)
  if rest.isEmpty then ['.'] else withoutSlashes rest

/-- The path of a name in a directory. -/
def inside (directory name : Text) : Text :=
  let directory := withoutSlashes directory
  if directory = ['/'] || name.head? = some '/' then directory ++ name
  else directory ++ '/' :: name

/-- The starts of a path, in front of those slashes that come after a name. -/
def startsFrom (read : Text) : Text → List Text
  | [] => []
  | c :: rest =>
    let more := startsFrom (c :: read) rest
    if c = '/' && read.head?.any (· != '/') then read.reverse :: more else more

def starts (path : Text) : List Text := startsFrom [] path

/-- The entry that a path names: where the path without its last component leads, and that
component. A link at the end of the former is only followed if it is the directory into which
operands are copied. -/
def entry? (directory : Option Text) (path : Text) : Run (Option (Location × Text)) := do
  let follows := directory.any fun d => withoutSlashes d == lead path
  return (← Found.at? follows (lead path)).map fun found => (found.place, last path)

end FileName

namespace Copy

/-- What is to be done about a source and a target that may be one file. -/
inductive Verdict where
  | goOn
  /-- There is nothing to be done. -/
  | settled
  /-- The source would be lost. -/
  | refused
  deriving DecidableEq, Repr

/-- Whether a source and a target are the same entry of a directory. -/
def isSameEntry (m : Manner) (source target : Text) : Run Bool := do
  match ← FileName.entry? none source, ← FileName.entry? m.directory target with
  | some x, some y => return x == y
  | _, _ => return false

/-- The verdict on two files that stand for the source and the target when links are not followed,
if they were not told apart before. -/
def verdictOnLinks (m : Manner) (source target : Text) (named there : Found) : Run Verdict := do
  let isSameLink := named.place == there.place
  let isLinked := named.tree.isLink || there.tree.isLink
  if m.backup.isSome then
    if isSameLink then
      return if ← isSameEntry m source target then .refused else .goOn
    else if m.following != .never && named.tree.isLink && !there.tree.isLink then return .refused
    else return .goOn
  else if m.removes && there.tree.isLink then return .goOn
  else if !isLinked && !isSameLink then return .goOn
  else if !isLinked && m.making = .hardLink then return .settled
  else if m.making = .symbolicLink && there.tree.isLink then return .goOn
  else if m.following = .never then
    match ← Found.at? true source, ← Found.at? true target with
    | some a, some b =>
      if a.place != b.place then return .goOn
      else if m.making != .hardLink then return .refused
      else return if there.tree.isLink then .goOn else .settled
    | _, _ => return .goOn
  else return .refused

/-- The verdict on a source and what is at its target. -/
def verdict (m : Manner) (source target : Text) (found old : Found) : Run Verdict := do
  let isSame := found.place == old.place
  if isSame && m.making = .hardLink then return .settled
  else if m.following = .never then
    if found.tree.isLink && old.tree.isLink then
      return if ← isSameEntry m source target then .refused
        else if m.backup.isNone && isSame then .settled else .goOn
    else verdictOnLinks m source target found old
  else if !isSame then return .goOn
  else
    match ← Found.at? false source, ← Found.at? false target with
    | some named, some there =>
      if named.tree.isLink && there.tree.isLink && m.removes then return .goOn
      else verdictOnLinks m source target named there
    | _, _ => return .goOn

end Copy

end NativeGlue.Shell
