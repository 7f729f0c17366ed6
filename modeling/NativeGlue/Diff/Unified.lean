import NativeGlue.Diff.Matching
import NativeGlue.Text.Lines

/-!
Differences of two texts in the unified format. Changes with at most six equal lines between
them share a hunk, and three equal lines are shown on either side of it.
-/

namespace NativeGlue.Diff

open Text

inductive Tag where
  | equal | replace | delete | insert
  deriving DecidableEq, Repr

/-- How a part of the left list becomes a part of the right one. -/
structure Edit where
  tag : Tag
  part : Window
  deriving DecidableEq, Repr

def context : Nat := 3

def tagOf (w : Window) : Option Tag :=
  match decide (w.leftStart < w.leftEnd), decide (w.rightStart < w.rightEnd) with
  | true, true => some .replace
  | true, false => some .delete
  | false, true => some .insert
  | false, false => none

/-- The edits from the given places on. -/
def editsFrom (left right : Nat) : List Block → List Edit
  | [] => []
  | b :: rest =>
    let gap : Window := ⟨left, b.left, right, b.right⟩
    let same : Window := ⟨b.left, b.left + b.size, b.right, b.right + b.size⟩
    let change := (tagOf gap).toList.map fun tag => Edit.mk tag gap
    let keep := if b.size = 0 then [] else [Edit.mk .equal same]
    change ++ keep ++ editsFrom (b.left + b.size) (b.right + b.size) rest

def edits (p : Pair) : List Edit := editsFrom 0 0 p.blocks

/-- The last equal lines before a change. -/
def lastLines (w : Window) : Window :=
  { w with
    leftStart := max w.leftStart (w.leftEnd - context)
    rightStart := max w.rightStart (w.rightEnd - context) }

/-- The first equal lines after a change. -/
def firstLines (w : Window) : Window :=
  { w with
    leftEnd := min w.leftEnd (w.leftStart + context)
    rightEnd := min w.rightEnd (w.rightStart + context) }

def Edit.onEqual (f : Window → Window) (e : Edit) : Edit :=
  if e.tag = .equal then { e with part := f e.part } else e

def trimFirst : List Edit → List Edit
  | [] => []
  | e :: rest => e.onEqual lastLines :: rest

def trimLast : List Edit → List Edit
  | [] => []
  | [e] => [e.onEqual firstLines]
  | e :: rest => e :: trimLast rest

def isLong (e : Edit) : Bool :=
  e.tag = .equal && 2 * context < e.part.leftEnd - e.part.leftStart

/-- Cut the edits in the middle of long runs of equal lines; `hunk` holds the edits of the
current hunk. -/
def hunksFrom (hunk : List Edit) : List Edit → List (List Edit)
  | [] => [hunk]
  | e :: rest =>
    if isLong e then
      (hunk ++ [e.onEqual firstLines]) :: hunksFrom [e.onEqual lastLines] rest
    else hunksFrom (hunk ++ [e]) rest

def hasChange (hunk : List Edit) : Bool := hunk.any fun e => e.tag != .equal

def hunks (p : Pair) : List (List Edit) :=
  (hunksFrom [] (trimLast (trimFirst (edits p)))).filter hasChange

/-- A range of lines: its first line and its length, which is left out when it is one. An empty
range is given by the line before it. -/
def rangeText (start stop : Nat) : Text :=
  let length := stop - start
  if length = 1 then ofNat (start + 1)
  else if length = 0 then ofNat start ++ ",0".toList
  else ofNat (start + 1) ++ ',' :: ofNat length

def headerLine (hunk : List Edit) : List Text :=
  match hunk.head?, hunk.getLast? with
  | some first, some last =>
    ["@@ -".toList ++ rangeText first.part.leftStart last.part.leftEnd ++ " +".toList ++
      rangeText first.part.rightStart last.part.rightEnd ++ " @@".toList]
  | _, _ => []

def slice (lines : Array Text) (start stop : Nat) : List Text := (lines.extract start stop).toList

def editLines (p : Pair) (e : Edit) : List Text :=
  let removed := slice p.left e.part.leftStart e.part.leftEnd
  let added := slice p.right e.part.rightStart e.part.rightEnd
  match e.tag with
  | .equal => removed.map (' ' :: ·)
  | _ => removed.map ('-' :: ·) ++ added.map ('+' :: ·)

def hunkLines (p : Pair) (hunk : List Edit) : List Text :=
  headerLine hunk ++ hunk.flatMap (editLines p)

/-- The lines of the difference, none where the lists are equal. -/
def unifiedLines (left right : List Text) (leftLabel rightLabel : Text) : List Text :=
  let p := Pair.ofLists left right
  match hunks p with
  | [] => []
  | found =>
    ("--- ".toList ++ leftLabel) :: ("+++ ".toList ++ rightLabel) :: found.flatMap (hunkLines p)

def unified (old new oldLabel newLabel : Text) : Text :=
  unlines (unifiedLines (lines old) (lines new) oldLabel newLabel)

end NativeGlue.Diff
