import NativeGlue.Text.Basic

/-!
The common blocks of two lists of lines. The longest block comes first, then the longest ones on
either side of it. In a second list of 200 lines or more, lines that make up more than a
hundredth of it do not start a block, though blocks may extend over them.
-/

namespace NativeGlue.Diff

/-- A run of equal lines: where it starts in either list, and its length. -/
structure Block where
  left : Nat
  right : Nat
  size : Nat
  deriving DecidableEq, Repr

/-- A part of both lists. -/
structure Window where
  leftStart : Nat
  leftEnd : Nat
  rightStart : Nat
  rightEnd : Nat
  deriving DecidableEq, Repr

structure Pair where
  left : Array Text
  right : Array Text
  /-- For each line on the left, where it stands on the right, in increasing order. -/
  places : Array (List Nat)

namespace Pair

def placesOf (right : Array Text) (line : Text) : List Nat :=
  let found := (List.range right.size).filter fun j => right[j]? == some line
  if 200 ≤ right.size && right.size / 100 + 1 < found.length then [] else found

def ofLists (left right : List Text) : Pair :=
  let right := right.toArray
  ⟨left.toArray, right, left.toArray.map (placesOf right)⟩

/-- Whether two lines are equal. -/
def agree (p : Pair) (i j : Nat) : Bool := p.left[i]? == p.right[j]?

/-- The lengths of the runs that end in one row, by their place on the right. -/
abbrev Row := List (Nat × Nat)

def runLength (above : Row) (j : Nat) : Nat :=
  match j with
  | 0 => 1
  | before + 1 => (above.lookup before).getD 0 + 1

/-- Extend the runs of the row above by line `i` of the left list, and keep the longest run seen,
the first of equals. -/
def scanRow (p : Pair) (w : Window) (state : Row × Block) (i : Nat) : Row × Block :=
  let places := (p.places[i]?.getD []).filter fun j => w.rightStart ≤ j && j < w.rightEnd
  let row := places.map fun j => (j, runLength state.1 j)
  let best := row.foldl
    (fun best (j, size) => if best.size < size then ⟨i + 1 - size, j + 1 - size, size⟩ else best)
    state.2
  (row, best)

/-- At most `room` more lines before the block. -/
def extendBack (p : Pair) : Nat → Block → Block
  | 0, b => b
  | room + 1, b =>
    if p.agree (b.left - 1) (b.right - 1) then
      extendBack p room ⟨b.left - 1, b.right - 1, b.size + 1⟩
    else b

/-- At most `room` more lines after the block. -/
def extendOn (p : Pair) : Nat → Block → Block
  | 0, b => b
  | room + 1, b =>
    if p.agree (b.left + b.size) (b.right + b.size) then
      extendOn p room { b with size := b.size + 1 }
    else b

/-- The longest block within a window. -/
def longest (p : Pair) (w : Window) : Block :=
  let rows := (List.range (w.leftEnd - w.leftStart)).map (· + w.leftStart)
  let found := (rows.foldl (p.scanRow w) ([], ⟨w.leftStart, w.rightStart, 0⟩)).2
  let back := p.extendBack (min (found.left - w.leftStart) (found.right - w.rightStart)) found
  p.extendOn
    (min (w.leftEnd - (back.left + back.size)) (w.rightEnd - (back.right + back.size))) back

/-- The blocks within a window from left to right; `fuel` bounds how often it is divided. -/
def blocksIn (p : Pair) : Nat → Window → List Block
  | 0, _ => []
  | fuel + 1, w =>
    let b := p.longest w
    if b.size = 0 then []
    else
      blocksIn p fuel { w with leftEnd := b.left, rightEnd := b.right } ++
        b :: blocksIn p fuel { w with leftStart := b.left + b.size, rightStart := b.right + b.size }

/-- Join blocks that follow each other without a gap. -/
def joinBlocks : List Block → List Block
  | [] => []
  | b :: rest =>
    match joinBlocks rest with
    | [] => [b]
    | next :: more =>
      if b.left + b.size = next.left && b.right + b.size = next.right then
        ⟨b.left, b.right, b.size + next.size⟩ :: more
      else b :: next :: more

/-- The blocks of both lists, with an empty one at their ends. -/
def blocks (p : Pair) : List Block :=
  joinBlocks (p.blocksIn (p.left.size + 1) ⟨0, p.left.size, 0, p.right.size⟩) ++
    [⟨p.left.size, p.right.size, 0⟩]

end Pair

end NativeGlue.Diff
