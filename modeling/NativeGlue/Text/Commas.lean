import NativeGlue.Text.Blank

/-!
Lists whose elements are separated by commas, where a comma between brackets belongs to its
element. Brackets of all kinds share one depth, and a closing bracket too many leaves it at
zero.
-/

namespace NativeGlue.Text

structure Brackets where
  opens : Char → Bool
  closes : Char → Bool

def Brackets.depthAfter (b : Brackets) (depth : Nat) (c : Char) : Nat :=
  if b.opens c then depth + 1 else if b.closes c then depth - 1 else depth

/-- `piece` holds what was read of the current element. -/
def piecesFrom (b : Brackets) (depth : Nat) (piece : Text) : Text → List Text
  | [] => [piece]
  | c :: rest =>
    if c = ',' && depth = 0 then piece :: piecesFrom b 0 [] rest
    else piecesFrom b (b.depthAfter depth c) (piece ++ [c]) rest

/-- The elements of a list, as they stand between the commas. A blank text lists nothing. -/
def pieces (b : Brackets) (t : Text) : List Text :=
  let list := trim t
  if list.isEmpty then [] else piecesFrom b 0 [] list

end NativeGlue.Text
