import NativeGlue.Text.Basic

/-!
Blanks are the characters that separate words: ASCII white space, the four information
separators and the space characters of Unicode. A squeezed text is its words with one space
between them, so it neither begins nor ends with a blank.
-/

namespace NativeGlue.Text

def isBlank (c : Char) : Bool :=
  let n := c.toNat
  (9 ≤ n && n ≤ 13) || (28 ≤ n && n ≤ 32) || n == 0x85 || n == 0xA0 || n == 0x1680 ||
    (0x2000 ≤ n && n ≤ 0x200A) || n == 0x2028 || n == 0x2029 || n == 0x202F || n == 0x205F ||
    n == 0x3000

def skipBlanks (t : Text) : Text := t.dropWhile isBlank

def trimEnd (t : Text) : Text := (skipBlanks t.reverse).reverse

def trim (t : Text) : Text := trimEnd (skipBlanks t)

/-- `word` holds the characters of the word that the text continues. -/
def wordsFrom (word : Text) : Text → List Text
  | [] => if word.isEmpty then [] else [word]
  | c :: rest =>
    if isBlank c then
      if word.isEmpty then wordsFrom [] rest else word :: wordsFrom [] rest
    else wordsFrom (word ++ [c]) rest

/-- The maximal runs of characters that are not blank. -/
def words (t : Text) : List Text := wordsFrom [] t

def squeeze (t : Text) : Text := join [' '] (words t)

theorem length_skipBlanks_le (t : Text) : (skipBlanks t).length ≤ t.length := by
  induction t with
  | nil => exact Nat.le_refl _
  | cons c rest ih =>
    simp only [skipBlanks, List.dropWhile_cons] at ih ⊢
    split
    · exact Nat.le_succ_of_le ih
    · exact Nat.le_refl _

end NativeGlue.Text
