/-!
Texts are lists of characters, so that readers recurse on them and offsets count characters.
This module finds, replaces and joins pieces of text and writes numbers.
-/

namespace NativeGlue

abbrev Text := List Char

namespace Text

/-- What follows a given beginning. -/
def dropStart? : Text → Text → Option Text
  | [], t => some t
  | _ :: _, [] => none
  | p :: ps, c :: cs => if p = c then dropStart? ps cs else none

theorem eq_append_of_dropStart? {start t after : Text} (h : dropStart? start t = some after) :
    t = start ++ after := by
  fun_induction dropStart? start t with
  | case1 => cases h; rfl
  | case2 => cases h
  | case3 p ps cs ih => simp [ih h]
  | case4 => cases h

/-- The text before and after the first occurrence of `part`. -/
def cut? (part : Text) : Text → Option (Text × Text)
  | [] => (dropStart? part []).map fun after => ([], after)
  | c :: rest =>
    match dropStart? part (c :: rest) with
    | some after => some ([], after)
    | none => (cut? part rest).map fun found => (c :: found.1, found.2)

def occursIn (part t : Text) : Bool := (cut? part t).isSome

/-- The first `skip` characters belong to an occurrence already replaced. -/
def replaceFrom (part new : Text) : Nat → Text → Text
  | _, [] => []
  | skip + 1, _ :: rest => replaceFrom part new skip rest
  | 0, c :: rest =>
    if part.isPrefixOf (c :: rest) then new ++ replaceFrom part new (part.length - 1) rest
    else c :: replaceFrom part new 0 rest

/-- Replace the occurrences of a nonempty part that a scan from the left meets. -/
def replace (part new t : Text) : Text := replaceFrom part new 0 t

def join (separator : Text) (pieces : List Text) : Text := List.intercalate separator pieces

/-- Lines joined by line feeds, with none at the end. -/
def unlines (lines : List Text) : Text := join ['\n'] lines

/-- The number of line feeds. -/
def feeds (t : Text) : Nat := t.count '\n'

def endsWith (ending t : Text) : Bool := ending.isSuffixOf t

def ofNat (n : Nat) : Text := Nat.toDigits 10 n

def ofInt : Int → Text
  | .ofNat n => ofNat n
  | .negSucc n => '-' :: ofNat (n + 1)

/-- Lower-case hexadecimal digits, filled up with zeros on the left. -/
def hex (width n : Nat) : Text :=
  let digits := Nat.toDigits 16 n
  List.replicate (width - digits.length) '0' ++ digits

/-- Order by code point, a beginning before its continuations. -/
def le : Text → Text → Bool
  | [], _ => true
  | _ :: _, [] => false
  | a :: as, b :: bs => if a = b then le as bs else a.toNat < b.toNat

def sort (ts : List Text) : List Text := ts.mergeSort le

end Text

end NativeGlue
