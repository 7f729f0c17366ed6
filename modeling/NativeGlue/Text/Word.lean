import NativeGlue.Text.Basic
import NativeGlue.Text.WordTable

/-!
The characters of words and identifiers. A source identifier starts with an ASCII letter, an
underscore or a dollar sign and continues with word characters of any script; identifiers on
the native side are ASCII throughout.
-/

namespace NativeGlue.Text

def isAsciiLetter (c : Char) : Bool := c.isAlpha

def isAsciiWord (c : Char) : Bool := c.isAlphanum || c == '_'

def inRanges (ranges : List (Nat × Nat)) (n : Nat) : Bool :=
  ranges.any fun r => r.1 ≤ n && n ≤ r.2

/-- Letters and numerals of any script, and the underscore. -/
def isWord (c : Char) : Bool :=
  isAsciiWord c || (128 ≤ c.toNat && inRanges wordRanges c.toNat)

/-- Decimal digits of any script. -/
def isDecimalDigit (c : Char) : Bool :=
  c.isDigit || (128 ≤ c.toNat && inRanges digitRanges c.toNat)

def isNameStart (c : Char) : Bool := isAsciiLetter c || c == '_' || c == '$'

def isNamePart (c : Char) : Bool := isWord c || c == '$'

/-- A whole text is one source identifier. -/
def isName : Text → Bool
  | [] => false
  | c :: rest => isNameStart c && rest.all isNamePart

/-- A whole text is one identifier of the native side. -/
def isAsciiName : Text → Bool
  | [] => false
  | c :: rest => (isAsciiLetter c || c == '_') && rest.all isAsciiWord

/-- Whether a word may begin after `before`, the last character read. -/
def atNameBoundary (before : Option Char) : Bool := !before.any isNamePart

/-- What follows the first place where `word` stands between other characters than those of
names. -/
def afterWordFrom? (word : Text) (before : Option Char) : Text → Option Text
  | [] => none
  | c :: rest =>
    match dropStart? word (c :: rest) with
    | some after =>
      if atNameBoundary before && atNameBoundary after.head? then some after
      else afterWordFrom? word (some c) rest
    | none => afterWordFrom? word (some c) rest

def hasWord (word t : Text) : Bool := (afterWordFrom? word none t).isSome

end NativeGlue.Text
