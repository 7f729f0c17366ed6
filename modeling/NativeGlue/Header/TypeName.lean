import NativeGlue.Text.Blank
import NativeGlue.Text.Commas
import NativeGlue.Text.Word

/-!
Types in native headers. The normal spelling has single spaces, none next to a star but for one
where a word follows it. A parameter may name its type alone or a type and a name; the name is
dropped when the type is one of the interface's own.
-/

namespace NativeGlue.Header

open Text

/-- A squeezed text without the spaces next to a star. -/
def tightenFrom (afterStar : Bool) : Text → Text
  | [] => []
  | [c] => if c = ' ' && afterStar then [] else [c]
  | c :: d :: rest =>
    if c = ' ' && (afterStar || d = '*') then tightenFrom false (d :: rest)
    else c :: tightenFrom (c = '*') (d :: rest)

def startsWord (c : Char) : Bool := isAsciiLetter c || c == '_'

def spaceAfterStars : Text → Text
  | '*' :: c :: rest =>
    if startsWord c then '*' :: ' ' :: spaceAfterStars (c :: rest)
    else '*' :: spaceAfterStars (c :: rest)
  | c :: rest => c :: spaceAfterStars rest
  | [] => []

def normalizeType (t : Text) : Text := spaceAfterStars (tightenFrom false (squeeze t))

def parameterBrackets : Brackets :=
  ⟨fun c => c == '(' || c == '[', fun c => c == ')' || c == ']'⟩

/-- The parameters of a prototype in squeezed form. A list that only says `void` is empty, and
so is what stands between two commas without a word. -/
def splitParameters (list : Text) : List Text :=
  if trim list == "void".toList then []
  else ((pieces parameterBrackets list).map squeeze).filter (!·.isEmpty)

/-- The names of interface types: two by name, and a lower-case `j` followed by letters. -/
def isInterfaceName (t : Text) : Bool :=
  t == "JNIEnv".toList || t == "JavaVM".toList ||
    (match t with
    | 'j' :: c :: rest => (c :: rest).all isAsciiLetter
    | _ => false)

/-- An interface type with at most one star. -/
def isInterfaceType (t : Text) : Bool :=
  isInterfaceName t || (endsWith ['*'] t && isInterfaceName t.dropLast)

def parameterType (declared : Text) : Text :=
  let t := normalizeType declared
  match words t with
  | [type, name] => if isAsciiName name && isInterfaceType type then type else t
  | _ => t

end NativeGlue.Header
