import NativeGlue.JavaType
import NativeGlue.Source.Annotation
import NativeGlue.Source.Fault
import NativeGlue.Text.Commas

/-!
Parameters of native methods. A parameter declares a type and a name; array brackets after the
name belong to the type, and three dots between the two make the type an array. Annotations and
the modifier `final` are not part of either.
-/

namespace NativeGlue

structure Parameter where
  name : Text
  type : JavaType
  deriving DecidableEq, Repr

namespace Source

open Text

/-- Parentheses and the angle brackets of type arguments. -/
def parameterBrackets : Brackets :=
  ⟨fun c => c == '<' || c == '(', fun c => c == '>' || c == ')'⟩

def splitParameters (list : Text) : List Text := pieces parameterBrackets list

/-- `before` is the last character read. -/
def eraseFinalFrom (before : Option Char) : Text → Text
  | 'f' :: 'i' :: 'n' :: 'a' :: 'l' :: c :: rest =>
    if atNameBoundary before && isBlank c then ' ' :: eraseFinalFrom (some c) rest
    else 'f' :: eraseFinalFrom (some 'f') ('i' :: 'n' :: 'a' :: 'l' :: c :: rest)
  | c :: rest => c :: eraseFinalFrom (some c) rest
  | [] => []

/-- The modifier `final` and the blank after it become one space. -/
def eraseFinal (t : Text) : Text := eraseFinalFrom none t

/-- The number of bracket pairs, if a squeezed text consists of nothing else. -/
def bracketPairs? : Text → Option Nat
  | [] => some 0
  | ' ' :: '[' :: ' ' :: ']' :: rest => (bracketPairs? rest).map (· + 1)
  | ' ' :: '[' :: ']' :: rest => (bracketPairs? rest).map (· + 1)
  | '[' :: ' ' :: ']' :: rest => (bracketPairs? rest).map (· + 1)
  | '[' :: ']' :: rest => (bracketPairs? rest).map (· + 1)
  | _ => none

/-- A character that may end a type. -/
def endsType (c : Char) : Bool := isNamePart c || c == '>' || c == ']'

def isDeclaratorPart (c : Char) : Bool := !(isBlank c || c == '[' || c == ']')

/-- A name and the number of bracket pairs after it. -/
def declarator? (t : Text) : Option (Text × Nat) :=
  let name := t.takeWhile isDeclaratorPart
  if name.isEmpty then none
  else (bracketPairs? (t.dropWhile isDeclaratorPart)).map fun pairs => (name, pairs)

/-- The first space that ends a type and is followed by nothing but a declarator; `type` is what
stands before. -/
def splitDeclaratorFrom? (type : Text) : Text → Option (Text × Text × Nat)
  | [] => none
  | c :: rest =>
    let found := if c = ' ' && type.getLast?.any endsType then declarator? rest else none
    match found with
    | some (name, pairs) => some (type, name, pairs)
    | none => splitDeclaratorFrom? (type ++ [c]) rest

def bracketText (pairs : Nat) : Text := (List.replicate pairs "[]".toList).flatten

/-- A parameter in squeezed form, without annotations and modifiers. -/
def readDeclarator (t : Text) : Except Fault Parameter :=
  match cut? "...".toList t with
  | some (before, after) =>
    let type := trim before
    let name := trim after
    if type.isEmpty || name.isEmpty || name.contains ' ' then .error (.malformedVarargs t)
    else .ok ⟨name, JavaType.read (type ++ "[]".toList)⟩
  | none =>
    match splitDeclaratorFrom? [] t with
    | some (type, name, pairs) => .ok ⟨name, JavaType.read (type ++ bracketText pairs)⟩
    | none => .error (.incompleteParameter t)

def readParameter (declared : Text) : Except Fault Parameter :=
  let t := squeeze (eraseFinal (eraseAnnotations declared))
  if t.isEmpty then .error .emptyParameter else readDeclarator t

end Source

end NativeGlue
