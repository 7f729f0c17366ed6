import NativeGlue.Text.Basic

/-!
What can be wrong with a source file, and where. A place is written as the path and the line,
and a text without a path stands for itself.
-/

namespace NativeGlue

open Text

structure Place where
  path : Option Text
  line : Option Int
  deriving DecidableEq, Repr

namespace Place

def pathText (path : Option Text) : Text :=
  match path with
  | none | some [] => "<source>".toList
  | some p => p

def render (place : Place) : Text :=
  match place.line with
  | none => pathText place.path
  | some line => pathText place.path ++ ':' :: ofInt line

/-- A message about a place. -/
def say (place : Place) (message : Text) : Text := place.render ++ ": ".toList ++ message

end Place

namespace Source

inductive Fault where
  | openComment
  | openLiteral
  | openTextBlock
  | strayBrace
  | noParameterList (statement : Text)
  | openParameterList
  | textAfterParameters (text : Text)
  | noMethodName (statement : Text)
  | misplacedNative (statement : Text)
  | outsideClass (method : Text)
  | emptyParameter
  | malformedVarargs (parameter : Text)
  | incompleteParameter (parameter : Text)
  deriving DecidableEq, Repr

def Fault.message : Fault → Text
  | openComment => "unterminated block comment".toList
  | openLiteral => "unterminated literal".toList
  | openTextBlock => "unterminated text block".toList
  | strayBrace => "unmatched '\x7d'".toList
  | noParameterList statement =>
    "native declaration has no parameter list: '".toList ++ statement ++ ['\'']
  | openParameterList => "unbalanced parentheses in native method signature".toList
  | textAfterParameters text =>
    "unexpected text after native method parameters: '".toList ++ text ++ ['\'']
  | noMethodName statement =>
    "native method signature has no method name: '".toList ++ statement ++ ['\'']
  | misplacedNative statement =>
    "'native' must be a modifier of the method: '".toList ++ statement ++ ['\'']
  | outsideClass method =>
    "native method '".toList ++ method ++ "' is declared outside of a class".toList
  | emptyParameter => "empty parameter in native method signature".toList
  | malformedVarargs parameter =>
    "malformed varargs parameter '".toList ++ parameter ++ ['\'']
  | incompleteParameter parameter =>
    "parameter '".toList ++ parameter ++ "' must declare both a type and a name".toList

/-- A fault and the line that reports it. -/
structure Problem where
  line : Int
  fault : Fault
  deriving DecidableEq, Repr

def Problem.message (path : Option Text) (p : Problem) : Text :=
  Place.say ⟨path, some p.line⟩ p.fault.message

end Source

end NativeGlue
