import NativeGlue.Source.Parameter

/-!
Statements of a source file. A statement that contains the modifier `native` and a parenthesis
declares a native method; one that opens a scope may be the head of a class.
-/

namespace NativeGlue.Source

open Text

/-- A native method whose code has not been met yet. -/
structure NativeMethod where
  className : Text
  methodName : Text
  isStatic : Bool
  parameters : List Parameter
  line : Int
  deriving DecidableEq, Repr

def nativeWord : Text := "native".toList

def isNativeStatement (statement : Text) : Bool :=
  hasWord nativeWord statement && statement.contains '('

def classWords : List Text :=
  ["class".toList, "interface".toList, "enum".toList, "record".toList]

/-- The name after a class keyword. -/
def nameAfterKeyword? (t : Text) : Option Text :=
  classWords.findSome? fun word =>
    (dropStart? word t).bind fun rest =>
      match rest.head?.any isBlank, skipBlanks rest with
      | true, c :: tail => if isNameStart c then some (c :: tail.takeWhile isNamePart) else none
      | _, _ => none

/-- A keyword does not count after a name character, a dot or an at sign. -/
def mayStartKeyword (before : Option Char) : Bool :=
  !before.any fun c => isNamePart c || c == '.' || c == '@'

def classNameFrom? (before : Option Char) : Text → Option Text
  | [] => none
  | c :: rest =>
    match if mayStartKeyword before then nameAfterKeyword? (c :: rest) else none with
    | some name => some name
    | none => classNameFrom? (some c) rest

/-- The name of the class that a statement is the head of. -/
def className? (statement : Text) : Option Text := classNameFrom? none statement

/-- A statement cut at its parameter list. -/
structure MethodHead where
  words : List Text
  parameters : Text
  trailer : Text

def cutParameters (statement : Text) : Except Fault MethodHead :=
  let head := statement.takeWhile (· != '(')
  match statement.dropWhile (· != '(') with
  | [] => .error (.noParameterList (squeeze statement))
  | list@(_ :: inside) =>
    match closing? list with
    | none => .error .openParameterList
    | some close => .ok ⟨words head, inside.take (close - 1), squeeze (list.drop (close + 1))⟩

def checkTrailer (trailer : Text) : Except Fault Unit :=
  if trailer.isEmpty || "throws ".toList.isPrefixOf trailer then .ok ()
  else .error (.textAfterParameters trailer)

/-- The method's name and the words before it. -/
def methodName (statement : Text) (words : List Text) : Except Fault (Text × List Text) :=
  match words.getLast? with
  | none => .error (.noMethodName (squeeze statement))
  | some name =>
    let modifiers := words.dropLast
    if !isName name || name == nativeWord then .error (.noMethodName (squeeze statement))
    else if modifiers.contains nativeWord then .ok (name, modifiers)
    else .error (.misplacedNative (squeeze statement))

/-- Read the native method that a statement declares inside the class `owner`. -/
def readNativeMethod (owner : Option Text) (line : Int) (statement : Text) :
    Except Fault NativeMethod := do
  let statement := eraseAnnotations statement
  let head ← cutParameters statement
  checkTrailer head.trailer
  let (name, modifiers) ← methodName statement head.words
  match owner with
  | none => .error (.outsideClass name)
  | some className =>
    let parameters ← (splitParameters head.parameters).mapM readParameter
    return ⟨className, name, modifiers.contains "static".toList, parameters, line⟩

end NativeGlue.Source
