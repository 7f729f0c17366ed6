import NativeGlue.Header.Comment
import NativeGlue.Header.TypeName
import NativeGlue.Text.Lines

/-!
Prototypes of exported functions in a native header. A prototype is the export macro, a return
type, the call macro, a name and a parameter list in parentheses, ended by a semicolon; all else
in the header is passed over.
-/

namespace NativeGlue

structure Signature where
  head : Text
  name : Text
  parameterTypes : List Text
  returnType : Text
  line : Int
  deriving DecidableEq, Repr

/-- The parameters besides the environment and the receiver; negative where these are missing. -/
def Signature.ownParameterCount (s : Signature) : Int := (s.parameterTypes.length : Int) - 2

namespace Header

open Text

def exportMacro : Text := "JNIEXPORT".toList

def callMacro : Text := "JNICALL".toList

/-- The four parts of a prototype and what follows it. -/
structure Prototype where
  returnType : Text
  name : Text
  parameters : Text
  rest : Text
  deriving DecidableEq, Repr

def isBrace (c : Char) : Bool := c == '{' || c == '}'

/-- The text before the first semicolon and what follows it, where no brace comes first. -/
def untilSemicolon? : Text → Option (Text × Text)
  | [] => none
  | c :: rest =>
    if c = ';' then some ([], rest)
    else if isBrace c then none
    else (untilSemicolon? rest).map fun found => (c :: found.1, found.2)

/-- The text before a closing parenthesis that only blanks follow. -/
def beforeClosing? (t : Text) : Option Text :=
  let t := trimEnd t
  if t.getLast? = some ')' then some t.dropLast else none

/-- The name, the parameters and the semicolon, read after the call macro. -/
def afterCall? (returnType t : Text) : Option Prototype :=
  let named := skipBlanks t
  let name := named.takeWhile isAsciiWord
  let isCut := t.head?.any isBlank && isAsciiName name
  match if isCut then skipBlanks (named.dropWhile isAsciiWord) else [] with
  | '(' :: inside =>
    (untilSemicolon? inside).bind fun (list, rest) =>
      (beforeClosing? list).map fun parameters => ⟨returnType, name, parameters, rest⟩
  | _ => none

def endsReturnType (c : Char) : Bool := isBrace c || c == ';' || c == '(' || c == ')'

/-- Look for the call macro. `type` is the return type read so far and `gap` the blanks after
it. -/
def afterExportFrom? (type gap : Text) : Text → Option Prototype
  | [] => none
  | c :: rest =>
    let found :=
      if gap.isEmpty then none
      else (dropStart? callMacro (c :: rest)).bind (afterCall? type)
    match found with
    | some prototype => some prototype
    | none =>
      if isBlank c then afterExportFrom? type (gap ++ [c]) rest
      else if endsReturnType c then none
      else afterExportFrom? (type ++ gap ++ [c]) [] rest

/-- A prototype, read after its export macro. The return type may be left out where two blanks
stand in its place. -/
def afterExport? (t : Text) : Option Prototype :=
  let gap := t.takeWhile isBlank
  let rest := t.dropWhile isBlank
  if gap.isEmpty then none
  else
    match afterExportFrom? [] [] rest with
    | some prototype => some prototype
    | none =>
      if gap.length ≥ 2 then (dropStart? callMacro rest).bind (afterCall? []) else none

/-- The prototype at the start of a text. -/
def prototype? (t : Text) : Option Prototype := (dropStart? exportMacro t).bind afterExport?

def lineAfter (line : Int) (c : Char) : Int := if c = '\n' then line + 1 else line

def Prototype.signature (p : Prototype) (line : Int) : Signature :=
  let returnType := normalizeType p.returnType
  { head := exportMacro ++ ' ' :: returnType ++ ' ' :: callMacro ++ ' ' :: p.name
    name := p.name
    parameterTypes := (splitParameters p.parameters).map parameterType
    returnType := returnType
    line := line }

/-- The first `skip` characters belong to a prototype already read. -/
def signaturesFrom : Nat → Int → Text → List Signature
  | _, _, [] => []
  | skip + 1, line, c :: rest => signaturesFrom skip (lineAfter line c) rest
  | 0, line, c :: rest =>
    match prototype? (c :: rest) with
    | some p =>
      p.signature line :: signaturesFrom (rest.length - p.rest.length) (lineAfter line c) rest
    | none => signaturesFrom 0 (lineAfter line c) rest

/-- The signatures that a header declares, in its order. -/
def signatures (header : Text) : List Signature :=
  signaturesFrom 0 1 (eraseComments (joinReturns header))

end Header

end NativeGlue
