import NativeGlue.Glue.Acquisition

/-!
The native function of one method. The exported function sets up the pointers, runs the code of
the method and gives the pointers back. Code that may return early runs in a wrapper that takes
the pointers as parameters, so that the exported function can release them afterwards.
-/

namespace NativeGlue

open Text

def lineMarker (line : Int) : Text := "//@line:".toList ++ ofInt line

namespace Declaration

def receiver (d : Declaration) : Text :=
  if d.isStatic then "clazz".toList else "object".toList

def receiverType (d : Declaration) : Text :=
  if d.isStatic then "jclass".toList else "jobject".toList

/-- The values that the exported function passes to the wrapper. -/
def callArguments (d : Declaration) : Text :=
  join ", ".toList
    ("env".toList :: d.receiver :: d.parameters.map Parameter.handle ++ d.acquired.map (·.name))

def body (d : Declaration) : List Text := [lineMarker d.startLine, d.code]

end Declaration

/-- Lines that are followed by an empty line, unless there are none. -/
def paragraph (lines : List Text) : List Text := if lines.isEmpty then [] else lines ++ [[]]

namespace Linked

/-- A handle with the native type that the signature gives it. -/
def handleParameter (m : Linked) (index : Nat) (p : Parameter) : Except GlueFault Text :=
  match m.signature.parameterTypes[index + 2]? with
  | some type => .ok (type ++ ' ' :: p.handle)
  | none => .error (.missingType (index + 2))

def handleParameters (m : Linked) : Except GlueFault (List Text) :=
  m.declaration.parameters.zipIdx.mapM fun (p, index) => m.handleParameter index p

def receiverParameters (m : Linked) : List Text :=
  ["JNIEnv* env".toList, m.declaration.receiverType ++ ' ' :: m.declaration.receiver]

/-- The parameters of the exported function. -/
def parameterList (m : Linked) : Except GlueFault Text := do
  let handles ← m.handleParameters
  return join ", ".toList (m.receiverParameters ++ handles)

def pointerParameter (p : Parameter) : Text :=
  (p.type.category.pointer?).getD [] ++ ' ' :: p.name

/-- The parameters of the wrapper: those of the exported function and the pointers. -/
def wrapperParameterList (m : Linked) : Except GlueFault Text := do
  let handles ← m.handleParameters
  return join ", ".toList
    (m.receiverParameters ++ handles ++ m.declaration.acquired.map pointerParameter)

def wrapperName (m : Linked) : Text := "wrapped_".toList ++ m.signature.name

def returnsValue (m : Linked) : Bool := m.signature.returnType != "void".toList

def opening : Text := ") \x7b".toList

def closing : List Text := ["\x7d".toList, []]

def exportHead (m : Linked) (parameters : Text) : Text :=
  m.signature.head ++ '(' :: parameters ++ opening

def wrapperCall (m : Linked) : Text :=
  m.wrapperName ++ '(' :: m.declaration.callArguments ++ ");".toList

def returnVariable : Text := "JNI_returnValue".toList

def callLine (m : Linked) : Text :=
  if m.returnsValue then
    '\t' :: m.signature.returnType ++ ' ' :: returnVariable ++ " = ".toList ++ m.wrapperCall
  else '\t' :: m.wrapperCall

def returnLines (m : Linked) : List Text :=
  if m.returnsValue then ["\treturn ".toList ++ returnVariable ++ [';']] else []

def wrapperLines (m : Linked) : Except GlueFault (List Text) := do
  let parameters ← m.wrapperParameterList
  let head := "static inline ".toList ++ m.signature.returnType ++ ' ' :: m.wrapperName ++
    '(' :: parameters ++ opening
  return head :: m.declaration.body ++ closing

/-- The lines of the function, and of the wrapper before it where the code needs one. -/
def lines (m : Linked) : Except GlueFault (List Text) := do
  let prologue ← m.declaration.prologue
  let epilogue ← m.declaration.epilogue
  let parameters ← m.parameterList
  let head := m.exportHead parameters
  let marker := lineMarker m.declaration.startLine
  if m.declaration.needsWrapper then
    let wrapper ← m.wrapperLines
    return marker :: wrapper ++ head :: paragraph prologue ++ m.callLine :: [] ::
      paragraph epilogue ++ m.returnLines ++ closing
  else
    return marker :: head :: paragraph prologue ++ m.declaration.body ++ paragraph epilogue ++
      closing

def text (m : Linked) : Except GlueFault Text := do
  let lines ← m.lines
  return unlines lines ++ ['\n']

end Linked

end NativeGlue
