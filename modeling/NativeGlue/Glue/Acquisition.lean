import NativeGlue.Segment

/-!
Setting up native pointers and giving them back. Arrays are acquired last and released first,
because no other call into the virtual machine is allowed while one is held. Addresses of
buffers are computed and need no release.
-/

namespace NativeGlue

open Text

inductive GlueFault where
  | noSetup (parameter : Parameter)
  | noCleanup (parameter : Parameter)
  | missingType (index : Nat)
  | notLinked (declaration : Declaration)
  deriving DecidableEq, Repr

namespace GlueFault

def about (p : Parameter) (need : Text) : Text :=
  "argument '".toList ++ p.name ++ "' of type '".toList ++ p.type.spelling ++ "' needs no ".toList
    ++ need

def message : GlueFault → Text
  | noSetup p => about p "setup".toList
  | noCleanup p => about p "cleanup".toList
  | missingType index => "no native type for parameter ".toList ++ ofNat index
  | notLinked _ => "unexpected segment type: Declaration".toList

end GlueFault

namespace Parameter

/-- The name of the handle under which the parameter arrives. An acquired one leaves its own
name to the pointer. -/
def handle (p : Parameter) : Text :=
  if p.type.isAcquired then "obj_".toList ++ p.name else p.name

/-- A line that declares the pointer and obtains it from the handle. -/
def setupLine (p : Parameter) (pointer call closing : Text) : Text :=
  '\t' :: pointer ++ ' ' :: p.name ++ " = (".toList ++ pointer ++ ")env->".toList ++ call ++
    '(' :: p.handle ++ closing

def acquisition (p : Parameter) : Except GlueFault Text :=
  match p.type.category.pointer?, p.type.category with
  | some pointer, .buffer _ =>
    .ok (p.setupLine pointer "GetDirectBufferAddress".toList ");".toList)
  | some pointer, .string => .ok (p.setupLine pointer "GetStringUTFChars".toList ", 0);".toList)
  | some pointer, .array _ =>
    .ok (p.setupLine pointer "GetPrimitiveArrayCritical".toList ", 0);".toList)
  | _, _ => .error (.noSetup p)

def release (p : Parameter) : Except GlueFault Text :=
  match p.type.category with
  | .array _ =>
    .ok ("\tenv->ReleasePrimitiveArrayCritical(".toList ++ p.handle ++ ", ".toList ++ p.name ++
      ", 0);".toList)
  | .string =>
    .ok ("\tenv->ReleaseStringUTFChars(".toList ++ p.handle ++ ", ".toList ++ p.name ++
      ");".toList)
  | _ => .error (.noCleanup p)

end Parameter

namespace Declaration

def buffers (d : Declaration) : List Parameter := d.parameters.filter (·.type.isBuffer)
def strings (d : Declaration) : List Parameter := d.parameters.filter (·.type.isString)
def arrays (d : Declaration) : List Parameter := d.parameters.filter (·.type.isArray)

/-- The parameters with a pointer, in the order in which they are set up. -/
def acquired (d : Declaration) : List Parameter := d.buffers ++ d.strings ++ d.arrays

/-- The parameters whose pointer is given back, in the order of release. -/
def released (d : Declaration) : List Parameter := d.arrays ++ d.strings

def prologue (d : Declaration) : Except GlueFault (List Text) :=
  d.acquired.mapM Parameter.acquisition

def epilogue (d : Declaration) : Except GlueFault (List Text) :=
  d.released.mapM Parameter.release

/-- Code that may return early while a pointer is held goes to a function of its own. Any
occurrence of the word counts, even inside another. -/
def needsWrapper (d : Declaration) : Bool := d.hasAcquired && occursIn "return".toList d.code

end Declaration

end NativeGlue
