import NativeGlue.Header.Signature
import NativeGlue.Source.Parameter

/-!
The segments of a source file, in the order in which they stand there: blocks of native code
that are copied as they are, and native methods with the code of their bodies. A method is
linked once the signature of its native function is known.
-/

namespace NativeGlue

structure RawBlock where
  code : Text
  line : Int
  deriving DecidableEq, Repr

structure Declaration where
  className : Text
  methodName : Text
  isStatic : Bool
  parameters : List Parameter
  code : Text
  startLine : Int
  endLine : Int
  signatureLine : Int
  deriving DecidableEq, Repr

namespace Declaration

/-- The method under the name of its class. -/
def title (d : Declaration) : Text := d.className ++ '#' :: d.methodName

def hasAcquired (d : Declaration) : Bool := d.parameters.any (·.type.isAcquired)

end Declaration

structure Linked where
  declaration : Declaration
  signature : Signature
  deriving DecidableEq, Repr

inductive Segment where
  | raw (block : RawBlock)
  | declared (declaration : Declaration)
  | linked (method : Linked)
  deriving DecidableEq, Repr

namespace Segment

def declaration? : Segment → Option Declaration
  | raw _ => none
  | declared d => some d
  | linked m => some m.declaration

def linked? : Segment → Option Linked
  | linked m => some m
  | _ => none

end Segment

end NativeGlue
