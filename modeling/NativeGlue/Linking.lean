import NativeGlue.Symbol

/-!
Linking gives each declared method the signature of its native function: the first of the header
whose head contains the method's symbol and which takes as many parameters, besides the
environment and the receiver, as the method has. Raw blocks pass unchanged.
-/

namespace NativeGlue

open Text

def Signature.fits (s : Signature) (d : Declaration) : Bool :=
  occursIn d.symbol s.head && s.ownParameterCount == d.parameters.length

def Declaration.signature? (d : Declaration) (signatures : List Signature) : Option Signature :=
  signatures.find? fun s => s.fits d

inductive LinkFault where
  | noSignature (declaration : Declaration) (searched : Nat)
  | alreadyLinked (method : Linked)
  deriving DecidableEq, Repr

namespace LinkFault

def message (path : Option Text) : LinkFault → Text
  | noSignature d searched =>
    Place.say ⟨path, some d.signatureLine⟩
      ("Couldn't find C method for Java method '".toList ++ d.title ++
        "' (looked for '".toList ++ d.symbol ++ "' with ".toList ++
        ofNat d.parameters.length ++ " argument(s) among ".toList ++ ofNat searched ++
        " header declaration(s))".toList)
  | alreadyLinked m => "already linked: ".toList ++ m.declaration.title

end LinkFault

def Segment.link (signatures : List Signature) : Segment → Except LinkFault Segment
  | raw block => .ok (.raw block)
  | declared d =>
    match d.signature? signatures with
    | some s => .ok (.linked ⟨d, s⟩)
    | none => .error (.noSignature d signatures.length)
  | linked m => .error (.alreadyLinked m)

/-- Link all segments, or report the first that cannot be linked. -/
def link (segments : List Segment) (signatures : List Signature) :
    Except LinkFault (List Segment) :=
  segments.mapM (Segment.link signatures)

end NativeGlue
