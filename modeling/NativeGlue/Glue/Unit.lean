import NativeGlue.Glue.Method
import NativeGlue.Linking
import NativeGlue.Source.Scan

/-!
The compilation unit of a source file: an include of the native header, then the segments in
their order, each after an empty line.
-/

namespace NativeGlue

open Text

/-- The marked code of a raw block, without carriage returns. -/
def RawBlock.text (b : RawBlock) : Text :=
  lineMarker b.line ++ '\n' :: b.code.filter (· != '\r') ++ ['\n']

def Segment.text : Segment → Except GlueFault Text
  | raw block => .ok block.text
  | linked m => m.text
  | declared d => .error (.notLinked d)

def includeLine (headerName : Text) : Text := "#include <".toList ++ headerName ++ ">\n".toList

def unitText (segments : List Segment) (headerName : Text) : Except GlueFault Text := do
  let texts ← segments.mapM Segment.text
  return includeLine headerName ++ texts.flatMap ('\n' :: ·)

/-- A unit together with what it was made from. -/
structure GlueUnit where
  segments : List Segment
  content : Text
  skipped : List Source.Skipped
  deriving DecidableEq, Repr

namespace GlueUnit

inductive Fault where
  | source (problem : Source.Problem)
  | link (fault : LinkFault)
  | glue (fault : GlueFault)
  deriving DecidableEq, Repr

def liftFault {α ε : Type} (cause : ε → Fault) : Except ε α → Except Fault α :=
  Except.mapError cause

/-- Read a source file and its header, link the two and write the unit. -/
def generate (source header headerName : Text) : Except Fault GlueUnit := do
  let contents ← liftFault .source (Source.read source)
  let segments ← liftFault .link (link contents.segments (Header.signatures header))
  let content ← liftFault .glue (unitText segments headerName)
  return ⟨segments, content, contents.skipped⟩

/-- The linked methods of the unit. -/
def methods (u : GlueUnit) : List Linked := u.segments.filterMap Segment.linked?

end GlueUnit

end NativeGlue
