import NativeGlue.Glue.Method
import NativeGlue.Json.Value
import NativeGlue.Symbol

/-!
Segments as JSON objects, for reports.
-/

namespace NativeGlue

open Text Json

def Parameter.describe (p : Parameter) : Value :=
  .obj
    [("name".toList, .str p.name), ("java_type".toList, .str p.type.spelling),
      ("category".toList, .str p.type.category.label),
      ("c_pointer_type".toList, (p.type.category.pointer?.map Value.str).getD .null)]

def Declaration.members (d : Declaration) : List (Text × Value) :=
  [("kind".toList, .str "declaration".toList), ("class_name".toList, .str d.className),
    ("method_name".toList, .str d.methodName), ("token".toList, .str d.symbol),
    ("is_static".toList, .bool d.isStatic),
    ("arguments".toList, .arr (d.parameters.map Parameter.describe)),
    ("start_line".toList, .int d.startLine), ("end_line".toList, .int d.endLine),
    ("signature_line".toList, .int d.signatureLine),
    ("requires_decomposition".toList, .bool d.needsWrapper),
    ("native_code".toList, .str d.code)]

def Signature.describe (s : Signature) : Value :=
  .obj
    [("head".toList, .str s.head),
      ("argument_c_types".toList, .arr (s.parameterTypes.map Value.str)),
      ("return_c_type".toList, .str s.returnType), ("line".toList, .int s.line)]

def Segment.describe : Segment → Value
  | raw b =>
    .obj
      [("kind".toList, .str "raw_block".toList), ("start_line".toList, .int b.line),
        ("native_code".toList, .str b.code)]
  | declared d => .obj d.members
  | linked m => .obj (m.declaration.members ++ [("signature".toList, m.signature.describe)])

end NativeGlue
