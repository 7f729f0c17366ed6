import NativeGlue.Command.Artifact
import NativeGlue.Json.Value

/-!
Reports on a generation: what was done for each source file of each target, as JSON and summed
up in one line.
-/

namespace NativeGlue.Generate

open Text Json

/-- What was done for one source file. -/
structure FileReport where
  source : Text
  className : Text
  header : Text
  output : Text
  status : Artifact.Status
  declarations : Nat
  rawBlocks : Nat
  wrapped : List Text
  warnings : List Text

structure TargetReport where
  name : Text
  files : List FileReport

def TargetReport.hasDrift (r : TargetReport) : Bool := r.files.any fun f => f.status == .drifted

def FileReport.describe (f : FileReport) : Value :=
  .obj
    [("source".toList, .str f.source), ("class_name".toList, .str f.className),
      ("header".toList, .str f.header), ("output".toList, .str f.output),
      ("status".toList, .str f.status.label),
      ("declaration_count".toList, .int f.declarations),
      ("raw_block_count".toList, .int f.rawBlocks),
      ("wrapped_methods".toList, .arr (f.wrapped.map Value.str)),
      ("warnings".toList, .arr (f.warnings.map Value.str))]

def TargetReport.describe (r : TargetReport) : Value :=
  .obj
    [("target".toList, .str r.name), ("files".toList, .arr (r.files.map FileReport.describe)),
      ("has_drift".toList, .bool r.hasDrift)]

def filesOf (reports : List TargetReport) : List FileReport := reports.flatMap (·.files)

def countStatus (reports : List TargetReport) (status : Artifact.Status) : Nat :=
  ((filesOf reports).filter fun f => f.status == status).length

def warningCount (reports : List TargetReport) : Nat :=
  ((filesOf reports).flatMap fun f => f.warnings).length

def summary (reports : List TargetReport) : Value :=
  .obj
    [("target_count".toList, .int reports.length),
      ("file_count".toList, .int (filesOf reports).length),
      ("updated_count".toList, .int (countStatus reports .updated)),
      ("unchanged_count".toList, .int (countStatus reports .unchanged)),
      ("would_write_count".toList, .int (countStatus reports .pending)),
      ("drift_count".toList, .int (countStatus reports .drifted)),
      ("warning_count".toList, .int (warningCount reports))]

def toolName : Text := "jnigen".toList

def toolVersion : Text := "1.0.0".toList

def describe (reports : List TargetReport) : Value :=
  .obj
    [("tool".toList,
        .obj [("name".toList, .str toolName), ("version".toList, .str toolVersion)]),
      ("results".toList, .obj (reports.map fun r => (r.name, r.describe))),
      ("summary".toList, summary reports)]

def summaryLine (reports : List TargetReport) : Text :=
  let count (status : Artifact.Status) : Text := ofNat (countStatus reports status)
  "generated ".toList ++ ofNat (filesOf reports).length ++ " file(s) across ".toList ++
    ofNat reports.length ++ " target(s): ".toList ++ count .updated ++ " updated, ".toList ++
    count .unchanged ++ " unchanged, ".toList ++ count .pending ++ " pending, ".toList ++
    count .drifted ++ " drifted, ".toList ++ ofNat (warningCount reports) ++
    " warning(s)".toList

end NativeGlue.Generate
