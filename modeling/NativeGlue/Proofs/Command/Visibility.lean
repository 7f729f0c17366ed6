import NativeGlue.Proofs.Command.Artifact
import NativeGlue.Proofs.Diff.Unified

/-!
Changes that are seen. Whether a file changes is decided on whole texts, and the difference is made
of lines, so a reported change is shown unless it is only in how the lines end.
-/

namespace NativeGlue.Artifact

open Text Command NativeGlue.Action

variable {w after : Workspace} {p : Path} {content difference : Text} {mode : WriteMode}
  {status : Status}

/-- The difference of a reported change is empty just when the texts have the same lines. -/
theorem difference_eq_nil_iff
    (h : (update p content mode).perform w = (.ok (status, difference), after))
    (hchanged : status ≠ .unchanged) :
    ∃ old, (currentText p).perform w = (.ok old, w) ∧ old ≠ content ∧
      (difference = [] ↔ lines old = lines content) := by
  obtain ⟨old, hold, ⟨-, hsame, -⟩ | ⟨hother, -, hdifference, -⟩⟩ := update_cases h
  · exact absurd hsame hchanged
  · refine ⟨old, hold, hother, ?_⟩
    rw [hdifference]
    exact Diff.unified_eq_nil_iff old content _ _

/-- A file whose only line has no end. -/
def unendedFile : Workspace :=
  .ofTree (.directory [("A.cpp".toList, .file (encode "#include <A.h>".toList))])

/-- Another line is a visible change. -/
theorem other_line_is_visible : ∃ difference after,
    (update (Path.ofText "A.cpp".toList) "#include <B.h>\n".toList ⟨false, true⟩).perform
      unendedFile = (.ok (.drifted, difference), after) ∧ difference ≠ [] := by
  have hstatus : ((update (Path.ofText "A.cpp".toList) "#include <B.h>\n".toList
      ⟨false, true⟩).perform unendedFile).1.toOption.map (·.1) = some .drifted := by
    decide +kernel
  have hold : ((currentText (Path.ofText "A.cpp".toList)).perform unendedFile).1 =
      .ok "#include <A.h>".toList := by
    decide +kernel
  obtain ⟨difference, after, hupdate⟩ := exists_update_eq hstatus
  obtain ⟨old, hread, -, hempty⟩ := difference_eq_nil_iff hupdate (by decide)
  rw [hread] at hold
  obtain rfl : old = "#include <A.h>".toList := Except.ok.inj hold
  exact ⟨difference, after, hupdate, fun hnil => absurd (hempty.mp hnil) (by decide)⟩

/-- The end of the last line is no visible change. -/
theorem last_end_is_invisible :
    ((update (Path.ofText "A.cpp".toList) "#include <A.h>\n".toList ⟨false, true⟩).perform
      unendedFile).1 = .ok (.drifted, []) := by
  decide +kernel

end NativeGlue.Artifact
