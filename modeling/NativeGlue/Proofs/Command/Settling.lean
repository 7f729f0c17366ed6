import NativeGlue.Proofs.Command.Artifact
import NativeGlue.Proofs.Files.Persistence

/-!
Files that settle. Once a file was brought to a text, bringing it to the same text again finds
nothing to do, in any mode, unless the text holds a carriage return: that is read back as a line
feed, so the file never shows the text. The device keeps nothing and never settles either.
-/

namespace NativeGlue.Artifact

open Text Command NativeGlue.Action

variable {w after : Workspace} {p : Path} {content old : Text} {mode : WriteMode}

theorem changeStatus_ne_unchanged (mode : WriteMode) : changeStatus mode ≠ .unchanged := by
  unfold changeStatus
  split_ifs <;> exact fun heq => nomatch heq

theorem currentText_of_lookup {found : Tree} {bytes : Bytes} {t : Text}
    (h : w.lookup p = .ok found) (hbytes : found.bytes? = some bytes)
    (hdecode : decode? bytes = some t) :
    (currentText p).perform w = (.ok (unifyLineEnds t), w) := by
  have hpresent : (isPresent p).perform w = (.ok true, w) := by
    unfold isPresent
    rw [perform_bind_of_ok _ (find?_of_lookup h)]
    rfl
  unfold currentText
  rw [perform_bind_of_ok _ hpresent, if_pos rfl]
  exact readText_of_lookup h hbytes hdecode

theorem currentText_of_device (h : w.lookup p = .ok .null) :
    (currentText p).perform w = (.ok [], w) := currentText_of_lookup h rfl (decode?_encode [])

/-- Where nothing but the device is found, nothing is read. -/
theorem eq_nil_of_currentText (hdevice : ∀ found, w.lookup p = .ok found → found = .null)
    (h : (currentText p).perform w = (.ok old, w)) : old = [] := by
  obtain ⟨isThere, hthere, -⟩ := ((reads_isPresent p).perform_bind_eq_ok_iff w w old).mp h
  obtain ⟨result, hresult, hsome⟩ := ((reads_find? p).perform_bind_eq_ok_iff w w isThere).mp hthere
  cases result with
  | some found =>
    have hlookup := lookup_of_find? hresult
    obtain rfl := hdevice found hlookup
    rw [currentText_of_device hlookup] at h
    cases h
    rfl
  | none =>
    cases hsome
    unfold currentText at h
    rw [perform_bind_of_ok _ hthere] at h
    cases h
    rfl

/-- There is nothing to do just when the file shows the text. -/
theorem update_eq_unchanged_iff (h : (currentText p).perform w = (.ok old, w)) :
    (update p content mode).perform w = (.ok (.unchanged, []), w) ↔ old = content := by
  constructor
  · intro hupdate
    obtain ⟨shown, hshown, ⟨hsame, -⟩ | ⟨-, hstatus, -⟩⟩ := update_cases hupdate
    · obtain rfl : shown = old := Except.ok.inj (congrArg Prod.fst (hshown.symm.trans h))
      exact hsame
    · exact absurd hstatus.symm (changeStatus_ne_unchanged mode)
  · rintro rfl
    unfold update
    rw [perform_bind_of_ok _ h, if_pos rfl]
    rfl

theorem unifyLineEnds_eq_iff (t : Text) : unifyLineEnds t = t ↔ '\r' ∉ t :=
  ⟨fun h => h ▸ return_notMem_unifyLineEnds t, unifyLineEnds_eq_self t⟩

/-- A file that was written is found unchanged from then on just when the text holds no carriage
return and was not written to the device. -/
theorem update_again_unchanged_iff (hw : w.tree.HasDirectory w.directory) {difference : Text}
    (h : (update p content mode).perform w = (.ok (.updated, difference), after))
    (again : WriteMode) :
    (update p content again).perform after = (.ok (.unchanged, []), after) ↔
      '\r' ∉ content ∧ after.lookup p ≠ .ok .null := by
  obtain ⟨old, hold, ⟨-, hstatus, -⟩ | ⟨hchanged, -, -, hwritten⟩⟩ := update_cases h
  · cases hstatus
  have hwrite := (hwritten.resolve_right fun hnot => hnot.1 rfl).2
  rcases lookup_of_writeText hw hwrite with hfile | ⟨hnull, hbefore⟩
  · have hread := currentText_of_lookup hfile rfl (decode?_encode content)
    rw [update_eq_unchanged_iff hread, unifyLineEnds_eq_iff, hfile]
    exact (and_iff_left fun hnull => nomatch hnull).symm
  · -- before the writing nothing was read, so the text is not empty
    rw [eq_nil_of_currentText hbefore hold] at hchanged
    rw [update_eq_unchanged_iff (currentText_of_device hnull)]
    exact iff_of_false hchanged fun hfile => hfile.2 hnull

/-- A directory and a link that leads to it. -/
def linkedDirectory : Workspace :=
  .ofTree (.directory [("out".toList, .empty), ("glue".toList, .link "out".toList)])

def linkedFile : Path := Path.ofText "glue/jni/A.cpp".toList

/-- A new file in a new directory that is reached through a link. -/
theorem linked_file_settles : ∃ difference after,
    linkedDirectory.tree.HasDirectory linkedDirectory.directory ∧
      (update linkedFile "#include <A.h>\n".toList ⟨false, false⟩).perform linkedDirectory =
        (.ok (.updated, difference), after) ∧
      ∀ again, (update linkedFile "#include <A.h>\n".toList again).perform after =
        (.ok (.unchanged, []), after) := by
  have hstatus : ((update linkedFile "#include <A.h>\n".toList ⟨false, false⟩).perform
      linkedDirectory).1.toOption.map (·.1) = some .updated := by
    decide +kernel
  have hfile : (((update linkedFile "#include <A.h>\n".toList ⟨false, false⟩).perform
      linkedDirectory).2.lookup linkedFile).toOption.any Tree.isFile = true := by
    decide +kernel
  obtain ⟨difference, after, hupdate⟩ := exists_update_eq hstatus
  rw [hupdate] at hfile
  have hdirectory : linkedDirectory.tree.HasDirectory linkedDirectory.directory := ⟨_, rfl⟩
  refine ⟨difference, after, hdirectory, hupdate, fun again => ?_⟩
  refine (update_again_unchanged_iff hdirectory hupdate again).mpr ⟨by decide, fun hnull => ?_⟩
  rw [hnull] at hfile
  cases hfile

/-- A text with a carriage return is never found again, and no difference is ever shown. -/
theorem carriage_return_never_settles :
    let write (mode : WriteMode) :=
      update (Path.ofText "A.cpp".toList) "#include <A.h>\r\n".toList mode
    ∃ difference after,
      (write ⟨false, false⟩).perform Workspace.empty = (.ok (.updated, difference), after) ∧
        ∀ again, ((write again).perform after).1 = .ok (changeStatus again, []) := by
  intro write
  have hstatus : ((write ⟨false, false⟩).perform Workspace.empty).1.toOption.map (·.1) =
      some .updated := by
    decide +kernel
  have hagain : ∀ dryRun check : Bool,
      ((write ⟨dryRun, check⟩).perform ((write ⟨false, false⟩).perform Workspace.empty).2).1 =
        .ok (changeStatus ⟨dryRun, check⟩, []) := by
    decide +kernel
  obtain ⟨difference, after, hupdate⟩ := exists_update_eq hstatus
  refine ⟨difference, after, hupdate, fun again => ?_⟩
  have hsettles := hagain again.dryRun again.check
  rwa [hupdate] at hsettles

end NativeGlue.Artifact
