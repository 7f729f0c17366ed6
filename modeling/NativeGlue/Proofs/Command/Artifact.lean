import NativeGlue.Command.Artifact
import NativeGlue.Proofs.Files.Writing

/-!
Bringing a file to a text. A missing file counts as empty. What is done depends on whether the text
that the file shows is the one wanted, and on the mode; the file is written last.
-/

namespace NativeGlue

open Text Command NativeGlue.Action

/-- What reading a file gives where a missing file counts as empty. -/
def Tree.Shows (tree : Tree) (place : Location) (t : Text) : Prop :=
  tree.text? place = some t ∨ tree.find? place = none ∧ t = []

/-- What a file shows that nobody has written it has shown before. -/
theorem Tree.Shows.of_extends {written : Location → Prop} {before after : Tree} {place : Location}
    {t : Text} (h : after.Shows place t) (hextends : Extends written before after)
    (hplace : ¬ written place) : before.Shows place t := by
  rcases h with htext | ⟨hnone, rfl⟩
  · exact .inl (text?_eq_of_leaf? (hextends.leaves place hplace) ▸ htext)
  · refine .inr ⟨?_, rfl⟩
    by_contra hsome
    have hlater := hextends.isSome hplace (Option.isSome_iff_ne_none.mpr hsome)
    rw [hnone] at hlater
    cases hlater

namespace Artifact

/-- What becomes of a file that shows a text when it should hold another. -/
def verdict (mode : WriteMode) (old content : Text) : Status :=
  if old = content then .unchanged else changeStatus mode

variable {w after : Workspace} {p : Path} {content old : Text} {mode : WriteMode}

theorem reads_currentText (p : Path) : Reads (currentText p) :=
  (reads_isPresent p).bind fun _ => .ite (reads_readText p) (.pure _)

theorem currentText_of_shows (hw : w.tree.LinkFree) (hp : p.IsProper)
    (hwritable : p.isWritable = true) (hshort : p.IsShort) (h : w.tree.Shows p.parts old) :
    (currentText p).perform w = (.ok old, w) := by
  have hpresent : (isPresent p).perform w = (.ok (w.tree.find? p.parts).isSome, w) := by
    unfold isPresent
    rw [perform_bind_of_ok _ (find?_of_isShort hw hp hwritable hshort)]
    rfl
  unfold currentText
  rw [perform_bind_of_ok _ hpresent]
  rcases h with htext | ⟨hnone, rfl⟩
  · obtain ⟨found, hfound⟩ := Tree.exists_find?_of_text? htext
    rw [hfound, Option.isSome_some, if_pos rfl]
    exact (readText_eq_ok_iff hw hp old w).mpr ⟨rfl, hwritable, hshort, htext⟩
  · rw [hnone]
    rfl

/-- A text that is not empty was read from the file. -/
theorem readText_of_currentText (hold : old ≠ [])
    (h : (currentText p).perform w = (.ok old, w)) : (readText p).perform w = (.ok old, w) := by
  unfold currentText at h
  obtain ⟨isThere, -, h⟩ := ((reads_isPresent p).perform_bind_eq_ok_iff w w old).mp h
  split_ifs at h
  · exact h
  · cases h
    exact absurd rfl hold

theorem shows_of_currentText (hw : w.tree.LinkFree) (hp : p.IsProper)
    (hwritable : p.isWritable = true) (h : (currentText p).perform w = (.ok old, w)) :
    w.tree.Shows p.parts old := by
  unfold currentText at h
  obtain ⟨isThere, hthere, h⟩ := ((reads_isPresent p).perform_bind_eq_ok_iff w w old).mp h
  split_ifs at h with hread
  · exact .inl ((readText_eq_ok_iff hw hp old w).mp h).2.2.2
  · cases h
    refine .inr ⟨?_, rfl⟩
    obtain ⟨found, hfound, hnone⟩ := ((reads_find? p).perform_bind_eq_ok_iff w w isThere).mp hthere
    cases hnone
    by_contra hsome
    obtain ⟨other, hother⟩ := Option.ne_none_iff_exists'.mp hsome
    have hshort := isShort_of_find? hw hp hwritable hother hfound
    rw [find?_of_isShort hw hp hwritable hshort, hother] at hfound
    cases hfound
    exact hread rfl

/-- Everything an update can do that ends well. -/
theorem update_cases {status : Status} {difference : Text}
    (h : (update p content mode).perform w = (.ok (status, difference), after)) :
    ∃ old, (currentText p).perform w = (.ok old, w) ∧
      (old = content ∧ status = .unchanged ∧ difference = [] ∧ after = w ∨
        old ≠ content ∧ status = changeStatus mode ∧
          difference =
            Diff.unified old content ("a/".toList ++ p.text) ("b/".toList ++ p.text) ∧
          (status = .updated ∧ (writeText p content).perform w = (.ok (), after) ∨
            status ≠ .updated ∧ after = w)) := by
  unfold update at h
  obtain ⟨old, hold, h⟩ := ((reads_currentText p).perform_bind_eq_ok_iff w after _).mp h
  refine ⟨old, hold, ?_⟩
  by_cases hsame : old = content
  · rw [if_pos hsame] at h
    cases h
    exact .inl ⟨hsame, rfl, rfl, rfl⟩
  · rw [if_neg hsame] at h
    dsimp only at h
    by_cases hwrite : changeStatus mode = .updated
    · rw [if_pos hwrite, perform_bind_eq_ok_iff] at h
      obtain ⟨⟨⟩, between, hwritten, h⟩ := h
      cases h
      exact .inr ⟨hsame, rfl, rfl, .inl ⟨hwrite, hwritten⟩⟩
    · rw [if_neg hwrite] at h
      cases h
      exact .inr ⟨hsame, rfl, rfl, .inr ⟨hwrite, rfl⟩⟩

theorem update_eq_ok {status : Status} {difference : Text}
    (h : (update p content mode).perform w = (.ok (status, difference), after)) :
    ∃ old, (currentText p).perform w = (.ok old, w) ∧ status = verdict mode old content ∧
      (status = .updated ∧ (writeText p content).perform w = (.ok (), after) ∨
        status ≠ .updated ∧ after = w) := by
  obtain ⟨old, hold, hcases⟩ := update_cases h
  refine ⟨old, hold, ?_⟩
  unfold verdict
  rcases hcases with ⟨hsame, rfl, -, rfl⟩ | ⟨hother, hstatus, -, hwritten⟩
  · rw [if_pos hsame]
    exact ⟨rfl, .inr ⟨fun heq => (nomatch heq), rfl⟩⟩
  · rw [if_neg hother]
    exact ⟨hstatus, hwritten⟩

/-- An update whose status is known ended well. -/
theorem exists_update_eq {status : Status}
    (h : ((update p content mode).perform w).1.toOption.map (·.1) = some status) :
    ∃ difference after, (update p content mode).perform w = (.ok (status, difference), after) := by
  rcases hupdate : (update p content mode).perform w with ⟨failure | ⟨found, difference⟩, after⟩
  · rw [hupdate] at h
    cases h
  · rw [hupdate] at h
    exact ⟨difference, after, by rw [← Option.some.inj h]⟩

/-- A file that shows what it should, or may not be written, is left alone. -/
theorem yields_update (h : (currentText p).perform w = (.ok old, w))
    (hmode : old = content ∨ changeStatus mode ≠ .updated) :
    ∃ difference, Yields w (update p content mode) (verdict mode old content, difference) := by
  unfold update verdict
  by_cases hsame : old = content
  · refine ⟨[], (Yields.of_reads (reads_currentText p) h).bind ?_⟩
    rw [if_pos hsame, if_pos hsame]
    exact .pure w _
  · refine ⟨Diff.unified old content ("a/".toList ++ p.text) ("b/".toList ++ p.text),
      (Yields.of_reads (reads_currentText p) h).bind ?_⟩
    rw [if_neg hsame, if_neg hsame]
    dsimp only
    rw [if_neg (hmode.resolve_left hsame)]
    exact .pure w _

theorem reportsFirst_update (p : Path) (content : Text) (mode : WriteMode) :
    ReportsFirst (update p content mode) := by
  refine .bind_of_reads (reads_currentText p) fun old => ?_
  split_ifs
  · exact .of_reads (.pure _)
  · dsimp only
    refine .of_neverReports ?_
    split_ifs
    · exact (neverReports_writeText p content).bind fun _ => .pure _
    · exact .pure _

end Artifact

end NativeGlue
