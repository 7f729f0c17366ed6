import NativeGlue.Command.Generate
import NativeGlue.Proofs.Command.Artifact
import NativeGlue.Proofs.Command.Sources
import NativeGlue.Proofs.Glue.CarriageReturns

/-!
One source file. Unless a header command is run, everything is read before anything is written: the
unit is made from the source file and its header, then the output is brought to it, and what is left
only shows what was done.
-/

namespace NativeGlue.Generate

open Text NativeGlue.Action

/-- What is made from a source file that mentions native methods, before anything is written. -/
structure Draft where
  source : Text
  className : Text
  unit : GlueUnit

def Draft.report (d : Draft) (status : Artifact.Status) (header output : Text) : FileReport :=
  { source := d.source, className := d.className, header := header, output := output
    status := status, declarations := d.unit.methods.length
    rawBlocks := d.unit.segments.length - d.unit.methods.length
    wrapped := (d.unit.methods.filter fun m => m.declaration.needsWrapper).map (·.signature.name)
    warnings := d.unit.skipped.map (·.message (some d.source)) }

/-- The text of a header, which must be there. -/
def headerText (j : Job) (source className : Text) : Action Text := do
  let isThere ← Action.isPresent (j.headerPath className)
  if isThere then Action.readText (j.headerPath className)
  else Action.report (.noHeader (← Action.relativeText (j.headerPath className) j.root) source)

def draftNative (j : Job) (path : Path) (sourceText source : Text) : Action Draft := do
  let className ← Sources.className j.sourceRoot path
  let header ← headerText j sourceText className
  let unit ← unitOf sourceText source header (j.headerPath className).name
  return ⟨sourceText, className, unit⟩

/-- Read a source file and its header. -/
def draft (j : Job) (path : Path) : Action (Option Draft) := do
  let sourceText ← Action.relativeText path j.root
  let source ← Action.readText path
  if occursIn Source.nativeWord source then
    return some (← draftNative j path sourceText source)
  else return none

/-- Bring the output to the unit, and say so. -/
def finish (j : Job) (d : Draft) : Action FileReport := do
  let (status, difference) ←
    Artifact.update (j.outputPath d.className) d.unit.content j.options.mode
  let output ← Action.relativeText (j.outputPath d.className) j.root
  Action.say (j.titleLine (d.className ++ " -> ".toList ++ output ++ Job.statusText status))
  sayDetails (d.unit.skipped.map (·.message (some d.source))) j.options.printDiff difference
  let header ← Action.relativeText (j.headerPath d.className) j.root
  return d.report status header output

theorem generateNative_eq (j : Job) (hcommand : j.options.runHeaderCommand = false) (path : Path)
    (sourceText source : Text) :
    generateNative j path sourceText source =
      draftNative j path sourceText source >>= finish j := by
  unfold generateNative draftNative headerText finish
  simp only [hcommand, bind_assoc, pure_bind]
  refine bind_congr fun className => ?_
  refine bind_congr fun isThere => ?_
  cases isThere with
  | true =>
    simp only [Bool.not_true, Bool.false_eq_true, if_false, if_true]
    rfl
  | false =>
    simp only [Bool.not_false, Bool.false_eq_true, if_false, if_true, bind_assoc]
    exact bind_congr fun header => rfl

theorem generateSource_eq (j : Job) (hcommand : j.options.runHeaderCommand = false) (path : Path) :
    generateSource j path = draft j path >>= fun
      | some d => some <$> finish j d
      | none => pure none := by
  unfold generateSource draft
  simp only [bind_assoc]
  refine bind_congr fun sourceText => bind_congr fun source => ?_
  by_cases hnative : occursIn Source.nativeWord source = true
  · simp only [if_pos hnative, generateNative_eq j hcommand, bind_assoc, pure_bind,
      map_eq_pure_bind]
  · simp only [if_neg hnative, pure_bind]

variable {j : Job} {path : Path} {w v after : Workspace} {d : Draft}

theorem reads_headerText (j : Job) (source className : Text) :
    Reads (headerText j source className) :=
  (reads_isPresent _).bind fun _ =>
    .ite (reads_readText _) ((reads_relativeText _ _).bind fun _ => .report _)

theorem reads_unitOf (path source header headerName : Text) :
    Reads (unitOf path source header headerName) := by
  unfold unitOf
  split
  · exact .pure _
  · exact fun _ _ _ => rfl

theorem reads_draftNative (j : Job) (path : Path) (sourceText source : Text) :
    Reads (draftNative j path sourceText source) :=
  (Sources.reads_className _ _).bind fun _ => (reads_headerText _ _ _).bind fun _ =>
    (reads_unitOf _ _ _ _).bind fun _ => .pure _

theorem reads_draft (j : Job) (path : Path) : Reads (draft j path) :=
  (reads_relativeText _ _).bind fun _ => (reads_readText _).bind fun _ =>
    .ite ((reads_draftNative _ _ _ _).bind fun _ => .pure _) (.pure _)

theorem readText_of_headerText {source className t : Text}
    (h : (headerText j source className).perform w = (.ok t, w)) :
    (readText (j.headerPath className)).perform w = (.ok t, w) := by
  obtain ⟨isThere, -, h⟩ := ((reads_isPresent _).perform_bind_eq_ok_iff w w t).mp h
  split_ifs at h
  · exact h
  · obtain ⟨header, -, h⟩ := ((reads_relativeText _ _).perform_bind_eq_ok_iff w w t).mp h
    cases h

theorem headerText_of_readText (hw : w.tree.LinkFree) {source className t : Text}
    (hheader : (j.headerPath className).IsProper)
    (h : (readText (j.headerPath className)).perform w = (.ok t, w)) :
    (headerText j source className).perform w = (.ok t, w) := by
  obtain ⟨-, hwritable, hshort, htext⟩ := (readText_eq_ok_iff hw hheader t w).mp h
  obtain ⟨found, hfound⟩ := Tree.exists_find?_of_text? htext
  have hthere : (isPresent (j.headerPath className)).perform w = (.ok true, w) := by
    unfold isPresent
    rw [perform_bind_of_ok _ (find?_of_isShort hw hheader hwritable hshort), hfound]
    rfl
  unfold headerText
  rw [perform_bind_of_ok _ hthere, if_pos rfl]
  exact h

theorem generate_of_unitOf {path source header headerName : Text} {unit : GlueUnit}
    (h : (unitOf path source header headerName).perform w = (.ok unit, after)) :
    GlueUnit.generate source header headerName = .ok unit := by
  unfold unitOf at h
  split at h
  · next u hu =>
    cases h
    exact hu
  · cases h

/-- A source file is read, and passed over where the keyword does not occur in it. -/
theorem draft_cases {found : Option Draft} (h : (draft j path).perform w = (.ok found, after)) :
    after = w ∧ ∃ sourceText source, (relativeText path j.root).perform w = (.ok sourceText, w) ∧
      (readText path).perform w = (.ok source, w) ∧
      ((occursIn Source.nativeWord source = true ∧ ∃ d, found = some d ∧
          (draftNative j path sourceText source).perform w = (.ok d, w)) ∨
        (occursIn Source.nativeWord source = false ∧ found = none)) := by
  obtain rfl := (reads_draft j path).after_eq h
  obtain ⟨sourceText, hrelative, h⟩ := ((reads_relativeText _ _).perform_bind_eq_ok_iff _ _ _).mp h
  obtain ⟨source, hread, h⟩ := ((reads_readText _).perform_bind_eq_ok_iff _ _ _).mp h
  refine ⟨rfl, sourceText, source, hrelative, hread, ?_⟩
  split_ifs at h with hnative
  · obtain ⟨d, hd, h⟩ := ((reads_draftNative _ _ _ _).perform_bind_eq_ok_iff _ _ _).mp h
    cases h
    exact .inl ⟨hnative, d, rfl, hd⟩
  · cases h
    exact .inr ⟨eq_false_of_ne_true hnative, rfl⟩

/-- What was read for a draft. -/
theorem draft_eq_some (h : (draft j path).perform w = (.ok (some d), after)) :
    after = w ∧ (relativeText path j.root).perform w = (.ok d.source, w) ∧
      (Sources.className j.sourceRoot path).perform w = (.ok d.className, w) ∧
      ∃ source header, (readText path).perform w = (.ok source, w) ∧
        occursIn Source.nativeWord source = true ∧
        (headerText j d.source d.className).perform w = (.ok header, w) ∧
        GlueUnit.generate source header (j.headerPath d.className).name = .ok d.unit := by
  obtain ⟨hafter, sourceText, source, hrelative, hread, ⟨hnative, n, hfound, hn⟩ | ⟨-, hnone⟩⟩ :=
    draft_cases h
  · cases hfound
    obtain ⟨className, hclass, hn⟩ :=
      ((Sources.reads_className _ _).perform_bind_eq_ok_iff _ _ _).mp hn
    obtain ⟨header, hheader, hn⟩ := ((reads_headerText _ _ _).perform_bind_eq_ok_iff _ _ _).mp hn
    obtain ⟨unit, hunit, hn⟩ := ((reads_unitOf _ _ _ _).perform_bind_eq_ok_iff _ _ _).mp hn
    cases hn
    exact ⟨hafter, hrelative, hclass, source, header, hread, hnative, hheader,
      generate_of_unitOf hunit⟩
  · cases hnone

/-- What was read for a file that is passed over. -/
theorem draft_eq_none (h : (draft j path).perform w = (.ok none, after)) :
    after = w ∧ ∃ sourceText source, (relativeText path j.root).perform w = (.ok sourceText, w) ∧
      (readText path).perform w = (.ok source, w) ∧
      occursIn Source.nativeWord source = false := by
  obtain ⟨hafter, sourceText, source, hrelative, hread, ⟨-, n, hfound, -⟩ | ⟨hnative, -⟩⟩ :=
    draft_cases h
  · cases hfound
  · exact ⟨hafter, sourceText, source, hrelative, hread, hnative⟩

/-- Workspaces that show the same texts for a source file and its header give the same draft. -/
theorem draft_congr (hw : w.tree.LinkFree) (hv : v.tree.LinkFree)
    (hdirectory : v.directory = w.directory) (hpath : path.IsProper)
    (htext : v.tree.text? path.parts = w.tree.text? path.parts) {found : Option Draft}
    (hheader : ∀ d, found = some d → (j.headerPath d.className).IsProper ∧
      v.tree.text? (j.headerPath d.className).parts = w.tree.text? (j.headerPath d.className).parts)
    (h : (draft j path).perform w = (.ok found, after)) :
    (draft j path).perform v = (.ok found, v) := by
  unfold draft
  cases found with
  | none =>
    obtain ⟨-, sourceText, source, hrelative, hread, hnative⟩ := draft_eq_none h
    rw [perform_bind_of_ok _ (relativeText_congr hw hv hdirectory hrelative),
      perform_bind_of_ok _ (readText_congr hw hv hpath htext hread), hnative]
    rfl
  | some d =>
    obtain ⟨-, hrelative, hclass, source, header, hread, hnative, hthere, hunit⟩ := draft_eq_some h
    obtain ⟨hproper, htext'⟩ := hheader d rfl
    have hheader' := readText_congr hw hv hproper htext' (readText_of_headerText hthere)
    rw [perform_bind_of_ok _ (relativeText_congr hw hv hdirectory hrelative),
      perform_bind_of_ok _ (readText_congr hw hv hpath htext hread), if_pos hnative, draftNative,
      bind_assoc, perform_bind_of_ok _ (Sources.className_congr hw hv hdirectory hclass),
      bind_assoc, perform_bind_of_ok _ (headerText_of_readText hv hproper hheader'), unitOf, hunit]
    rfl

theorem yields_sayDetails (w : Workspace) (warnings : List Text) (printDiff : Bool)
    (difference : Text) : Yields w (sayDetails warnings printDiff difference) () := by
  have hwarnings : Yields w (warnings.forM fun line => say (warningLine line)) () := by
    induction warnings with
    | nil => exact .pure w ()
    | cons warning warnings ih => exact (Yields.say w _).bind ih
  refine hwarnings.bind ?_
  split_ifs
  · exact .say w difference
  · exact .pure w ()

theorem neverReports_say (line : Text) : NeverReports (say line) := .change _

theorem neverReports_sayDetails (warnings : List Text) (printDiff : Bool) (difference : Text) :
    NeverReports (sayDetails warnings printDiff difference) := by
  have hwarnings : NeverReports (warnings.forM fun line => say (warningLine line)) := by
    induction warnings with
    | nil => exact .pure ()
    | cons warning warnings ih => exact (neverReports_say _).bind fun _ => ih
  refine hwarnings.bind fun _ => ?_
  split_ifs
  · exact neverReports_say difference
  · exact .pure ()

theorem finish_eq_ok {r : FileReport} (h : (finish j d).perform w = (.ok r, after)) :
    ∃ status difference between header output,
      (Artifact.update (j.outputPath d.className) d.unit.content j.options.mode).perform w =
        (.ok (status, difference), between) ∧
      (relativeText (j.outputPath d.className) j.root).perform between = (.ok output, between) ∧
      (relativeText (j.headerPath d.className) j.root).perform between = (.ok header, between) ∧
      between.SameFiles after ∧ r = d.report status header output := by
  obtain ⟨⟨status, difference⟩, between, hupdate, h⟩ := (perform_bind_eq_ok_iff _ _ w after r).mp h
  obtain ⟨output, houtput, h⟩ := ((reads_relativeText _ _).perform_bind_eq_ok_iff _ _ _).mp h
  obtain ⟨⟨⟩, said, hsaid, h⟩ := (perform_bind_eq_ok_iff _ _ between after r).mp h
  obtain ⟨⟨⟩, told, htold, h⟩ := (perform_bind_eq_ok_iff _ _ said after r).mp h
  obtain ⟨header, hheader, h⟩ := ((reads_relativeText _ _).perform_bind_eq_ok_iff _ _ _).mp h
  cases h
  have hfiles : between.SameFiles after :=
    ((Yields.say between _).eq_of_ok hsaid).2.trans
      ((yields_sayDetails said _ _ _).eq_of_ok htold).2
  exact ⟨status, difference, between, header, output, hupdate, houtput,
    (reads_relativeText _ _).transfer hfiles.symm hheader, hfiles, rfl⟩

theorem yields_finish {status : Artifact.Status} {difference header output : Text}
    (hupdate : Yields w (Artifact.update (j.outputPath d.className) d.unit.content j.options.mode)
      (status, difference))
    (houtput : (relativeText (j.outputPath d.className) j.root).perform w = (.ok output, w))
    (hheader : (relativeText (j.headerPath d.className) j.root).perform w = (.ok header, w)) :
    Yields w (finish j d) (d.report status header output) :=
  hupdate.bind ((Yields.of_reads (reads_relativeText _ _) houtput).bind ((Yields.say w _).bind
    ((yields_sayDetails w _ _ _).bind ((Yields.of_reads (reads_relativeText _ _) hheader).bind
      (.pure w _)))))

theorem reportsFirst_finish (j : Job) (d : Draft) : ReportsFirst (finish j d) :=
  (Artifact.reportsFirst_update _ _ _).bind_of_neverReports fun _ =>
    (neverReports_relativeText _ _).bind fun _ => (neverReports_say _).bind fun _ =>
      (neverReports_sayDetails _ _ _).bind fun _ => (neverReports_relativeText _ _).bind fun _ =>
        .pure _

/-- A source file that fails with a message leaves everything as it was. -/
theorem reportsFirst_generateSource (hcommand : j.options.runHeaderCommand = false)
    (path : Path) : ReportsFirst (generateSource j path) := by
  rw [generateSource_eq j hcommand]
  refine .bind_of_reads (reads_draft j path) fun found => ?_
  cases found with
  | none => exact .of_reads (.pure _)
  | some d =>
    dsimp only
    rw [map_eq_pure_bind]
    exact (reportsFirst_finish j d).bind_of_neverReports fun _ => .pure _

/-- A source file is passed over, or its output is brought to the unit. -/
theorem generateSource_eq_ok (hcommand : j.options.runHeaderCommand = false)
    {result : Option FileReport} (h : (generateSource j path).perform w = (.ok result, after)) :
    (result = none ∧ after = w ∧ (draft j path).perform w = (.ok none, w)) ∨
      ∃ d r, result = some r ∧ (draft j path).perform w = (.ok (some d), w) ∧
        (finish j d).perform w = (.ok r, after) := by
  rw [generateSource_eq j hcommand] at h
  obtain ⟨found, hfound, h⟩ := ((reads_draft j path).perform_bind_eq_ok_iff w after result).mp h
  cases found with
  | none =>
    cases h
    exact .inl ⟨rfl, rfl, hfound⟩
  | some d =>
    dsimp only at h
    rw [map_eq_pure_bind, perform_bind_eq_ok_iff] at h
    obtain ⟨r, between, hfinish, h⟩ := h
    cases h
    exact .inr ⟨d, r, rfl, hfound, hfinish⟩

/-- A run that may write brings the output of each processed source file to the unit, and what
already shows the unit is left alone. The paths in the report are seen from the workspace after
that. -/
theorem generateSource_eq_some (hcommand : j.options.runHeaderCommand = false)
    (hmode : Artifact.changeStatus j.options.mode = .updated) {r : FileReport}
    (h : (generateSource j path).perform w = (.ok (some r), after)) :
    ∃ d old header output, (draft j path).perform w = (.ok (some d), w) ∧
      (Artifact.currentText (j.outputPath d.className)).perform w = (.ok old, w) ∧
      r = d.report (Artifact.verdict j.options.mode old d.unit.content) header output ∧
      (relativeText (j.outputPath d.className) j.root).perform after = (.ok output, after) ∧
      (relativeText (j.headerPath d.className) j.root).perform after = (.ok header, after) ∧
      ∃ between : Workspace, between.SameFiles after ∧
        (r.status = .updated ∧
            (writeText (j.outputPath d.className) d.unit.content).perform w = (.ok (), between) ∨
          r.status = .unchanged ∧ between = w ∧
            (readText (j.outputPath d.className)).perform w = (.ok d.unit.content, w)) := by
  rcases generateSource_eq_ok hcommand h with ⟨hnone, -⟩ | ⟨d, r', hresult, hdraft, hfinish⟩
  · cases hnone
  · cases hresult
    obtain ⟨status, difference, between, header, output, hupdate, houtput, hheader, hfiles, rfl⟩ :=
      finish_eq_ok hfinish
    obtain ⟨old, hold, rfl, hwritten⟩ := Artifact.update_eq_ok hupdate
    refine ⟨d, old, header, output, hdraft, hold, rfl,
      (reads_relativeText _ _).transfer hfiles houtput,
      (reads_relativeText _ _).transfer hfiles hheader, between, hfiles, ?_⟩
    rcases hwritten with hwritten | ⟨hkept, rfl⟩
    · exact .inl hwritten
    · have hsame : old = d.unit.content := by
        by_contra hne
        rw [Artifact.verdict, if_neg hne] at hkept
        exact hkept hmode
      subst hsame
      obtain ⟨-, -, -, source, headerText, -, -, -, hunit⟩ := draft_eq_some hdraft
      refine .inr ⟨if_pos rfl, rfl, ?_⟩
      exact Artifact.readText_of_currentText (GlueUnit.content_ne_nil hunit) hold

end NativeGlue.Generate
