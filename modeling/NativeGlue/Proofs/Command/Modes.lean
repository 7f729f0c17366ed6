import NativeGlue.Proofs.Command.Replay

/-!
Checks and dry runs. In the same tree they report on the same files as a run that may write, which
calls updated what they call drifted or still to be written, and they change nothing. A check fails
where some output does not show its unit.
-/

namespace NativeGlue

open Text NativeGlue.Action Command

/-- A file that shows a text has this text, unless it is missing and the text empty. -/
theorem Tree.Shows.text?_eq_some_iff {tree : Tree} {place : Location} {t u : Text}
    (h : tree.Shows place t) (hu : u ≠ []) : tree.text? place = some u ↔ t = u := by
  rcases h with htext | ⟨hnone, rfl⟩
  · rw [htext, Option.some.injEq]
  · rw [Tree.text?, Tree.contents?, hnone]
    constructor
    · intro heq
      cases heq
    · exact fun heq => absurd heq.symm hu

namespace Generate

/-- Each report counts for just one of the four statuses. -/
theorem length_filesOf (reports : List TargetReport) :
    (filesOf reports).length =
      countStatus reports .updated + countStatus reports .unchanged +
        countStatus reports .pending + countStatus reports .drifted := by
  unfold countStatus
  induction filesOf reports with
  | nil => rfl
  | cons f files ih =>
    simp only [List.length_cons, List.filter_cons, ih]
    cases f.status <;> simp <;> omega

/-- How a run that may not write reports what one that may has reported. -/
def FileReport.seenIn (mode : WriteMode) (f : FileReport) : FileReport :=
  if f.status = .updated then { f with status := Artifact.changeStatus mode } else f

theorem changeStatus_ne_updated {mode : WriteMode} (h : mode ≠ ⟨false, false⟩) :
    Artifact.changeStatus mode ≠ .updated := by
  obtain ⟨check, dryRun⟩ := mode
  unfold Artifact.changeStatus
  cases check <;> cases dryRun <;> simp_all

/-- No two processed source files have the same output. -/
def OutputsDiffer (options : GenerateOptions) (w : Workspace) : Prop :=
  (history options w).Pairwise fun s t => s.output.parts ≠ t.output.parts

variable {options : GenerateOptions} {mode : WriteMode} {w after : Workspace} {root : Path}
  {config : Members} {names : List Text} {reports : List TargetReport}

namespace Finishes

/-- Where all outputs differ, a step finds its output as it was when the run has started. -/
theorem shows_start (h : Finishes options w root config names reports after)
    (houtputs : OutputsDiffer options w) {s : Step} (hs : s ∈ history options w) {d : Draft}
    {old : Text} {next : Workspace} (houtcome : s.Outcome d old next) :
    w.tree.Shows s.output.parts old := by
  obtain ⟨before, later, hhistory⟩ := List.append_of_mem hs
  obtain ⟨hbefore, -⟩ := h.exists_outcome hhistory
  obtain ⟨-, hgrows⟩ := h.grows hbefore fun u hu => hhistory ▸ List.mem_append_left _ hu
  unfold OutputsDiffer at houtputs
  rw [hhistory, List.pairwise_append] at houtputs
  refine houtcome.shown.of_extends hgrows.toExtends fun ⟨u, hu, hplaced⟩ => ?_
  exact houtputs.2.2 u hu s List.mem_cons_self hplaced

/-- A run that may not write can come again where the run has started. -/
theorem reseen_start (h : Finishes options w root config names reports after)
    (houtputs : OutputsDiffer options w)
    (hsources : ∀ s ∈ jobs options w, w.tree.HasDirectory s.1.sourceRoot.parts)
    (hmode : mode ≠ ⟨false, false⟩) : Reseen options w mode (FileReport.seenIn mode) w where
  directory := rfl
  regular := h.regular
  leaves _ _ := rfl
  listable s hs hlistable := by
    obtain ⟨before, later, hbefore, -, hhistory⟩ := h.exists_of_mem_jobs hs
    have hsubset : ∀ u ∈ before, u ∈ history options w := fun u hu =>
      hhistory ▸ List.mem_append_left _ hu
    obtain ⟨-, hgrows⟩ := h.grows hbefore hsubset
    refine hlistable.of_extends hgrows.toExtends (hsources s hs) fun parts hpick hwritten => ?_
    exact h.apart.source s hs parts hpick (hwritten.mono hsubset)
  shown s hs d old next houtcome := by
    refine ⟨old, h.shows_start houtputs hs houtcome, .inr (changeStatus_ne_updated hmode), ?_⟩
    obtain ⟨header, output, -, -, hreport⟩ := houtcome.reported
    unfold FileReport.seenIn
    rw [hreport]
    unfold Artifact.verdict Draft.report
    by_cases hsame : old = d.unit.content
    · simp only [if_pos hsame, reduceCtorEq, if_false]
    · simp only [if_neg hsame]
      rfl

/-- A run that may write reports a change where the output did not show the unit. -/
theorem status_eq_updated_iff (h : Finishes options w root config names reports after)
    (houtputs : OutputsDiffer options w) {s : Step} (hs : s ∈ history options w) :
    (s.report.status = .unchanged ∨ s.report.status = .updated) ∧
      (s.report.status = .updated ↔
        ∃ u, s.unit? = some u ∧ w.tree.text? s.output.parts ≠ some u.content) := by
  obtain ⟨before, later, hhistory⟩ := List.append_of_mem hs
  obtain ⟨-, d, old, next, houtcome, -⟩ := h.exists_outcome hhistory
  obtain ⟨header, output, -, -, hreport⟩ := houtcome.reported
  have hstatus : s.report.status = Artifact.verdict ⟨false, false⟩ old d.unit.content := by
    rw [hreport]
    rfl
  have hshows := (h.shows_start houtputs hs houtcome).text?_eq_some_iff
    (Step.content_ne_nil houtcome.unit_eq)
  rw [hstatus, Artifact.verdict, houtcome.unit_eq]
  simp only [Option.some.injEq, exists_eq_left', ne_eq, hshows]
  by_cases hsame : old = d.unit.content
  · simp [hsame]
  · simp [hsame, Artifact.changeStatus]

end Finishes

theorem filesOf_map (shown : FileReport → FileReport) (reports : List TargetReport) :
    filesOf (reports.map (TargetReport.mapFiles shown)) = (filesOf reports).map shown := by
  unfold filesOf
  rw [List.flatMap_map, List.map_flatMap]
  rfl

theorem any_hasDrift_iff (reports : List TargetReport) :
    reports.any TargetReport.hasDrift = true ↔ ∃ f ∈ filesOf reports, f.status = .drifted := by
  unfold TargetReport.hasDrift filesOf
  simp only [List.any_eq_true, List.mem_flatMap, beq_iff_eq]
  exact ⟨fun ⟨r, hr, f, hf, hdrift⟩ => ⟨f, ⟨r, hr, hf⟩, hdrift⟩,
    fun ⟨f, ⟨r, hr, hf⟩, hdrift⟩ => ⟨r, hr, f, hf, hdrift⟩⟩

/-- What drifts in a mode that may not write is what a run that may has changed, if the mode is a
check. -/
theorem seenIn_status_eq_drifted_iff {f : FileReport}
    (hf : f.status = .unchanged ∨ f.status = .updated) :
    (f.seenIn mode).status = .drifted ↔ mode.check = true ∧ f.status = .updated := by
  obtain ⟨check, dryRun⟩ := mode
  unfold FileReport.seenIn Artifact.changeStatus
  rcases hf with hf | hf <;> cases check <;> cases dryRun <;> simp [hf]

/-- A plain run in a regular tree agrees with the checks and dry runs in that tree, if nothing that it
writes is read, all outputs differ and all source directories are there. All report on the same files
the same but for the status, and each report has one of the four statuses. Checks and dry runs change
nothing, and a check fails just when some output did not show its unit. -/
theorem run_inMode_of_run {code : Nat} (hplain : IsPlain options) (hw : w.tree.Regular)
    (hapart : KeepsApart options w) (houtputs : OutputsDiffer options w)
    (hsources : ∀ s ∈ jobs options w, w.tree.HasDirectory s.1.sourceRoot.parts)
    (h : (run options).perform w = (.ok code, after)) :
    code = 0 ∧ ∃ reports between, (targetReports options).perform w = (.ok reports, between) ∧
      filesOf reports = (history options w).map (·.report) ∧
      (∀ f ∈ filesOf reports, f.status = .unchanged ∨ f.status = .updated) ∧
      (∀ mode, mode ≠ ⟨false, false⟩ → ∃ code' middle last,
        (targetReports (inMode options mode)).perform w =
          (.ok (reports.map (TargetReport.mapFiles (FileReport.seenIn mode))), middle) ∧
        (run (inMode options mode)).perform w = (.ok code', last) ∧ w.SameFiles last ∧ code' ≤ 1 ∧
        (code' = 1 ↔ mode.check = true ∧ ∃ s ∈ history options w, ∃ u, s.unit? = some u ∧
          w.tree.text? s.output.parts ≠ some u.content)) ∧
      ∀ others : List TargetReport, (filesOf others).length =
        countStatus others .updated + countStatus others .unchanged +
          countStatus others .pending + countStatus others .drifted := by
  obtain ⟨root, config, names, reports, between, hfinishes, hreports, -, rfl⟩ :=
    exists_finishes hplain hw hapart h
  have hfiles := hfinishes.filesOf_eq
  have hstatuses : ∀ f ∈ filesOf reports, f.status = .unchanged ∨ f.status = .updated := by
    rw [hfiles]
    intro f hf
    obtain ⟨s, hs, rfl⟩ := List.mem_map.mp hf
    exact (hfinishes.status_eq_updated_iff houtputs hs).1
  refine ⟨rfl, reports, between, hreports, hfiles, hstatuses, fun mode hmode => ?_, length_filesOf⟩
  have hagain := hfinishes.yields_targetReports
    (hfinishes.reseen_start houtputs hsources hmode) hfinishes.setup
  have hreport' : (inMode options mode).report = none := hplain.report
  have hconclude (seen : List TargetReport) :
      Yields w (conclude (inMode options mode) seen)
        (if mode.check && seen.any TargetReport.hasDrift then 1 else 0) :=
    yields_conclude hreport' w seen
  have hrun := hagain.bind (hconclude _)
  rw [← run_eq] at hrun
  obtain ⟨middle, hmiddle, -⟩ := hagain w (.refl w)
  obtain ⟨last, hlast, hsame⟩ := hrun w (.refl w)
  refine ⟨_, middle, last, hmiddle, hlast, hsame, ?_, ?_⟩
  · split_ifs <;> decide
  · have hdrift : (reports.map (TargetReport.mapFiles (FileReport.seenIn mode))).any
          TargetReport.hasDrift = true ↔ mode.check = true ∧ ∃ s ∈ history options w, ∃ u,
            s.unit? = some u ∧ w.tree.text? s.output.parts ≠ some u.content := by
      rw [any_hasDrift_iff, filesOf_map, hfiles]
      simp only [List.mem_map, exists_exists_and_eq_and]
      constructor
      · rintro ⟨s, hs, hdrifted⟩
        obtain ⟨hstatus, hupdated⟩ := hfinishes.status_eq_updated_iff houtputs hs
        obtain ⟨hcheck, hchanged⟩ := (seenIn_status_eq_drifted_iff hstatus).mp hdrifted
        exact ⟨hcheck, s, hs, hupdated.mp hchanged⟩
      · rintro ⟨hcheck, s, hs, hdiffers⟩
        obtain ⟨hstatus, hupdated⟩ := hfinishes.status_eq_updated_iff houtputs hs
        exact ⟨s, hs, (seenIn_status_eq_drifted_iff hstatus).mpr ⟨hcheck, hupdated.mpr hdiffers⟩⟩
    by_cases hcheck : mode.check = true
    · simp only [hcheck, Bool.true_and, true_and] at hdrift ⊢
      rw [← hdrift]
      split_ifs with hany <;> simp [hany]
    · simp [eq_false_of_ne_true hcheck]

section Sample

/-- What a step reads and writes, and the text that it makes. -/
def Step.seen (s : Step) : Path × Location × Location × Option Text :=
  (s.source, s.output.parts, s.header.parts, s.unit?.map (·.content))

/-- The steps of a plain run that succeeds, and the directories that it searches. -/
structure Processes (w : Workspace) (seen : List (Path × Location × Location × Option Text))
    (directories : List Location) : Prop where
  steps : (history plainOptions w).map Step.seen = seen
  directories : (jobs plainOptions w).map (·.1.sourceRoot.parts) = directories
  succeeds : ((run plainOptions).perform w).1 = .ok 0

namespace Processes

variable {seen : List (Path × Location × Location × Option Text)} {directories : List Location}

theorem exists_perform (h : Processes w seen directories) :
    ∃ after, (run plainOptions).perform w = (.ok 0, after) := exists_perform_eq h.succeeds

theorem seen_mem (h : Processes w seen directories) {s : Step} (hs : s ∈ history plainOptions w) :
    s.seen ∈ seen := h.steps ▸ List.mem_map_of_mem hs

theorem keepsApart (h : Processes w seen directories)
    (hdown : ∀ place ∈ seen.map (·.2.1) ++ seen.map (·.2.2.1), ['.', '.'] ∉ place)
    (hheader : ∀ place ∈ seen.map (·.2.2.1), place ∉ seen.map (·.2.1))
    (hsource : ∀ directory ∈ directories, ∀ place ∈ seen.map (·.2.1), ¬ directory <+: place) :
    KeepsApart plainOptions w := by
  have houtputs := congrArg (List.map (·.2.1)) h.steps
  have hheaders := congrArg (List.map (·.2.2.1)) h.steps
  rw [List.map_map] at houtputs hheaders
  exact .of_map_eq houtputs hheaders h.directories hdown hheader hsource

theorem hasDirectory (h : Processes w seen directories)
    (hw : ∀ directory ∈ directories, w.tree.HasDirectory directory) :
    ∀ s ∈ jobs plainOptions w, w.tree.HasDirectory s.1.sourceRoot.parts := fun _ hs =>
  hw _ (h.directories ▸ List.mem_map_of_mem (f := fun s => s.1.sourceRoot.parts) hs)

/-- A single step that makes a unit. -/
theorem exists_step {source : Path} {output header : Location} {t : Text}
    (h : Processes w [(source, output, header, some t)] directories) :
    ∃ s u, history plainOptions w = [s] ∧ s.output.parts = output ∧ s.header.parts = header ∧
      s.unit? = some u ∧ u.content = t := by
  obtain ⟨s, rest, hhistory, hs, hrest⟩ := List.map_eq_cons_iff.mp h.steps
  obtain rfl := List.map_eq_nil_iff.mp hrest
  simp only [Step.seen, Prod.mk.injEq, Option.map_eq_some_iff] at hs
  obtain ⟨-, houtput, hheader, u, hu, hcontent⟩ := hs
  exact ⟨s, u, hhistory, houtput, hheader, hu, hcontent⟩

theorem outputsDiffer {source : Path} {output header : Location} {t : Text}
    (h : Processes w [(source, output, header, some t)] directories) :
    OutputsDiffer plainOptions w := by
  obtain ⟨s, -, hhistory, -⟩ := h.exists_step
  unfold OutputsDiffer
  rw [hhistory]
  exact List.pairwise_singleton _ _

end Processes

end Sample

namespace Checked

def configText : Text :=
  "\x7b\"targets\":\x7b\"a\":\x7b\"source_dir\":\"s\",\"jni_dir\":\"j\"\x7d\x7d\x7d".toList

def members : Members :=
  [("targets".toList, .obj [(['a'], .obj
    [("source_dir".toList, .str ['s']), ("jni_dir".toList, .str ['j'])])])]

def unitText : Text := "#include <A.h>\n".toList

/-- The unit of the source file is missing. -/
def missing : Workspace := sampleWorkspace configText "//native".toList [("A.h".toList, [])]

/-- The unit of the source file is there, but for its line end. -/
def otherLineEnd : Workspace :=
  sampleWorkspace configText "//native".toList
    [("A.h".toList, []), ("A.cpp".toList, "#include <A.h>\r\n".toList)]

/-- The one source file, its unit and its header. -/
def seen : List (Path × Location × Location × Option Text) :=
  [(⟨1, [['s'], "A.java".toList]⟩, [['j'], "A.cpp".toList], [['j'], "A.h".toList], some unitText)]

theorem regular_missing : missing.tree.Regular := Tree.regular_of_nodes missing.tree (by decide)

theorem regular_otherLineEnd : otherLineEnd.tree.Regular :=
  Tree.regular_of_nodes otherLineEnd.tree (by decide)

set_option maxRecDepth 10000 in
theorem parse_configText : Json.parse configText = .ok (.obj members) := by cbv

theorem perform_setup {glue : List (Text × Text)}
    (h : (sampleWorkspace configText "//native".toList glue).tree.Regular) :
    (setup plainOptions).perform (sampleWorkspace configText "//native".toList glue) =
      (.ok (⟨1, []⟩, members, [['a']]), sampleWorkspace configText "//native".toList glue) :=
  perform_setup_sample h.linkFree rfl rfl rfl rfl rfl (text?_sampleWorkspace (by decide))
    parse_configText rfl (by decide) (by decide)

set_option maxRecDepth 10000 in
theorem processes_missing : Processes missing seen [[['s']]] := by
  have hsetup : (setup plainOptions).perform missing = _ := perform_setup regular_missing
  have hfacts : (history plainOptions missing).map Step.seen = seen ∧
      (jobs plainOptions missing).map (·.1.sourceRoot.parts) = [[['s']]] ∧
      ((run plainOptions).perform missing).1 = .ok 0 := by
    rw [history, jobs_of_setup hsetup, run_of_setup hsetup]
    decide +kernel
  exact ⟨hfacts.1, hfacts.2.1, hfacts.2.2⟩

set_option maxRecDepth 10000 in
/-- The unit with the other line end passes a check. -/
theorem processes_otherLineEnd : Processes otherLineEnd seen [[['s']]] ∧
    ((run (inMode plainOptions ⟨false, true⟩)).perform otherLineEnd).1 = .ok 0 := by
  have hsetup : (setup plainOptions).perform otherLineEnd = _ := perform_setup regular_otherLineEnd
  have hcheck : (setup (inMode plainOptions ⟨false, true⟩)).perform otherLineEnd = _ := hsetup
  have hfacts : (history plainOptions otherLineEnd).map Step.seen = seen ∧
      (jobs plainOptions otherLineEnd).map (·.1.sourceRoot.parts) = [[['s']]] ∧
      ((run plainOptions).perform otherLineEnd).1 = .ok 0 ∧
      ((run (inMode plainOptions ⟨false, true⟩)).perform otherLineEnd).1 = .ok 0 := by
    rw [history, jobs_of_setup hsetup, run_of_setup hsetup, run_of_setup hcheck]
    decide +kernel
  exact ⟨⟨hfacts.1, hfacts.2.1, hfacts.2.2.1⟩, hfacts.2.2.2⟩

theorem keepsApart {w : Workspace} (h : Processes w seen [[['s']]]) : KeepsApart plainOptions w :=
  h.keepsApart (by decide) (by decide) (by decide)

theorem hasDirectory {w : Workspace} (h : Processes w seen [[['s']]])
    (hw : w.tree.HasDirectory [['s']]) :
    ∀ s ∈ jobs plainOptions w, w.tree.HasDirectory s.1.sourceRoot.parts :=
  h.hasDirectory fun _ hdirectory => (List.mem_singleton.mp hdirectory).symm ▸ hw

end Checked

/-- A check fails and changes nothing where a run would write a missing unit. -/
theorem check_fails_on_missing_unit : ∃ after last,
    (run plainOptions).perform Checked.missing = (.ok 0, after) ∧
      (run (inMode plainOptions ⟨false, true⟩)).perform Checked.missing = (.ok 1, last) ∧
      Checked.missing.SameFiles last := by
  have hprocesses := Checked.processes_missing
  obtain ⟨s, u, hhistory, houtput, -, hu, -⟩ := hprocesses.exists_step
  obtain ⟨after, hrun⟩ := hprocesses.exists_perform
  obtain ⟨-, reports, between, -, -, -, hmodes, -⟩ := run_inMode_of_run
    ⟨rfl, rfl, rfl⟩ Checked.regular_missing (Checked.keepsApart hprocesses) hprocesses.outputsDiffer
    (Checked.hasDirectory hprocesses ⟨_, rfl⟩) hrun
  obtain ⟨code, middle, last, -, hcheck, hsame, -, hcode⟩ := hmodes ⟨false, true⟩ (by decide)
  have hfails : code = 1 := by
    refine hcode.mpr ⟨rfl, s, by rw [hhistory]; exact List.mem_singleton_self s, u, hu, ?_⟩
    rw [houtput]
    exact fun htext => nomatch htext
  exact ⟨after, last, hrun, hfails ▸ hcheck, hsame⟩

namespace Overlapping

/-- Two targets with the same sources and outputs, but other headers. -/
def configText : Text :=
  "\x7b\"targets\":\x7b\"a\":\x7b\"source_dir\":\"s\",\"jni_dir\":\"j\"\x7d,\"b\":".toList ++
    "\x7b\"source_dir\":\"s\",\"jni_dir\":\"j\",\"header_name\":".toList ++
    "\"\x7bclass_name\x7d.hpp\"\x7d\x7d\x7d".toList

def members : Members :=
  let directories : Members := [("source_dir".toList, .str ['s']), ("jni_dir".toList, .str ['j'])]
  let header : Json.Value := .str (Config.classNameSlot ++ ".hpp".toList)
  [("targets".toList, .obj [(['a'], .obj directories),
    (['b'], .obj (directories ++ [("header_name".toList, header)]))])]

/-- The output holds the unit of the second target. -/
def workspace : Workspace :=
  sampleWorkspace configText "//native".toList
    [("A.h".toList, []), ("A.hpp".toList, []), ("A.cpp".toList, "#include <A.hpp>\n".toList)]

/-- The source file as it is seen for both targets. -/
def seen : List (Path × Location × Location × Option Text) :=
  let source : Path := ⟨1, [['s'], "A.java".toList]⟩
  let output : Location := [['j'], "A.cpp".toList]
  [(source, output, [['j'], "A.h".toList], some "#include <A.h>\n".toList),
    (source, output, [['j'], "A.hpp".toList], some "#include <A.hpp>\n".toList)]

theorem regular_workspace : workspace.tree.Regular :=
  Tree.regular_of_nodes workspace.tree (by decide)

set_option maxRecDepth 10000 in
theorem parse_configText : Json.parse configText = .ok (.obj members) := by cbv

theorem perform_setup : (setup plainOptions).perform workspace =
    (.ok (⟨1, []⟩, members, [['a'], ['b']]), workspace) :=
  perform_setup_sample regular_workspace.linkFree rfl rfl rfl rfl rfl
    (text?_sampleWorkspace (by decide)) parse_configText rfl (by decide) (by decide)

set_option maxRecDepth 10000 in
theorem processes_workspace : Processes workspace seen [[['s']], [['s']]] := by
  have hfacts : (history plainOptions workspace).map Step.seen = seen ∧
      (jobs plainOptions workspace).map (·.1.sourceRoot.parts) = [[['s']], [['s']]] ∧
      ((run plainOptions).perform workspace).1 = .ok 0 := by
    rw [history, jobs_of_setup perform_setup, run_of_setup perform_setup]
    decide +kernel
  exact ⟨hfacts.1, hfacts.2.1, hfacts.2.2⟩

set_option maxRecDepth 10000 in
theorem perform_targetReports : ∃ reports between seen middle,
    (targetReports plainOptions).perform workspace = (.ok reports, between) ∧
      (targetReports (inMode plainOptions ⟨true, false⟩)).perform workspace = (.ok seen, middle) ∧
      (filesOf reports).map (·.status) = [.updated, .updated] ∧
      (filesOf seen).map (·.status) = [.pending, .unchanged] := by
  have hdry : (setup (inMode plainOptions ⟨true, false⟩)).perform workspace = _ := perform_setup
  have hstatuses : ((targetReports plainOptions).perform workspace).1.toOption.map
        (fun reports => (filesOf reports).map (·.status)) = some [.updated, .updated] ∧
      ((targetReports (inMode plainOptions ⟨true, false⟩)).perform workspace).1.toOption.map
        (fun reports => (filesOf reports).map (·.status)) = some [.pending, .unchanged] := by
    rw [targetReports_of_setup perform_setup, targetReports_of_setup hdry]
    decide +kernel
  obtain ⟨hplain, hseen⟩ := hstatuses
  obtain ⟨reports, hreports, hplain⟩ := Option.map_eq_some_iff.mp hplain
  obtain ⟨seen, hseen, hdry⟩ := Option.map_eq_some_iff.mp hseen
  obtain ⟨between, hreports⟩ := exists_perform_eq (eq_ok_of_toOption hreports)
  obtain ⟨middle, hseen⟩ := exists_perform_eq (eq_ok_of_toOption hseen)
  exact ⟨reports, between, seen, middle, hreports, hseen, hplain, hdry⟩

theorem keepsApart : KeepsApart plainOptions workspace :=
  processes_workspace.keepsApart (by decide) (by decide) (by decide)

theorem source_eq {s : Step} (hs : s ∈ history plainOptions workspace) :
    s.source = ⟨1, [['s'], "A.java".toList]⟩ := by
  have hall : ∀ e ∈ seen, e.1 = ⟨1, [['s'], "A.java".toList]⟩ := by decide
  exact hall _ (processes_workspace.seen_mem hs)

end Overlapping

/-- One source file may be processed for two targets with the same output. Then what the second
finds depends on whether the first has written. And a check passes what differs in its line ends
alone. -/
theorem modes_disagree :
    (∃ options w after reports between seen middle, IsPlain options ∧ w.tree.Regular ∧
      KeepsApart options w ∧
      (∀ s ∈ history options w, ∀ t ∈ history options w,
        s.output.parts = t.output.parts → s.source = t.source) ∧
      (∀ s ∈ jobs options w, w.tree.HasDirectory s.1.sourceRoot.parts) ∧
      (run options).perform w = (.ok 0, after) ∧
      (targetReports options).perform w = (.ok reports, between) ∧
      (targetReports (inMode options ⟨true, false⟩)).perform w = (.ok seen, middle) ∧
      (filesOf reports).map (·.status) = [.updated, .updated] ∧
      (filesOf seen).map (·.status) = [.pending, .unchanged]) ∧
    ∃ options w after last s u, IsPlain options ∧ w.tree.Regular ∧ KeepsApart options w ∧
      OutputsDiffer options w ∧
      (∀ s ∈ jobs options w, w.tree.HasDirectory s.1.sourceRoot.parts) ∧
      (run options).perform w = (.ok 0, after) ∧
      (run (inMode options ⟨false, true⟩)).perform w = (.ok 0, last) ∧
      s ∈ history options w ∧ s.unit? = some u ∧
      w.tree.contents? s.output.parts ≠ some (encode u.content) := by
  constructor
  · obtain ⟨reports, between, seen, middle, hreports, hseen, hupdated, hpending⟩ :=
      Overlapping.perform_targetReports
    obtain ⟨after, hrun⟩ := Overlapping.processes_workspace.exists_perform
    refine ⟨plainOptions, Overlapping.workspace, after, reports, between, seen, middle, ⟨rfl, rfl, rfl⟩,
      Overlapping.regular_workspace, Overlapping.keepsApart,
      fun s hs t ht _ => (Overlapping.source_eq hs).trans (Overlapping.source_eq ht).symm,
      Overlapping.processes_workspace.hasDirectory fun directory hdirectory => ?_,
      hrun, hreports, hseen, hupdated, hpending⟩
    have hs : directory = [['s']] := by simpa using hdirectory
    exact hs ▸ ⟨_, rfl⟩
  · obtain ⟨hprocesses, hcheck⟩ := Checked.processes_otherLineEnd
    obtain ⟨s, u, hhistory, houtput, -, hu, hcontent⟩ := hprocesses.exists_step
    obtain ⟨after, hrun⟩ := hprocesses.exists_perform
    obtain ⟨last, hcheck⟩ := exists_perform_eq hcheck
    refine ⟨plainOptions, Checked.otherLineEnd, after, last, s, u, ⟨rfl, rfl, rfl⟩,
      Checked.regular_otherLineEnd, Checked.keepsApart hprocesses, hprocesses.outputsDiffer,
      Checked.hasDirectory hprocesses ⟨_, rfl⟩, hrun, hcheck, ?_, hu, ?_⟩
    · rw [hhistory]
      exact List.mem_singleton_self s
    · rw [houtput, hcontent]
      decide +kernel

end Generate

end NativeGlue
