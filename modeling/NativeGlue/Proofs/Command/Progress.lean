import NativeGlue.Proofs.Command.History

/-!
How a run changes a regular tree. Each step writes its output and makes what directories are missing
on the way to it, so what is nobody's output stays from the start of a run to its end.
-/

namespace NativeGlue.Generate

open Text NativeGlue.Action Command

variable {options : GenerateOptions} {w after : Workspace}

/-- What a step that may write has found and done, in a regular tree. -/
structure Step.Outcome (s : Step) (d : Draft) (old : Text) (after : Workspace) : Prop where
  drafted : (draft s.job s.source).perform s.before = (.ok (some d), s.before)
  unit_eq : s.unit? = some d.unit
  className_eq : s.report.className = d.className
  writable : s.output.isWritable = true
  short : s.output.IsShort
  shown : s.before.tree.Shows s.output.parts old
  reported : ∃ header output,
    (relativeText s.output s.job.root).perform after = (.ok output, after) ∧
    (relativeText s.header s.job.root).perform after = (.ok header, after) ∧
    s.report = d.report (Artifact.verdict ⟨false, false⟩ old d.unit.content) header output
  directory : after.directory = s.before.directory
  grows : Tree.Grows (· = s.output.parts) s.before.tree after.tree
  contents : after.tree.text? s.output.parts = some (unifyLineEnds d.unit.content)

theorem Step.exists_outcome {s : Step} (hw : s.before.tree.Regular) (hs : s.Belongs options)
    (hcommand : options.runHeaderCommand = false) (hmode : options.mode = ⟨false, false⟩)
    (hproper : s.output.IsProper)
    (h : (generateSource s.job s.source).perform s.before = (.ok (some s.report), after)) :
    ∃ d old, s.Outcome d old after := by
  have hlinks := hw.linkFree
  have hmode' : s.job.options.mode = ⟨false, false⟩ := by rw [hs.job.options_eq, hmode]
  obtain ⟨d, old, header, output, hdraft, hold, hreport, houtput, hheader, between, hfiles,
    hwritten⟩ := generateSource_eq_some (hs.job.options_eq ▸ hcommand) (by rw [hmode']; rfl) h
  have hclass : s.report.className = d.className := by
    rw [hreport]
    rfl
  have hpath : s.job.outputPath d.className = s.output := by rw [Step.output, hclass]
  have hheaderPath : s.job.headerPath d.className = s.header := by rw [Step.header, hclass]
  rw [hpath] at hold houtput hwritten
  rw [hheaderPath] at hheader
  rw [hmode'] at hreport
  have hunit := unit?_of_draft hlinks hs hclass hdraft
  rcases hwritten with ⟨-, hwrite⟩ | ⟨-, rfl, hread⟩
  · obtain ⟨hwritable, hshort, hgrows⟩ := writeText_grows hlinks hproper hwrite
    obtain ⟨hdirectory, -, hleaf⟩ := writeText_extends hlinks hproper.absolute hwrite
    rw [Path.place_eq _ hproper.names] at hleaf
    refine ⟨d, old, hdraft, hunit, hclass, hwritable, hshort,
      Artifact.shows_of_currentText hlinks hproper hwritable hold,
      ⟨header, output, houtput, hheader, hreport⟩, hfiles.directory.trans hdirectory,
      hfiles.tree ▸ hgrows, ?_⟩
    rw [hfiles.tree]
    rcases hleaf with hleaf | ⟨-, hnull⟩
    · exact Tree.text?_of_leaf?_eq_file hleaf
    · exact absurd ((Tree.leaf?_eq_some_iff _ _ _).mp hnull).1 (hw.no_device _)
  · obtain ⟨-, hwritable, hshort, htext⟩ := (readText_eq_ok_iff hlinks hproper _ _).mp hread
    refine ⟨d, old, hdraft, hunit, hclass, hwritable, hshort,
      Artifact.shows_of_currentText hlinks hproper hwritable hold,
      ⟨header, output, houtput, hheader, hreport⟩, hfiles.directory,
      hfiles.tree ▸ .refl _ _, ?_⟩
    rw [hfiles.tree, htext, unifyLineEnds_eq_self]
    exact Tree.return_notMem_of_text? htext

/-- The outputs of some steps. -/
def Writes (steps : List Step) (place : Location) : Prop := ∃ s ∈ steps, s.output.parts = place

theorem Writes.mono {steps others : List Step} {place : Location} (h : Writes others place)
    (hsubset : ∀ s ∈ others, s ∈ steps) : Writes steps place :=
  h.imp fun s hs => ⟨hsubset s hs.1, hs.2⟩

/-- Steps that belong to a run and have outputs that do not go up. -/
structure AreProper (options : GenerateOptions) (steps : List Step) : Prop where
  belongs : ∀ s ∈ steps, s.Belongs options
  output : ∀ s ∈ steps, s.output.IsProper

theorem AreProper.of_subset {steps others : List Step} (h : AreProper options steps)
    (hsubset : ∀ s ∈ others, s ∈ steps) : AreProper options others :=
  ⟨fun s hs => h.belongs s (hsubset s hs), fun s hs => h.output s (hsubset s hs)⟩

theorem Leads.grows {steps : List Step} (h : Leads w steps after) (hw : w.tree.Regular)
    (hcommand : options.runHeaderCommand = false) (hmode : options.mode = ⟨false, false⟩)
    (hsteps : AreProper options steps) :
    after.directory = w.directory ∧ Tree.Grows (Writes steps) w.tree after.tree := by
  induction steps generalizing w with
  | nil => exact ⟨h.directory, h.tree ▸ .refl _ _⟩
  | cons s steps ih =>
    obtain ⟨hstart, next, hstep, hrest⟩ := h
    obtain ⟨d, old, houtcome⟩ := Step.exists_outcome (hstart.tree ▸ hw)
      (hsteps.belongs s List.mem_cons_self) hcommand hmode (hsteps.output s List.mem_cons_self)
      hstep
    have hfirst := houtcome.grows
    rw [hstart.tree] at hfirst
    obtain ⟨hdirectory, hgrows⟩ := ih hrest (hfirst.regular hw)
      (hsteps.of_subset fun t ht => List.mem_cons_of_mem s ht)
    refine ⟨hdirectory.trans (houtcome.directory.trans hstart.directory), ?_⟩
    refine (hfirst.mono fun place hplace => ?_).trans (hgrows.mono fun place hplace => ?_)
    · exact ⟨s, List.mem_cons_self, hplace.symm⟩
    · obtain ⟨t, ht, hplace⟩ := hplace
      exact ⟨t, List.mem_cons_of_mem s ht, hplace⟩

/-- What a run writes is nothing that it reads: its outputs do not go up, are no headers, and do
not lie where a target would find a source file. -/
structure KeepsApart (options : GenerateOptions) (w : Workspace) : Prop where
  output_down : ∀ s ∈ history options w, ['.', '.'] ∉ s.output.parts
  header_down : ∀ s ∈ history options w, ['.', '.'] ∉ s.header.parts
  header : ∀ s ∈ history options w, ¬ Writes (history options w) s.header.parts
  source : ∀ j ∈ jobs options w, ∀ parts,
    Sources.isPick j.1.target.includes j.1.target.excludes parts = true →
      ¬ Writes (history options w) (j.1.sourceRoot.parts ++ parts)

/-- What a run writes and reads can be told from lists of its outputs, headers and directories. -/
theorem KeepsApart.of_map_eq {outputs headers directories : List Location}
    (houtputs : (history options w).map (·.output.parts) = outputs)
    (hheaders : (history options w).map (·.header.parts) = headers)
    (hdirectories : (jobs options w).map (·.1.sourceRoot.parts) = directories)
    (hdown : ∀ place ∈ outputs ++ headers, ['.', '.'] ∉ place)
    (hheader : ∀ place ∈ headers, place ∉ outputs)
    (hsource : ∀ directory ∈ directories, ∀ place ∈ outputs, ¬ directory <+: place) :
    KeepsApart options w := by
  have hwrites {place : Location} (h : Writes (history options w) place) : place ∈ outputs := by
    obtain ⟨s, hs, rfl⟩ := h
    exact houtputs ▸ List.mem_map_of_mem hs
  have hread {s : Step} (hs : s ∈ history options w) : s.header.parts ∈ headers :=
    hheaders ▸ List.mem_map_of_mem hs
  refine ⟨fun s hs => hdown _ (List.mem_append_left _ (hwrites ⟨s, hs, rfl⟩)),
    fun s hs => hdown _ (List.mem_append_right _ (hread hs)),
    fun s hs hwritten => hheader _ (hread hs) (hwrites hwritten),
    fun j hj parts _ hwritten => ?_⟩
  exact hsource _ (hdirectories ▸ List.mem_map_of_mem hj) _ (hwrites hwritten)
    (List.prefix_append _ _)

theorem KeepsApart.areProper (h : KeepsApart options w) :
    AreProper options (history options w) where
  belongs _ hs := belongs_of_mem_history hs
  output s hs := Path.isProper_child (belongs_of_mem_history hs).job.glueRoot _ (h.output_down s hs)

theorem KeepsApart.isProper_header (h : KeepsApart options w) :
    ∀ s ∈ history options w, s.header.IsProper := fun s hs =>
  Path.isProper_child (belongs_of_mem_history hs).job.glueRoot _ (h.header_down s hs)

/-- A run that may write, starts no command and keeps what it writes apart from what it reads in a
regular tree, up to the reports on all its targets. -/
structure Finishes (options : GenerateOptions) (w : Workspace) (root : Path) (config : Members)
    (names : List Text) (reports : List TargetReport) (after : Workspace) : Prop where
  command : options.runHeaderCommand = false
  mode : options.mode = ⟨false, false⟩
  regular : w.tree.Regular
  apart : KeepsApart options w
  setup : (setup options).perform w = (.ok (root, config, names), w)
  reported : (traverse (generateTarget options root config) List.cons names).perform w =
    (.ok reports, after)

/-- A run that may write its outputs and nothing else. -/
structure IsPlain (options : GenerateOptions) : Prop where
  mode : options.mode = ⟨false, false⟩
  command : options.runHeaderCommand = false
  report : options.report = none

/-- A plain run that ends with a code has reported on all its targets, and then changes nothing
more. -/
theorem exists_finishes {code : Nat} (hplain : IsPlain options) (hw : w.tree.Regular)
    (hapart : KeepsApart options w)
    (h : (run options).perform w = (.ok code, after)) :
    ∃ root config names reports between,
      Finishes options w root config names reports between ∧
        (targetReports options).perform w = (.ok reports, between) ∧
        between.SameFiles after ∧ code = 0 := by
  rw [run_eq] at h
  obtain ⟨reports, between, hreports, hconclude⟩ := (perform_bind_eq_ok_iff _ _ w after code).mp h
  obtain ⟨rfl, hfiles⟩ := (yields_conclude hplain.report between reports).eq_of_ok hconclude
  have hall := hreports
  unfold targetReports at hall
  obtain ⟨⟨root, config, names⟩, hsetup, hall⟩ :=
    ((reads_setup options).perform_bind_eq_ok_iff w between reports).mp hall
  dsimp only at hall
  rw [mapM_eq_traverse] at hall
  refine ⟨root, config, names, reports, between,
    ⟨hplain.command, hplain.mode, hw, hapart, hsetup, hall⟩, hreports, hfiles, ?_⟩
  rw [hplain.mode]
  rfl

namespace Finishes

variable {root : Path} {config : Members} {names : List Text} {reports : List TargetReport}

theorem history_eq (h : Finishes options w root config names reports after) :
    history options w = (started (generateTarget options root config) names w).flatMap fun s =>
      ((jobOf options root config s.1).perform s.2).1.toOption.toList.flatMap fun j =>
        stepsOf j s.2 := by
  rw [Generate.history_eq, h.setup]
  simp only [Except.toOption, Option.toList_some, List.flatMap_singleton]

/-- The reports of a run are those of its history. -/
theorem filesOf_eq (h : Finishes options w root config names reports after) :
    filesOf reports = (history options w).map (·.report) := by
  rw [h.history_eq, List.map_flatMap]
  refine (flatMap_started_eq (generateTarget options root config) List.cons filesOf
    TargetReport.files _ rfl (fun _ _ => List.flatMap_cons) names w after reports h.reported
    fun s _ r next hr => ?_).symm
  obtain ⟨j, sources, files, between, hjob, hfind, hfiles, rfl⟩ := generateTarget_eq_ok h.command hr
  have hcommand : j.options.runHeaderCommand = false := (jobOf_eq_ok hjob).1 ▸ h.command
  rw [hjob]
  simp only [Except.toOption, Option.toList_some, List.flatMap_singleton]
  rw [stepsOf_eq, hfind]
  simp only [Except.toOption, Option.toList_some, List.flatMap_singleton]
  rw [List.map_flatMap]
  refine flatMap_started_eq (generateSource j) _ id Option.toList _ rfl (fun _ _ => rfl) sources
    s.2 between files hfiles fun t _ found last hfound => ?_
  unfold step?
  rw [hfound]
  cases found with
  | none => rfl
  | some report => rfl

theorem leads (h : Finishes options w root config names reports after) :
    Leads w (history options w) after := by
  rw [h.history_eq]
  exact traverse_relates _ _ Leads Workspace.SameFiles.refl
    (fun hfirst hthen => hfirst.append hthen) _
    (fun name v result last => follows_generateTarget h.command root config name v last result)
    names w after _ h.reported fun _ heq => nomatch heq

/-- How far the tree has grown at a point of the run. -/
theorem grows (h : Finishes options w root config names reports after) {steps : List Step}
    {v : Workspace} (hleads : Leads w steps v) (hsteps : ∀ s ∈ steps, s ∈ history options w) :
    v.directory = w.directory ∧ Tree.Grows (Writes steps) w.tree v.tree :=
  hleads.grows h.regular h.command h.mode (h.apart.areProper.of_subset hsteps)

/-- What the run has done with a source file that it has processed. -/
theorem exists_outcome (h : Finishes options w root config names reports after)
    {before later : List Step} {s : Step} (hs : history options w = before ++ s :: later) :
    Leads w before s.before ∧ ∃ d old next, s.Outcome d old next ∧ Leads next later after := by
  have hleads := h.leads
  rw [hs] at hleads
  obtain ⟨hbefore, next, hstep, hlater⟩ := hleads.split
  have hmem : s ∈ history options w := hs ▸ List.mem_append_right _ List.mem_cons_self
  obtain ⟨-, hgrows⟩ := h.grows hbefore fun u hu => hs ▸ List.mem_append_left _ hu
  obtain ⟨d, old, houtcome⟩ := Step.exists_outcome (hgrows.regular h.regular)
    (h.apart.areProper.belongs s hmem) h.command h.mode (h.apart.areProper.output s hmem) hstep
  exact ⟨hbefore, d, old, next, houtcome, hlater⟩

/-- Where a run comes to a target. -/
theorem exists_target (h : Finishes options w root config names reports after)
    {s : Text × Workspace} (hs : s ∈ started (generateTarget options root config) names w)
    {j : Job} (hjob : (jobOf options root config s.1).perform s.2 = (.ok j, s.2)) :
    (j, s.2) ∈ jobs options w ∧ ∃ before later, Leads w before s.2 ∧ Leads s.2 later after ∧
      history options w = before ++ later ∧ stepsOf j s.2 <+: later := by
  have hresult : ((jobOf options root config s.1).perform s.2).1 = .ok j := congrArg Prod.fst hjob
  constructor
  · rw [jobs_of_setup h.setup]
    refine List.mem_filterMap.mpr ⟨s, hs, ?_⟩
    rw [hresult]
    rfl
  · obtain ⟨before, later, hbefore, hlater, hall, hprefix⟩ :=
      exists_relates_started _ _ Leads Workspace.SameFiles.refl
        (fun hfirst hthen => hfirst.append hthen)
        (fun s => ((jobOf options root config s.1).perform s.2).1.toOption.toList.flatMap fun j =>
          stepsOf j s.2)
        (fun name v result last => follows_generateTarget h.command root config name v last result)
        names w after _ h.reported s hs
    refine ⟨before, later, hbefore, hlater, h.history_eq.trans hall, ?_⟩
    rw [hresult] at hprefix
    simpa only [Except.toOption, Option.toList_some, List.flatMap_singleton] using hprefix

theorem exists_of_mem_jobs (h : Finishes options w root config names reports after)
    {s : Job × Workspace} (hs : s ∈ jobs options w) :
    ∃ before later, Leads w before s.2 ∧ Leads s.2 later after ∧
      history options w = before ++ later := by
  rw [jobs_of_setup h.setup] at hs
  obtain ⟨t, ht, hjob⟩ := List.mem_filterMap.mp hs
  obtain ⟨j, hj, rfl⟩ := Option.map_eq_some_iff.mp hjob
  have hperform := (reads_jobOf options root config t.1).perform_eq (eq_ok_of_toOption hj)
  obtain ⟨-, before, later, hbefore, hlater, hhistory, -⟩ := h.exists_target ht hperform
  exact ⟨before, later, hbefore, hlater, hhistory⟩

/-- The source files of a target are not written by the run. -/
theorem isProper_of_mem_sourcesOf (h : Finishes options w root config names reports after)
    {s : Job × Workspace} (hs : s ∈ jobs options w) {path : Path}
    (hpath : path ∈ sourcesOf s.1 s.2) :
    path.IsProper ∧ ¬ Writes (history options w) path.parts := by
  obtain ⟨before, later, hbefore, -, hhistory⟩ := h.exists_of_mem_jobs hs
  obtain ⟨-, hgrows⟩ := h.grows hbefore fun u hu => hhistory ▸ List.mem_append_left _ hu
  have hregular := hgrows.regular h.regular
  have hroot := (belongs_of_mem_jobs hs).sourceRoot
  obtain ⟨sources, hfind, hpath⟩ := mem_sourcesOf hpath
  obtain ⟨-, -, rfl⟩ := (Sources.find_eq_ok_iff hregular hroot _ _).mp hfind
  obtain ⟨parts, rfl, hpick, hsome⟩ := Sources.exists_of_mem_listing hregular.distinct hpath
  exact ⟨Sources.isProper_under hregular hroot hsome, h.apart.source s hs parts hpick⟩

/-- A unit is made from what the source file and its header were when the run has started. -/
theorem unit?_eq (h : Finishes options w root config names reports after) {s : Step}
    (hs : s ∈ history options w) :
    s.unit? = (w.tree.text? s.source.parts).bind fun source =>
      (w.tree.text? s.header.parts).bind fun header =>
        (GlueUnit.generate source header s.header.name).toOption := by
  obtain ⟨⟨v, hjob, hpath⟩, -⟩ := exists_of_mem_history hs
  obtain ⟨hproper, hsource⟩ := h.isProper_of_mem_sourcesOf hjob hpath
  obtain ⟨before, later, hhistory⟩ := List.append_of_mem hs
  have hsubset : ∀ u ∈ before, u ∈ history options w := fun u hu =>
    hhistory ▸ List.mem_append_left _ hu
  obtain ⟨-, hgrows⟩ := h.grows (h.exists_outcome hhistory).1 hsubset
  have htext {place : Location} (hplace : ¬ Writes (history options w) place) :
      s.before.tree.text? place = w.tree.text? place :=
    Tree.text?_eq_of_leaf? (hgrows.leaves place fun hwritten => hplace (hwritten.mono hsubset))
  unfold Step.unit?
  rw [Path.place_eq _ hproper.names, Path.place_eq _ (h.apart.isProper_header s hs).names,
    htext hsource, htext (h.apart.header s hs)]
  rfl

/-- Where a run comes to a source file of a target. -/
theorem exists_source (h : Finishes options w root config names reports after)
    {s : Text × Workspace} (hs : s ∈ started (generateTarget options root config) names w)
    {j : Job} (hjob : (jobOf options root config s.1).perform s.2 = (.ok j, s.2))
    {t : Path × Workspace} (ht : t ∈ started (generateSource j) (sourcesOf j s.2) s.2) :
    ∃ before, Leads w before t.2 ∧
      before ++ (step? j t.1 t.2).toList <+: history options w := by
  obtain ⟨-, before, later, hbefore, -, hhistory, hsteps⟩ := h.exists_target hs hjob
  obtain ⟨r, next, hgenerated⟩ := exists_of_mem_started _ _ h.reported s hs
  obtain ⟨j', sources, files, between, hjob', hfind, hfiles, -⟩ :=
    generateTarget_eq_ok h.command hgenerated
  rw [hjob] at hjob'
  cases hjob'
  have hsources : sourcesOf j s.2 = sources := by
    unfold sourcesOf
    rw [hfind]
    rfl
  have hcommand : j.options.runHeaderCommand = false := (jobOf_eq_ok hjob).1 ▸ h.command
  rw [hsources] at ht
  obtain ⟨inner, rest, hinner, -, hall, hprefix⟩ :=
    exists_relates_started _ _ Leads Workspace.SameFiles.refl
      (fun hfirst hthen => hfirst.append hthen) (fun t => (step? j t.1 t.2).toList)
      (fun path v result last => follows_generateSource hcommand path v last result)
      sources s.2 between _ hfiles t ht
  refine ⟨before ++ inner, hbefore.append hinner, ?_⟩
  rw [hhistory, List.append_assoc]
  refine (List.prefix_append_right_inj before).mpr (.trans ?_ hsteps)
  rw [stepsOf, hsources, List.filterMap_eq_flatMap_toList, hall]
  exact (List.prefix_append_right_inj inner).mpr hprefix

end Finishes

end NativeGlue.Generate
