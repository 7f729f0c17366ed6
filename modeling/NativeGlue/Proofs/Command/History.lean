import NativeGlue.Proofs.Command.Step
import NativeGlue.Proofs.Traversal

/-!
The history of a run: the source files that it has processed, each with what was there before it. A
run that ends with a result or with a message leads from the workspace at its start, step by step,
to the one at its end. What the history says of each file, the run has done.
-/

namespace NativeGlue.Generate

open Text NativeGlue.Action Command

/-- One processed source file: its target, the workspace before it, and what was reported. -/
structure Step where
  job : Job
  source : Path
  before : Workspace
  report : FileReport

namespace Step

def output (s : Step) : Path := s.job.outputPath s.report.className

def header (s : Step) : Path := s.job.headerPath s.report.className

/-- The unit made from the source file and its header as they were. -/
def unit? (s : Step) : Option GlueUnit := do
  let source ← s.before.tree.text? s.source.place
  let header ← s.before.tree.text? s.header.place
  (GlueUnit.generate source header s.header.name).toOption

end Step

/-- What a source file is processed to, unless it is passed over or fails. -/
def step? (j : Job) (source : Path) (before : Workspace) : Option Step :=
  match (generateSource j source).perform before with
  | (.ok (some report), _) => some ⟨j, source, before, report⟩
  | _ => none

/-- The source files found for a target. -/
def sourcesOf (j : Job) (w : Workspace) : List Path :=
  ((Sources.find j.sourceRoot j.target.includes j.target.excludes).perform w).1.toOption.getD []

/-- The processed source files of a target. -/
def stepsOf (j : Job) (w : Workspace) : List Step :=
  (started (generateSource j) (sourcesOf j w) w).filterMap fun s => step? j s.1 s.2

/-- The root, the configuration and the selected targets. -/
def setup (options : GenerateOptions) : Action (Path × Members × List Text) := do
  let root ← repositoryRoot options.root
  let config ← configAt root options.config
  let names ← Action.liftConfig (Config.selectTargets config options.target)
  return (root, config, names)

/-- The targets to which a run comes, each with the workspace before it. -/
def jobs (options : GenerateOptions) (w : Workspace) : List (Job × Workspace) :=
  match ((setup options).perform w).1 with
  | .error _ => []
  | .ok (root, config, names) =>
    (started (generateTarget options root config) names w).filterMap fun s =>
      ((jobOf options root config s.1).perform s.2).1.toOption.map fun j => (j, s.2)

/-- The processed source files of a run. -/
def history (options : GenerateOptions) (w : Workspace) : List Step :=
  (jobs options w).flatMap fun s => stepsOf s.1 s.2

/-- The reports on the selected targets. -/
def targetReports (options : GenerateOptions) : Action (List TargetReport) := do
  let (root, config, names) ← setup options
  names.mapM (generateTarget options root config)

/-- Sum the reports up, write them down where that is asked for, and give the exit code. -/
def conclude (options : GenerateOptions) (reports : List TargetReport) : Action Nat := do
  Action.say (summaryLine reports)
  match options.report with
  | some path => Document.write (← Action.resolve (Path.ofText path)) (describe reports)
  | none => pure ()
  return if options.mode.check && reports.any TargetReport.hasDrift then 1 else 0

theorem run_eq (options : GenerateOptions) :
    run options = targetReports options >>= conclude options := by
  unfold targetReports setup
  simp only [bind_assoc, pure_bind]
  rfl

/-- The steps lead from one workspace to another, each from where the one before has ended. -/
def Leads : Workspace → List Step → Workspace → Prop
  | w, [], after => w.SameFiles after
  | w, s :: steps, after => w.SameFiles s.before ∧ ∃ next,
      (generateSource s.job s.source).perform s.before = (.ok (some s.report), next) ∧
        Leads next steps after

namespace Leads

variable {w v u : Workspace} {steps others : List Step}

theorem of_sameFiles (hwv : w.SameFiles v) (h : Leads v steps u) : Leads w steps u := by
  cases steps with
  | nil => exact hwv.trans h
  | cons s steps => exact ⟨hwv.trans h.1, h.2⟩

theorem append (hfirst : Leads w steps v) (hthen : Leads v others u) :
    Leads w (steps ++ others) u := by
  induction steps generalizing w with
  | nil => exact hthen.of_sameFiles hfirst
  | cons s steps ih =>
    obtain ⟨hstart, next, hstep, hrest⟩ := hfirst
    exact ⟨hstart, next, hstep, ih hrest⟩

/-- What leads somewhere leads to each step on the way, and on from there. -/
theorem split {s : Step} (h : Leads w (steps ++ s :: others) u) :
    Leads w steps s.before ∧ ∃ next,
      (generateSource s.job s.source).perform s.before = (.ok (some s.report), next) ∧
        Leads next others u := by
  induction steps generalizing w with
  | nil => exact h
  | cons first steps ih =>
    obtain ⟨hstart, next, hstep, hrest⟩ := h
    obtain ⟨hbefore, hlater⟩ := ih hrest
    exact ⟨⟨hstart, next, hstep, hbefore⟩, hlater⟩

end Leads

section Setup

theorem reads_liftConfig {α : Type} (result : Except Config.Fault α) :
    Reads (liftConfig result) := by
  cases result with
  | error fault => exact .report _
  | ok a => exact .pure a

theorem reads_givenPath (t : Option Text) : Reads (givenPath t) := by
  cases t with
  | none => exact .fatal _
  | some t => exact .pure _

theorem reads_load (p : Path) : Reads (Document.load p) := by
  refine (reads_readTextOr _ p).bind fun t => ?_
  split
  · exact .pure _
  · exact .report _
  · split
    · exact .fatal _
    · exact .fatal _
    · exact .report _

theorem reads_loadConfig (p : Path) : Reads (Document.loadConfig p) :=
  (reads_load p).bind fun _ => reads_liftConfig _

theorem reads_configAt (root : Path) (config : Option Text) : Reads (configAt root config) :=
  (reads_givenPath config).bind fun _ => (reads_resolve _).bind fun _ => reads_loadConfig _

theorem reads_repositoryRoot (root : Text) : Reads (repositoryRoot root) :=
  (reads_resolve _).bind fun _ => (reads_isDirectory _).bind fun _ => .ite (.pure _) (.report _)

theorem isAbsolute_of_repositoryRoot {t : Text} {w : Workspace} {root : Path}
    (h : (repositoryRoot t).perform w = (.ok root, w)) : root.isAbsolute = true := by
  obtain ⟨q, hq, h⟩ := ((reads_resolve _).perform_bind_eq_ok_iff w w root).mp h
  obtain ⟨-, -, rfl⟩ := eq_of_resolve hq
  obtain ⟨isThere, -, h⟩ := ((reads_isDirectory _).perform_bind_eq_ok_iff w w root).mp h
  split_ifs at h
  · cases h
    exact w.tree.isAbsolute_resolve _ _
  · cases h

theorem reads_setup (options : GenerateOptions) : Reads (setup options) :=
  (reads_repositoryRoot _).bind fun _ => (reads_configAt _ _).bind fun _ =>
    (reads_liftConfig _).bind fun _ => .pure _

theorem reads_jobOf (options : GenerateOptions) (root : Path) (config : Members) (name : Text) :
    Reads (jobOf options root config name) :=
  (reads_liftConfig _).bind fun _ => (reads_resolve _).bind fun _ =>
    (reads_resolve _).bind fun _ => .pure _

/-- What is read for a target. -/
theorem jobOf_eq_ok {options : GenerateOptions} {root : Path} {config : Members} {name : Text}
    {w after : Workspace} {j : Job}
    (h : (jobOf options root config name).perform w = (.ok j, after)) :
    j.options = options ∧ j.root = root ∧ j.name = name ∧
      Config.target config name = .ok j.target ∧
      (resolve (root.child j.target.sourceDir)).perform w = (.ok j.sourceRoot, w) ∧
      (resolve (root.child j.target.glueDir)).perform w = (.ok j.glueRoot, w) := by
  unfold jobOf at h
  obtain ⟨target, htarget, h⟩ := ((reads_liftConfig _).perform_bind_eq_ok_iff _ _ _).mp h
  obtain ⟨sourceRoot, hsource, h⟩ := ((reads_resolve _).perform_bind_eq_ok_iff _ _ _).mp h
  obtain ⟨glueRoot, hglue, h⟩ := ((reads_resolve _).perform_bind_eq_ok_iff _ _ _).mp h
  cases h
  refine ⟨rfl, rfl, rfl, ?_, hsource, hglue⟩
  cases hfound : Config.target config name with
  | error fault => rw [hfound] at htarget; cases htarget
  | ok other => rw [hfound] at htarget; cases htarget; rfl

end Setup

/-- A target of a run: its directories are resolved. -/
structure Job.Belongs (j : Job) (options : GenerateOptions) : Prop where
  options_eq : j.options = options
  sourceRoot : j.sourceRoot.IsProper
  glueRoot : j.glueRoot.IsProper

/-- A step of a run: its target is one of the run, and its source file lies below the source
directory of the target. -/
structure Step.Belongs (s : Step) (options : GenerateOptions) : Prop where
  job : s.job.Belongs options
  source : ∃ parts, s.source = s.job.sourceRoot.under ⟨0, parts⟩
  generated : ∃ after,
    (generateSource s.job s.source).perform s.before = (.ok (some s.report), after)

section Members

variable {options : GenerateOptions} {w : Workspace}

/-- A target of a run is taken from the configuration, where the run comes to it. -/
theorem exists_jobOf_of_mem_jobs {s : Job × Workspace} (h : s ∈ jobs options w) :
    ∃ root config name, root.isAbsolute = true ∧
      (jobOf options root config name).perform s.2 = (.ok s.1, s.2) := by
  unfold jobs at h
  split at h
  · cases h
  · next root config names hsetup =>
    obtain ⟨⟨name, v⟩, -, hjob⟩ := List.mem_filterMap.mp h
    obtain ⟨j, hj, rfl⟩ := Option.map_eq_some_iff.mp hjob
    have hperform := (reads_setup options).perform_eq hsetup
    obtain ⟨r, hr, hperform⟩ :=
      ((reads_repositoryRoot _).perform_bind_eq_ok_iff w w _).mp hperform
    obtain ⟨c, -, hperform⟩ := ((reads_configAt _ _).perform_bind_eq_ok_iff w w _).mp hperform
    obtain ⟨n, -, hperform⟩ := ((reads_liftConfig _).perform_bind_eq_ok_iff w w _).mp hperform
    cases hperform
    exact ⟨root, config, name, isAbsolute_of_repositoryRoot hr,
      (reads_jobOf options root config name).perform_eq (eq_ok_of_toOption hj)⟩

theorem belongs_of_mem_jobs {s : Job × Workspace} (h : s ∈ jobs options w) :
    s.1.Belongs options := by
  obtain ⟨root, config, name, hroot, hjob⟩ := exists_jobOf_of_mem_jobs h
  obtain ⟨hoptions, -, -, -, hsource, hglue⟩ := jobOf_eq_ok hjob
  refine ⟨hoptions, ?_, ?_⟩
  · rw [(eq_of_resolve hsource).2.2]
    exact s.2.tree.isProper_resolve _ (Path.isAbsolute_child hroot _)
  · rw [(eq_of_resolve hglue).2.2]
    exact s.2.tree.isProper_resolve _ (Path.isAbsolute_child hroot _)

theorem mem_sourcesOf {j : Job} {path : Path} (h : path ∈ sourcesOf j w) :
    ∃ found, (Sources.find j.sourceRoot j.target.includes j.target.excludes).perform w =
      (.ok found, w) ∧ path ∈ found := by
  unfold sourcesOf at h
  cases hfind : ((Sources.find j.sourceRoot j.target.includes j.target.excludes).perform w).1 with
  | error failure =>
    rw [hfind] at h
    cases h
  | ok found =>
    rw [hfind] at h
    exact ⟨found, (Sources.reads_find _ _ _).perform_eq hfind, h⟩

/-- A step comes from a source file found for a target of the run. -/
theorem exists_of_mem_history {s : Step} (h : s ∈ history options w) :
    (∃ v, (s.job, v) ∈ jobs options w ∧ s.source ∈ sourcesOf s.job v) ∧ ∃ after,
      (generateSource s.job s.source).perform s.before = (.ok (some s.report), after) := by
  obtain ⟨⟨j, v⟩, hjob, hs⟩ := List.mem_flatMap.mp h
  obtain ⟨⟨path, u⟩, hstarted, hstep⟩ := List.mem_filterMap.mp hs
  unfold step? at hstep
  split at hstep
  · next report after hgenerated =>
    cases hstep
    exact ⟨⟨v, hjob, mem_of_mem_started hstarted⟩, after, hgenerated⟩
  · cases hstep

theorem belongs_of_mem_history {s : Step} (h : s ∈ history options w) : s.Belongs options := by
  obtain ⟨⟨v, hjob, hsource⟩, hgenerated⟩ := exists_of_mem_history h
  obtain ⟨found, hfind, hpath⟩ := mem_sourcesOf hsource
  exact ⟨belongs_of_mem_jobs hjob, Sources.exists_of_mem_find hfind hpath, hgenerated⟩

/-- The unit of a step is the one drafted from the texts that are read. -/
theorem Step.unit?_of_draft {s : Step} {after : Workspace} (hw : s.before.tree.LinkFree)
    (hs : s.Belongs options) {d : Draft}
    (hclass : s.report.className = d.className)
    (h : (draft s.job s.source).perform s.before = (.ok (some d), after)) :
    s.unit? = some d.unit := by
  obtain ⟨-, -, -, source, header, hsource, -, hheader, hunit⟩ := draft_eq_some h
  obtain ⟨parts, hparts⟩ := hs.source
  have hpath : s.source.isAbsolute = true := by
    rw [hparts]
    exact Path.isAbsolute_under hs.job.sourceRoot.absolute _
  have hheaderPath : (s.job.headerPath d.className).isAbsolute = true :=
    Path.isAbsolute_child hs.job.glueRoot.absolute _
  obtain ⟨-, -, -, -, hsourceText⟩ := readTextOr_eq_ok hw hpath hsource
  obtain ⟨-, -, -, -, hheaderText⟩ :=
    readTextOr_eq_ok hw hheaderPath (readText_of_headerText hheader)
  unfold unit? Step.header
  rw [hclass, hsourceText, hheaderText]
  simp [hunit, Except.toOption]

/-- Only a name of a header can bring a carriage return into a unit, since files are read without
them. -/
theorem Step.return_notMem_content {s : Step} {u : GlueUnit} (hu : s.unit? = some u)
    (hname : '\r' ∉ s.header.name) : '\r' ∉ u.content := by
  obtain ⟨source, hsource, h⟩ := Option.bind_eq_some_iff.mp hu
  obtain ⟨header, -, h⟩ := Option.bind_eq_some_iff.mp h
  exact GlueUnit.return_notMem_content (Tree.return_notMem_of_text? hsource) hname
    (eq_ok_of_toOption h)

theorem Step.content_ne_nil {s : Step} {u : GlueUnit} (h : s.unit? = some u) : u.content ≠ [] := by
  obtain ⟨source, -, h⟩ := Option.bind_eq_some_iff.mp h
  obtain ⟨header, -, h⟩ := Option.bind_eq_some_iff.mp h
  exact GlueUnit.content_ne_nil (eq_ok_of_toOption h)

end Members

/-- The steps that an action takes lead from where it starts to where it ends, if it ends with a
result or with a message. -/
def Follows {α : Type} (x : Action α) (trace : Workspace → List Step) : Prop :=
  ∀ w after result, x.perform w = (result, after) → HasMessage result → Leads w (trace w) after

namespace Follows

variable {α β γ : Type} {x : Action α} {f : α → Action β} {trace : Workspace → List Step}

theorem bind_of_reads {traces : α → Workspace → List Step} (hx : Reads x)
    (hf : ∀ a w, (x.perform w).1 = .ok a → Follows (f a) (traces a)) :
    Follows (x >>= f) fun w => (x.perform w).1.toOption.toList.flatMap fun a => traces a w := by
  intro w after result h hresult
  rw [perform_bind] at h
  rcases hfirst : x.perform w with ⟨failure | a, between⟩ <;> rw [hfirst] at h <;>
    obtain rfl := hx.after_eq hfirst
  · cases h
    dsimp only
    rw [hfirst]
    exact .refl after
  · have hthen := hf a between (congrArg Prod.fst hfirst) between after result h hresult
    dsimp only
    rw [hfirst]
    simpa only [Except.toOption, Option.toList_some, List.flatMap_singleton] using hthen

theorem bind_of_yields (hx : Follows x trace) (hf : ∀ a w, ∃ b, Yields w (f a) b) :
    Follows (x >>= f) trace := by
  intro w after result h hresult
  rw [perform_bind] at h
  rcases hfirst : x.perform w with ⟨failure | a, between⟩ <;> rw [hfirst] at h
  · cases h
    refine hx w after _ hfirst fun condition heq => hresult condition ?_
    exact congrArg Except.error (Except.error.inj heq)
  · obtain ⟨b, hb⟩ := hf a between
    obtain ⟨last, hlast, hfiles⟩ := hb between (.refl _)
    dsimp only at h
    rw [hlast] at h
    cases h
    have hleads : Leads w (trace w ++ []) after :=
      (hx w between _ hfirst fun _ heq => nomatch heq).append hfiles
    rwa [List.append_nil] at hleads

theorem traverse {step : α → Action β} {gather : β → List γ → List γ}
    {traces : α → Workspace → List Step} (hstep : ∀ a, Follows (step a) (traces a))
    (as : List α) :
    Follows (Action.traverse step gather as) fun w =>
      (started step as w).flatMap fun s => traces s.1 s.2 := by
  intro w after result h hresult
  exact traverse_relates step gather Leads Workspace.SameFiles.refl
    (fun hfirst hthen => hfirst.append hthen) _
    (fun a v result last => hstep a v last result) as w after result h hresult

end Follows

section Run

variable {options : GenerateOptions}

/-- A source file leads from the workspace before it to the one after it. -/
theorem follows_generateSource {j : Job} (hcommand : j.options.runHeaderCommand = false)
    (path : Path) : Follows (generateSource j path) fun w => (step? j path w).toList := by
  intro w after result h hresult
  unfold step?
  dsimp only
  rw [h]
  rcases result with (failure | condition) | _ | report
  · exact reportsFirst_generateSource hcommand path w failure after h ▸ .refl w
  · exact absurd rfl (hresult condition)
  · rcases generateSource_eq_ok hcommand h with ⟨-, rfl, -⟩ | ⟨d, r, hresult, -⟩
    · exact .refl after
    · cases hresult
  · exact ⟨.refl w, after, h, .refl after⟩

theorem stepsOf_eq (j : Job) (w : Workspace) :
    stepsOf j w =
      ((Sources.find j.sourceRoot j.target.includes j.target.excludes).perform
        w).1.toOption.toList.flatMap fun sources =>
          (started (generateSource j) sources w).flatMap fun s => (step? j s.1 s.2).toList := by
  unfold stepsOf sourcesOf
  rw [List.filterMap_eq_flatMap_toList]
  cases ((Sources.find j.sourceRoot j.target.includes j.target.excludes).perform w).1 with
  | error failure => rfl
  | ok sources => exact (List.flatMap_singleton _ _).symm

theorem generateTarget_eq (hcommand : options.runHeaderCommand = false) (root : Path)
    (config : Members) (name : Text) :
    generateTarget options root config name = do
      let j ← jobOf options root config name
      let files ← Sources.find j.sourceRoot j.target.includes j.target.excludes >>= fun sources =>
        traverse (generateSource j) (fun b bs => b.toList ++ bs) sources
      if files.isEmpty then
        Action.say (j.titleLine "no Java sources with native methods found".toList)
      return ⟨name, files⟩ := by
  unfold generateTarget
  simp only [hcommand, Bool.false_and, Bool.false_eq_true, if_false, filterMapM_eq_traverse,
    bind_assoc]

/-- What a target that is reported on was made of. -/
theorem generateTarget_eq_ok (hcommand : options.runHeaderCommand = false) {root : Path}
    {config : Members} {name : Text} {w after : Workspace} {r : TargetReport}
    (h : (generateTarget options root config name).perform w = (.ok r, after)) :
    ∃ j sources files between, (jobOf options root config name).perform w = (.ok j, w) ∧
      (Sources.find j.sourceRoot j.target.includes j.target.excludes).perform w =
        (.ok sources, w) ∧
      (traverse (generateSource j) (fun b bs => b.toList ++ bs) sources).perform w =
        (.ok files, between) ∧ r = ⟨name, files⟩ := by
  rw [generateTarget_eq hcommand] at h
  obtain ⟨j, hjob, h⟩ := ((reads_jobOf _ _ _ _).perform_bind_eq_ok_iff _ _ _).mp h
  obtain ⟨files, between, hfiles, h⟩ := (perform_bind_eq_ok_iff _ _ _ _ _).mp h
  obtain ⟨sources, hfind, hfiles⟩ :=
    ((Sources.reads_find _ _ _).perform_bind_eq_ok_iff _ _ _).mp hfiles
  refine ⟨j, sources, files, between, hjob, hfind, hfiles, ?_⟩
  dsimp only at h
  split_ifs at h
  · obtain ⟨⟨⟩, last, -, h⟩ := (perform_bind_eq_ok_iff _ _ between after r).mp h
    cases h
    rfl
  · cases h
    rfl

theorem follows_generateTarget (hcommand : options.runHeaderCommand = false) (root : Path)
    (config : Members) (name : Text) :
    Follows (generateTarget options root config name) fun w =>
      ((jobOf options root config name).perform w).1.toOption.toList.flatMap fun j =>
        stepsOf j w := by
  rw [generateTarget_eq hcommand]
  refine .bind_of_reads (reads_jobOf _ _ _ _) fun j w hjob => .bind_of_yields ?_ fun files v => ?_
  · have hoptions : j.options = options :=
      (jobOf_eq_ok ((reads_jobOf _ _ _ _).perform_eq hjob)).1
    rw [funext (stepsOf_eq j)]
    refine .bind_of_reads (Sources.reads_find _ _ _) fun sources _ _ => ?_
    exact .traverse (fun path => follows_generateSource (hoptions ▸ hcommand) path) sources
  · split_ifs
    · exact ⟨_, (Yields.say v _).bind (.pure v _)⟩
    · exact ⟨_, .pure v _⟩

theorem history_eq (options : GenerateOptions) (w : Workspace) :
    history options w = ((setup options).perform w).1.toOption.toList.flatMap fun found =>
      (started (generateTarget options found.1 found.2.1) found.2.2 w).flatMap fun s =>
        ((jobOf options found.1 found.2.1 s.1).perform s.2).1.toOption.toList.flatMap fun j =>
          stepsOf j s.2 := by
  unfold history jobs
  cases ((setup options).perform w).1 with
  | error failure => rfl
  | ok found =>
    simp only [Except.toOption, Option.toList_some, List.flatMap_singleton,
      List.filterMap_eq_flatMap_toList, List.flatMap_assoc]
    refine List.flatMap_congr fun s _ => ?_
    cases ((jobOf options found.1 found.2.1 s.1).perform s.2).1 with
    | error failure => rfl
    | ok j => rfl

/-- A run takes the steps of its history. -/
theorem follows_targetReports (hcommand : options.runHeaderCommand = false) :
    Follows (targetReports options) (history options) := by
  have hhistory : history options = fun w => history options w := rfl
  rw [hhistory]
  simp only [history_eq]
  refine .bind_of_reads (reads_setup options) fun found _ _ => ?_
  dsimp only
  rw [mapM_eq_traverse]
  exact .traverse (follows_generateTarget hcommand _ _) _

theorem neverReports_conclude (options : GenerateOptions) (reports : List TargetReport) :
    NeverReports (conclude options reports) := by
  refine (neverReports_say _).bind fun _ => ?_
  cases options.report with
  | none => exact .pure _
  | some path =>
    exact (neverReports_resolve _).bind fun _ => (neverReports_writeText _ _).bind fun _ => .pure _

/-- Without a report file the exit code is all that is left to do. -/
theorem yields_conclude (hreport : options.report = none) (w : Workspace)
    (reports : List TargetReport) :
    Yields w (conclude options reports)
      (if options.mode.check && reports.any TargetReport.hasDrift then 1 else 0) := by
  unfold conclude
  rw [hreport]
  exact (Yields.say w _).bind (.pure w _)

/-- A run that fails with a message ends where the steps before the failure lead. -/
theorem leads_of_run_reported (hcommand : options.runHeaderCommand = false)
    {w after : Workspace} {failure : Reported}
    (h : (run options).perform w = (.error (.reported failure), after)) :
    Leads w (history options w) after := by
  rw [run_eq, perform_bind_eq_error_iff] at h
  rcases h with hreports | ⟨reports, between, -, hconclude⟩
  · refine follows_targetReports hcommand w after _ hreports fun condition heq => ?_
    cases heq
  · exact absurd hconclude (neverReports_conclude options reports between failure after)

end Run

section Setup

variable {options : GenerateOptions} {w : Workspace} {root : Path} {config : Members}
  {names : List Text}

theorem jobs_of_setup (h : (setup options).perform w = (.ok (root, config, names), w)) :
    jobs options w =
      (started (generateTarget options root config) names w).filterMap fun s =>
        ((jobOf options root config s.1).perform s.2).1.toOption.map fun j => (j, s.2) := by
  unfold jobs
  rw [h]

theorem targetReports_of_setup (h : (setup options).perform w = (.ok (root, config, names), w)) :
    (targetReports options).perform w =
      (names.mapM (generateTarget options root config)).perform w := by
  rw [targetReports, perform_bind_of_ok _ h]

theorem run_of_setup (h : (setup options).perform w = (.ok (root, config, names), w)) :
    (run options).perform w =
      (names.mapM (generateTarget options root config) >>= conclude options).perform w := by
  rw [run_eq, targetReports, bind_assoc, perform_bind_of_ok _ h]

end Setup

/-- Without a selection a run goes through all targets, here named in their order. -/
theorem setup_eq_ok {options : GenerateOptions} {w : Workspace} {root : Path} {config : Members}
    {names : List Text} (hroot : (repositoryRoot options.root).perform w = (.ok root, w))
    (hconfig : (configAt root options.config).perform w = (.ok config, w))
    (htarget : options.target = none)
    (hnames : (Config.targets config).toOption.map Json.Value.names = some names)
    (hsorted : names.Pairwise fun a b => Text.le a b = true) :
    (setup options).perform w = (.ok (root, config, names), w) := by
  obtain ⟨found, hfound, rfl⟩ := Option.map_eq_some_iff.mp hnames
  have hselected : Config.selectTargets config options.target = .ok (Json.Value.names found) := by
    rw [htarget, Config.selectTargets, eq_ok_of_toOption hfound]
    exact congrArg Except.ok (List.mergeSort_of_pairwise hsorted)
  unfold setup
  rw [perform_bind_of_ok _ hroot, perform_bind_of_ok _ hconfig, hselected]
  rfl

section Sample

/-- A workspace with a configuration, one source file and a directory of headers and units. -/
def sampleWorkspace (config source : Text) (glue : List (Text × Text)) : Workspace :=
  let textFile (t : Text) : Tree := .file (encode t)
  .ofTree (.directory
    [("c".toList, textFile config),
      ("s".toList, .directory [("A.java".toList, textFile source)]),
      ("j".toList, .directory (glue.map fun e => (e.1, textFile e.2)))])

/-- Generate the units of all targets of the configuration `c`. -/
def plainOptions : GenerateOptions := ⟨['.'], some ['c'], none, false, ⟨false, false⟩, false, none⟩

theorem text?_sampleWorkspace {config source : Text} {glue : List (Text × Text)}
    (h : '\r' ∉ config) :
    (sampleWorkspace config source glue).tree.text? [['c']] = some config := by
  have htext : (sampleWorkspace config source glue).tree.text? [['c']] =
      some (unifyLineEnds config) := Tree.text?_of_leaf?_eq_file rfl
  rwa [unifyLineEnds_eq_self config h] at htext

/-- At the top of a tree without links, paths are resolved as in an empty tree. -/
theorem perform_resolve_sample {w : Workspace} (hlinks : w.tree.LinkFree)
    (hdirectory : w.directory = []) {p : Path} (hp : p.isWritable = true) :
    (resolve p).perform w = (.ok (Tree.empty.resolve [] p), w) := by
  refine (resolve_eq_ok_iff hlinks _ _).mpr ⟨rfl, hp, ?_⟩
  rw [hdirectory]
  exact Tree.IsSingle.empty.linkFree.resolve_eq hlinks [] p

theorem perform_repositoryRoot_sample {w : Workspace} (hlinks : w.tree.LinkFree)
    (hdirectory : w.directory = []) (htree : w.tree.isDirectory = true) :
    (repositoryRoot ['.']).perform w = (.ok ⟨1, []⟩, w) := by
  have htop : (isDirectory ⟨1, []⟩).perform w = (.ok true, w) := by
    rw [Sources.perform_isDirectory hlinks ⟨by decide, by decide⟩ (by decide)
      ⟨by decide, by decide⟩]
    exact congrArg (fun isThere => (Except.ok isThere, w)) htree
  have hcurrent : Tree.empty.resolve [] (Path.ofText ['.']) = ⟨1, []⟩ := by decide
  rw [repositoryRoot, perform_bind_of_ok _ (perform_resolve_sample hlinks hdirectory (by decide)),
    hcurrent, perform_bind_of_ok _ htop]
  rfl

theorem perform_resolve_config_sample {w : Workspace} (hlinks : w.tree.LinkFree)
    (hdirectory : w.directory = []) :
    (resolve (Path.under ⟨1, []⟩ (Path.ofText ['c']))).perform w = (.ok ⟨1, [['c']]⟩, w) := by
  have hplace : Tree.empty.resolve [] (Path.under ⟨1, []⟩ (Path.ofText ['c'])) = ⟨1, [['c']]⟩ := by
    decide
  rw [perform_resolve_sample hlinks hdirectory (by decide), hplace]

/-- The configuration `c` of the working directory is read as it was written. -/
theorem perform_setup_sample {options : GenerateOptions} {w : Workspace} {config : Text}
    {members : Members} {names : List Text} (hlinks : w.tree.LinkFree)
    (hdirectory : w.directory = []) (htree : w.tree.isDirectory = true)
    (hroot : options.root = ['.']) (hfile : options.config = some ['c'])
    (htarget : options.target = none) (htext : w.tree.text? [['c']] = some config)
    (hparse : Json.parse config = .ok (.obj members))
    (hcheck : Config.check (.obj members) = .ok members)
    (hnames : (Config.targets members).toOption.map Json.Value.names = some names)
    (hsorted : names.Pairwise fun a b => Text.le a b = true) :
    (setup options).perform w = (.ok (⟨1, []⟩, members, names), w) := by
  have hread := (readTextOr_eq_ok_iff (p := ⟨1, [['c']]⟩) hlinks ⟨by decide, by decide⟩
    (.unreadableJson (Path.text ⟨1, [['c']]⟩)) config w).mpr
    ⟨rfl, by decide, ⟨by decide, by decide⟩, htext⟩
  have hload : (Document.load ⟨1, [['c']]⟩).perform w = (.ok members, w) := by
    unfold Document.load
    rw [perform_bind_of_ok _ hread, hparse]
    rfl
  refine setup_eq_ok ?_ ?_ htarget hnames hsorted
  · exact hroot ▸ perform_repositoryRoot_sample hlinks hdirectory htree
  · rw [hfile, configAt, givenPath, pure_bind,
      perform_bind_of_ok _ (perform_resolve_config_sample hlinks hdirectory), Document.loadConfig,
      perform_bind_of_ok _ hload, hcheck]
    rfl

end Sample

end NativeGlue.Generate
