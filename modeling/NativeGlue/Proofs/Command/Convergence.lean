import NativeGlue.Proofs.Command.Modes

/-!
Runs that come again in the tree that a run has left. Each output shows its unit then, since what is
written reads back as it was written, and nothing that was written is read. So all files are
unchanged the second time, whatever the mode.
-/

namespace NativeGlue.Generate

open Text NativeGlue.Action Command

variable {options : GenerateOptions} {mode : WriteMode} {w x after : Workspace} {root : Path}
  {config : Members} {names : List Text} {reports : List TargetReport}

/-- Where the configuration of a run lies. -/
def configPath (options : GenerateOptions) : Action Path := do
  let root ← repositoryRoot options.root
  Action.resolve (root.under (← Action.givenPath options.config))

section Setup

theorem load_congr {p : Path} {members : Members} (hw : w.tree.LinkFree) (hx : x.tree.LinkFree)
    (hp : p.IsProper) (htext : x.tree.text? p.parts = w.tree.text? p.parts)
    (h : (Document.load p).perform w = (.ok members, w)) :
    (Document.load p).perform x = (.ok members, x) := by
  unfold Document.load at h ⊢
  obtain ⟨t, ht, h⟩ := ((reads_readTextOr _ p).perform_bind_eq_ok_iff w w members).mp h
  rw [perform_bind_of_ok _ (readTextOr_congr hw hx hp htext ht)]
  cases hparse : Json.parse t with
  | error stop =>
    simp only [hparse] at h
    split at h <;> cases h
  | ok v =>
    cases v with
    | obj others =>
      simp only [hparse] at h ⊢
      cases h
      rfl
    | _ =>
      simp only [hparse] at h
      cases h

theorem liftConfig_congr {α : Type} {result : Except Config.Fault α} {a : α}
    (h : (liftConfig result).perform w = (.ok a, w)) :
    (liftConfig result).perform x = (.ok a, x) := by
  cases result with
  | error fault => cases h
  | ok b =>
    cases h
    rfl

theorem repositoryRoot_congr {given : Text} (hw : w.tree.LinkFree) (hx : x.tree.LinkFree)
    (hdirectory : x.directory = w.directory)
    (hdirectories : ∀ place, w.tree.HasDirectory place → x.tree.HasDirectory place)
    (h : (repositoryRoot given).perform w = (.ok root, w)) :
    (repositoryRoot given).perform x = (.ok root, x) := by
  unfold repositoryRoot at h ⊢
  obtain ⟨q, hq, h⟩ := ((reads_resolve _).perform_bind_eq_ok_iff w w root).mp h
  obtain ⟨isThere, hthere, h⟩ := ((reads_isDirectory _).perform_bind_eq_ok_iff w w root).mp h
  cases isThere with
  | false => cases h
  | true =>
    cases h
    rw [perform_bind_of_ok _ (resolve_congr hw hx hdirectory hq),
      perform_bind_of_ok _ (isDirectory_mono hw hx hdirectory hdirectories hthere)]
    rfl

theorem configAt_congr {given : Option Text} {members : Members} (hw : w.tree.LinkFree)
    (hx : x.tree.LinkFree) (hroot : root.isAbsolute = true) (hdirectory : x.directory = w.directory)
    (hconfig : ∀ t p, given = some t → (resolve (root.under (.ofText t))).perform w = (.ok p, w) →
      x.tree.text? p.parts = w.tree.text? p.parts)
    (h : (configAt root given).perform w = (.ok members, w)) :
    (configAt root given).perform x = (.ok members, x) := by
  unfold configAt at h ⊢
  cases given with
  | none => cases h
  | some t =>
    rw [givenPath, pure_bind] at h ⊢
    obtain ⟨p, hp, hload⟩ := ((reads_resolve _).perform_bind_eq_ok_iff w w members).mp h
    obtain ⟨raw, hraw, hcheck⟩ := ((reads_load p).perform_bind_eq_ok_iff w w members).mp hload
    have hproper : p.IsProper := by
      rw [(eq_of_resolve hp).2.2]
      exact w.tree.isProper_resolve _ (Path.isAbsolute_under hroot _)
    rw [perform_bind_of_ok _ (resolve_congr hw hx hdirectory hp), Document.loadConfig,
      perform_bind_of_ok _ (load_congr hw hx hproper (hconfig t p rfl hp) hraw)]
    exact liftConfig_congr hcheck

/-- A tree that has kept its directories and its configuration sets a run up alike. -/
theorem setup_congr {found : Path × Members × List Text} (hw : w.tree.LinkFree)
    (hx : x.tree.LinkFree) (hdirectory : x.directory = w.directory)
    (hdirectories : ∀ place, w.tree.HasDirectory place → x.tree.HasDirectory place)
    (hconfig : ∀ p, (configPath options).perform w = (.ok p, w) →
      x.tree.text? p.parts = w.tree.text? p.parts)
    (h : (setup options).perform w = (.ok found, w)) :
    (setup options).perform x = (.ok found, x) := by
  unfold setup at h
  obtain ⟨root, hroot, h⟩ := ((reads_repositoryRoot _).perform_bind_eq_ok_iff w w found).mp h
  obtain ⟨members, hmembers, h⟩ := ((reads_configAt _ _).perform_bind_eq_ok_iff w w found).mp h
  obtain ⟨names, hnames, h⟩ := ((reads_liftConfig _).perform_bind_eq_ok_iff w w found).mp h
  cases h
  have hplace (t : Text) (p : Path) (hgiven : options.config = some t)
      (hp : (resolve (root.under (.ofText t))).perform w = (.ok p, w)) :
      x.tree.text? p.parts = w.tree.text? p.parts := by
    refine hconfig p ?_
    rw [configPath, perform_bind_of_ok _ hroot, hgiven, givenPath, pure_bind]
    exact hp
  have hroot' := repositoryRoot_congr hw hx hdirectory hdirectories hroot
  have hmembers' := configAt_congr hw hx (isAbsolute_of_repositoryRoot hroot) hdirectory hplace
    hmembers
  rw [setup, perform_bind_of_ok _ hroot', perform_bind_of_ok _ hmembers',
    perform_bind_of_ok _ (liftConfig_congr hnames)]
  rfl

end Setup

/-- What a run finds again where it has been: steps with the same output make the same unit, no
header has a carriage return in its name, and the configuration is not written. -/
structure ComesAgain (options : GenerateOptions) (w : Workspace) : Prop where
  output : ∀ s ∈ history options w, ∀ t ∈ history options w,
    s.output.parts = t.output.parts → s.source = t.source ∧ s.header = t.header
  header : ∀ s ∈ history options w, '\r' ∉ s.header.name
  config : ∀ p, (configPath options).perform w = (.ok p, w) →
    ¬ Writes (history options w) p.parts

/-- How a file is reported that was brought to its unit before. -/
def FileReport.settled (f : FileReport) : FileReport := { f with status := .unchanged }

namespace Finishes

/-- A file that shows a text keeps it while nothing else is written to it. -/
theorem text?_of_later (h : Finishes options w root config names reports after)
    {before later : List Step} {v : Workspace} {place : Location} {t : Text}
    (hhistory : history options w = before ++ later) (hleads : Leads v later after)
    (htext : v.tree.text? place = some t)
    (hsame : ∀ s ∈ later, s.output.parts = place → ∀ u, s.unit? = some u →
      unifyLineEnds u.content = t) : after.tree.text? place = some t := by
  induction later generalizing before v with
  | nil => rwa [hleads.tree]
  | cons s later ih =>
    obtain ⟨hstart, -⟩ := hleads
    obtain ⟨-, d, old, next, houtcome, hlater⟩ := h.exists_outcome hhistory
    have hsplit : history options w = (before ++ [s]) ++ later := by
      rw [hhistory, List.append_assoc, List.singleton_append]
    refine ih hsplit hlater ?_ fun t ht => hsame t (List.mem_cons_of_mem s ht)
    by_cases hplace : s.output.parts = place
    · rw [← hplace, houtcome.contents]
      exact congrArg some (hsame s List.mem_cons_self hplace d.unit houtcome.unit_eq)
    · rw [Tree.text?_eq_of_leaf? (houtcome.grows.leaves place (Ne.symm hplace)), hstart.tree]
      exact htext

/-- In the end each output shows its unit. -/
theorem text?_output (h : Finishes options w root config names reports after)
    (hagain : ComesAgain options w) {s : Step} (hs : s ∈ history options w) {u : GlueUnit}
    (hu : s.unit? = some u) : after.tree.text? s.output.parts = some u.content := by
  obtain ⟨before, later, hhistory⟩ := List.append_of_mem hs
  obtain ⟨-, d, old, next, houtcome, hlater⟩ := h.exists_outcome hhistory
  have hunit : d.unit = u := Option.some.inj (houtcome.unit_eq.symm.trans hu)
  have hkept := unifyLineEnds_eq_self _ (Step.return_notMem_content hu (hagain.header s hs))
  have htext := houtcome.contents
  rw [hunit, hkept] at htext
  have hsplit : history options w = (before ++ [s]) ++ later := by
    rw [hhistory, List.append_assoc, List.singleton_append]
  refine h.text?_of_later hsplit hlater htext fun t ht hplace v hv => ?_
  have ht' : t ∈ history options w :=
    hhistory ▸ List.mem_append_right _ (List.mem_cons_of_mem s ht)
  obtain ⟨hsource, hheader⟩ := hagain.output t ht' s hs hplace
  rw [h.unit?_eq ht', hsource, hheader, ← h.unit?_eq hs, hu, Option.some.injEq] at hv
  rw [← hv, hkept]

/-- A run that does not write its configuration sets up as before where it has ended. -/
theorem setup_end (h : Finishes options w root config names reports after)
    (hconfig : ∀ p, (configPath options).perform w = (.ok p, w) →
      ¬ Writes (history options w) p.parts) :
    (Generate.setup options).perform after = (.ok (root, config, names), after) := by
  obtain ⟨hdirectory, hgrows⟩ := h.grows h.leads fun s hs => hs
  have hlinks := h.regular.linkFree
  exact setup_congr hlinks (hgrows.linkFree hlinks) hdirectory hgrows.directories
    (fun p hp => Tree.text?_eq_of_leaf? (hgrows.leaves p.parts (hconfig p hp))) h.setup

/-- A run can come again, in every mode, where it has ended. -/
theorem reseen_end (h : Finishes options w root config names reports after)
    (hagain : ComesAgain options w) : Reseen options w mode FileReport.settled after := by
  obtain ⟨hdirectory, hgrows⟩ := h.grows h.leads fun s hs => hs
  refine ⟨hdirectory, hgrows.regular h.regular, hgrows.leaves, fun s hs hlistable => ?_,
    fun s hs d old next houtcome => ?_⟩
  · obtain ⟨before, later, hbefore, hlater, hhistory⟩ := h.exists_of_mem_jobs hs
    obtain ⟨-, hfirst⟩ := h.grows hbefore fun u hu => hhistory ▸ List.mem_append_left _ hu
    have hregular := hfirst.regular h.regular
    have hsubset : ∀ u ∈ later, u ∈ history options w := fun u hu =>
      hhistory ▸ List.mem_append_right _ hu
    obtain ⟨-, hrest⟩ :=
      hlater.grows hregular h.command h.mode (h.apart.areProper.of_subset hsubset)
    refine hlistable.mono hrest ?_ ?_
    · obtain ⟨_, _, _, -, hjob⟩ := exists_jobOf_of_mem_jobs hs
      obtain ⟨-, -, -, -, hsource, -⟩ := jobOf_eq_ok hjob
      rw [(eq_of_resolve hsource).2.2]
      exact hregular.linkFree.slashes_resolve _ _
    · rintro place ⟨u, hu, rfl⟩
      obtain ⟨earlier, others, hsplit⟩ := List.append_of_mem (hsubset u hu)
      obtain ⟨-, _, _, _, houtcome, -⟩ := h.exists_outcome hsplit
      exact ⟨u.output, rfl, (h.apart.areProper.output u (hsubset u hu)).absolute, houtcome.short⟩
  · refine ⟨d.unit.content, .inl (h.text?_output hagain hs houtcome.unit_eq), .inl rfl, ?_⟩
    rw [Artifact.verdict, if_pos rfl]
    rfl

end Finishes

/-- After a plain run in a regular tree that reads nothing that it writes, and finds again what it
has found, a run in any mode reports on the same files that all are unchanged. It changes nothing
and succeeds. -/
theorem run_again_of_run {code : Nat} (hplain : IsPlain options) (hw : w.tree.Regular)
    (hapart : KeepsApart options w) (hagain : ComesAgain options w)
    (h : (run options).perform w = (.ok code, after)) :
    ∃ reports between, (targetReports options).perform w = (.ok reports, between) ∧
      ∀ mode x, after.SameFiles x → ∃ middle last,
        (targetReports (inMode options mode)).perform x =
          (.ok (reports.map (TargetReport.mapFiles FileReport.settled)), middle) ∧
        (run (inMode options mode)).perform x = (.ok 0, last) ∧ x.SameFiles last := by
  obtain ⟨root, config, names, reports, between, hfinishes, hreports, hfiles, rfl⟩ :=
    exists_finishes hplain hw hapart h
  refine ⟨reports, between, hreports, fun mode x hx => ?_⟩
  have hsetup := hfinishes.setup_end hagain.config
  have hreseen : Reseen options w mode FileReport.settled between := hfinishes.reseen_end hagain
  have hyields := hfinishes.yields_targetReports hreseen hsetup
  have hreport : (inMode options mode).report = none := hplain.report
  have hrun := hyields.bind (yields_conclude hreport between _)
  have hnoDrift : (reports.map (TargetReport.mapFiles FileReport.settled)).any
      TargetReport.hasDrift = false := by
    rw [← Bool.not_eq_true, any_hasDrift_iff, filesOf_map]
    rintro ⟨f, hf, hdrifted⟩
    obtain ⟨g, -, rfl⟩ := List.mem_map.mp hf
    cases hdrifted
  rw [← run_eq, hnoDrift, Bool.and_false] at hrun
  have hsame := hfiles.trans hx
  obtain ⟨middle, hmiddle, -⟩ := hyields x hsame
  obtain ⟨last, hlast, hkept⟩ := hrun x hsame
  exact ⟨middle, last, hmiddle, hlast, hsame.symm.trans hkept⟩

section Sample

/-- A run whose outputs lie below `j` does not write the configuration `c`. -/
theorem config_of_sample {w : Workspace} (hlinks : w.tree.LinkFree) (hdirectory : w.directory = [])
    (htree : w.tree.isDirectory = true)
    (houtputs : ∀ s ∈ history plainOptions w, s.output.parts = [['j'], "A.cpp".toList]) :
    ∀ p, (configPath plainOptions).perform w = (.ok p, w) →
      ¬ Writes (history plainOptions w) p.parts := by
  have hplace : (configPath plainOptions).perform w = (.ok ⟨1, [['c']]⟩, w) := by
    have hroot : (repositoryRoot plainOptions.root).perform w = _ :=
      perform_repositoryRoot_sample hlinks hdirectory htree
    rw [configPath, perform_bind_of_ok _ hroot]
    exact perform_resolve_config_sample hlinks hdirectory
  rintro p hp ⟨s, hs, hwritten⟩
  rw [hplace] at hp
  cases hp
  rw [houtputs s hs] at hwritten
  revert hwritten
  decide

theorem Checked.comesAgain_missing : ComesAgain plainOptions Checked.missing := by
  obtain ⟨s, u, hhistory, houtput, hheader, -⟩ := Checked.processes_missing.exists_step
  refine ⟨fun a ha b hb _ => ?_, fun a ha => ?_,
    config_of_sample Checked.regular_missing.linkFree rfl rfl ?_⟩
  · rw [hhistory] at ha hb
    rw [List.mem_singleton.mp ha, List.mem_singleton.mp hb]
    exact ⟨rfl, rfl⟩
  · rw [hhistory] at ha
    rw [List.mem_singleton.mp ha, Path.name, hheader]
    decide
  · rw [hhistory]
    exact fun a ha => List.mem_singleton.mp ha ▸ houtput

/-- A missing unit is there when the run comes again. -/
theorem missing_unit_settled : ∃ after reports between middle last,
    (run plainOptions).perform Checked.missing = (.ok 0, after) ∧
      (targetReports plainOptions).perform Checked.missing = (.ok reports, between) ∧
      (targetReports plainOptions).perform after =
        (.ok (reports.map (TargetReport.mapFiles FileReport.settled)), middle) ∧
      (run (inMode plainOptions ⟨false, true⟩)).perform after = (.ok 0, last) ∧
      after.SameFiles last := by
  obtain ⟨after, hrun⟩ := Checked.processes_missing.exists_perform
  obtain ⟨reports, between, hreports, hagain⟩ := run_again_of_run ⟨rfl, rfl, rfl⟩
    Checked.regular_missing (Checked.keepsApart Checked.processes_missing)
    Checked.comesAgain_missing hrun
  obtain ⟨middle, -, hplain, -⟩ := hagain ⟨false, false⟩ after (.refl after)
  obtain ⟨-, last, -, hcheck, hfiles⟩ := hagain ⟨false, true⟩ after (.refl after)
  exact ⟨after, reports, between, middle, last, hrun, hreports, hplain, hcheck, hfiles⟩

namespace Overlapping

theorem places {s : Step} (hs : s ∈ history plainOptions workspace) :
    s.output.parts = [['j'], "A.cpp".toList] ∧ '\r' ∉ s.header.name := by
  have hall : ∀ e ∈ seen, e.2.1 = [['j'], "A.cpp".toList] ∧ '\r' ∉ e.2.2.1.getLast?.getD [] := by
    decide
  exact hall _ (processes_workspace.seen_mem hs)

/-- The workspace after a run. -/
def left : Workspace :=
  (([['a'], ['b']].mapM (generateTarget plainOptions ⟨1, []⟩ members) >>=
    conclude plainOptions).perform workspace).2

theorem perform_run_eq : (run plainOptions).perform workspace = (.ok 0, left) := by
  refine Prod.ext processes_workspace.succeeds ?_
  rw [run_of_setup perform_setup]
  rfl

theorem perform_setup_left : (setup plainOptions).perform left =
    (.ok (⟨1, []⟩, members, [['a'], ['b']]), left) := by
  obtain ⟨root, config, names, reports, between, hfinishes, -, hfiles, -⟩ :=
    exists_finishes ⟨rfl, rfl, rfl⟩ regular_workspace keepsApart perform_run_eq
  have hsetup := hfinishes.setup_end (config_of_sample regular_workspace.linkFree rfl rfl
    fun s hs => (places hs).1)
  have hstart := hfinishes.setup
  rw [perform_setup] at hstart
  cases hstart
  exact (reads_setup plainOptions).transfer hfiles hsetup

set_option maxRecDepth 10000 in
theorem perform_again : ((targetReports plainOptions).perform left).1.toOption.map
    (fun reports => (filesOf reports).map (·.status)) = some [.updated, .updated] := by
  rw [targetReports_of_setup perform_setup_left]
  decide +kernel

end Overlapping

/-- Targets that write one output with other headers write it anew whenever they come again. -/
theorem shared_output_never_settles : ∃ options w after reports between, IsPlain options ∧
    w.tree.Regular ∧ KeepsApart options w ∧
    (∀ s ∈ history options w, ∀ t ∈ history options w,
      s.output.parts = t.output.parts → s.source = t.source) ∧
    (∀ s ∈ history options w, '\r' ∉ s.header.name) ∧
    (∀ p, (configPath options).perform w = (.ok p, w) → ¬ Writes (history options w) p.parts) ∧
    (run options).perform w = (.ok 0, after) ∧
    (targetReports options).perform after = (.ok reports, between) ∧
    (filesOf reports).map (·.status) = [.updated, .updated] := by
  obtain ⟨reports, hreports, hstatuses⟩ := Option.map_eq_some_iff.mp Overlapping.perform_again
  obtain ⟨between, hreports⟩ := exists_perform_eq (eq_ok_of_toOption hreports)
  refine ⟨plainOptions, Overlapping.workspace, Overlapping.left, reports, between, ⟨rfl, rfl, rfl⟩,
    Overlapping.regular_workspace, Overlapping.keepsApart,
    fun s hs t ht _ => (Overlapping.source_eq hs).trans (Overlapping.source_eq ht).symm,
    fun s hs => (Overlapping.places hs).2,
    config_of_sample Overlapping.regular_workspace.linkFree rfl rfl
      fun s hs => (Overlapping.places hs).1,
    Overlapping.perform_run_eq, hreports, hstatuses⟩

end Sample

end NativeGlue.Generate
