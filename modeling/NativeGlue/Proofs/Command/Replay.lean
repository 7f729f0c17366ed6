import NativeGlue.Proofs.Command.Progress

/-!
Runs that come again upon what a run has read. In a workspace that shows the same sources, headers
and configuration, a run in another mode reports the same on every file but for its status; it
changes nothing where each output shows its unit already or the mode keeps it from writing.
-/

namespace NativeGlue.Generate

open Text NativeGlue.Action Command

def inMode (options : GenerateOptions) (mode : WriteMode) : GenerateOptions :=
  { options with mode := mode }

def Job.inMode (j : Job) (mode : WriteMode) : Job :=
  { j with options := Generate.inMode j.options mode }

def TargetReport.mapFiles (shown : FileReport → FileReport) (r : TargetReport) : TargetReport :=
  { r with files := r.files.map shown }

variable {options : GenerateOptions} {mode : WriteMode} {w v x after : Workspace} {root : Path}
  {config : Members} {names : List Text} {reports : List TargetReport} {j : Job}
  {shown : FileReport → FileReport}

theorem perform_jobOf_inMode {name : Text} (hv : v.tree.LinkFree) (hx : x.tree.LinkFree)
    (hdirectory : x.directory = v.directory)
    (h : (jobOf options root config name).perform v = (.ok j, v)) :
    (jobOf (inMode options mode) root config name).perform x = (.ok (j.inMode mode), x) := by
  obtain ⟨hoptions, hroot, hname, htarget, hsource, hglue⟩ := jobOf_eq_ok h
  unfold jobOf
  rw [htarget, liftConfig, pure_bind,
    perform_bind_of_ok _ (resolve_congr hv hx hdirectory hsource),
    perform_bind_of_ok _ (resolve_congr hv hx hdirectory hglue)]
  subst hoptions hroot hname
  rfl

/-- A step comes out again with the status that the output now calls for. -/
theorem Step.Outcome.yields {s : Step} {d : Draft} {old current : Text} (h : s.Outcome d old after)
    (hcommand : s.job.options.runHeaderCommand = false) (hw : s.before.tree.LinkFree)
    (hx : x.tree.LinkFree) (hdirectory : x.directory = s.before.directory)
    (hsource : s.source.IsProper) (houtput : s.output.IsProper) (hheader : s.header.IsProper)
    (hsourceText : x.tree.text? s.source.parts = s.before.tree.text? s.source.parts)
    (hheaderText : x.tree.text? s.header.parts = s.before.tree.text? s.header.parts)
    (hcurrent : x.tree.Shows s.output.parts current)
    (hmode : current = d.unit.content ∨ Artifact.changeStatus mode ≠ .updated) :
    Yields x (generateSource (s.job.inMode mode) s.source)
      (some { s.report with status := Artifact.verdict mode current d.unit.content }) := by
  have hafter : after.tree.LinkFree := h.grows.linkFree hw
  obtain ⟨header, output, houtput', hheader', hreport⟩ := h.reported
  have houtputPath : s.job.outputPath d.className = s.output := by rw [Step.output, h.className_eq]
  have hheaderPath : s.job.headerPath d.className = s.header := by rw [Step.header, h.className_eq]
  have hdraft : (draft s.job s.source).perform x = (.ok (some d), x) := by
    refine draft_congr hw hx hdirectory hsource hsourceText (fun e he => ?_) h.drafted
    cases he
    rw [hheaderPath]
    exact ⟨hheader, hheaderText⟩
  obtain ⟨difference, hupdate⟩ := Artifact.yields_update
    (Artifact.currentText_of_shows hx houtput h.writable h.short hcurrent) hmode
  have hdirectory' : x.directory = after.directory := hdirectory.trans h.directory.symm
  have houtputText := relativeText_congr hafter hx hdirectory' houtput'
  have hheaderText := relativeText_congr hafter hx hdirectory' hheader'
  rw [← houtputPath] at hupdate houtputText
  rw [← hheaderPath] at hheaderText
  have hfinish : Yields x (finish (s.job.inMode mode) d)
      (d.report (Artifact.verdict mode current d.unit.content) header output) :=
    yields_finish hupdate houtputText hheaderText
  rw [generateSource_eq (s.job.inMode mode) hcommand]
  refine (Yields.of_reads (reads_draft _ _) hdraft).bind ?_
  dsimp only
  rw [map_eq_pure_bind, hreport]
  exact hfinish.bind (.pure x _)

/-- A workspace in which a run can come again in a mode: it shows what the run has read, and each
output shows a text with which the mode comes to the status shown and writes nothing. -/
structure Reseen (options : GenerateOptions) (w : Workspace) (mode : WriteMode)
    (shown : FileReport → FileReport) (x : Workspace) : Prop where
  directory : x.directory = w.directory
  regular : x.tree.Regular
  leaves : ∀ place, ¬ Writes (history options w) place → x.tree.leaf? place = w.tree.leaf? place
  listable : ∀ s ∈ jobs options w,
    Sources.IsListable s.2.tree s.1.sourceRoot s.1.target.includes s.1.target.excludes →
      Sources.IsListable x.tree s.1.sourceRoot s.1.target.includes s.1.target.excludes
  shown : ∀ s ∈ history options w, ∀ d old next, s.Outcome d old next →
    ∃ current, x.tree.Shows s.output.parts current ∧
      (current = d.unit.content ∨ Artifact.changeStatus mode ≠ .updated) ∧
      shown s.report = { s.report with status := Artifact.verdict mode current d.unit.content }

namespace Finishes

theorem yields_source (h : Finishes options w root config names reports after)
    (hx : Reseen options w mode shown x) {s : Text × Workspace}
    (hs : s ∈ started (generateTarget options root config) names w)
    (hjob : (jobOf options root config s.1).perform s.2 = (.ok j, s.2)) {t : Path × Workspace}
    (ht : t ∈ started (generateSource j) (sourcesOf j s.2) s.2) {found : Option FileReport}
    {next : Workspace} (hfound : (generateSource j t.1).perform t.2 = (.ok found, next)) :
    Yields x (generateSource (j.inMode mode) t.1) (found.map shown) := by
  have hmem := (h.exists_target hs hjob).1
  obtain ⟨before, hbefore, hprefix⟩ := h.exists_source hs hjob ht
  have hsubset : ∀ u ∈ before, u ∈ history options w := fun u hu =>
    hprefix.subset (List.mem_append_left _ hu)
  obtain ⟨hdirectory, hgrows⟩ := h.grows hbefore hsubset
  have hlinks := hgrows.linkFree h.regular.linkFree
  have htext {place : Location} (hplace : ¬ Writes (history options w) place) :
      x.tree.text? place = t.2.tree.text? place := by
    refine Tree.text?_eq_of_leaf? ((hx.leaves place hplace).trans (hgrows.leaves place ?_).symm)
    exact fun hwritten => hplace (hwritten.mono hsubset)
  obtain ⟨hproper, hsource⟩ := h.isProper_of_mem_sourcesOf hmem (mem_of_mem_started ht)
  have hsourceText := htext hsource
  have hbelongs : j.Belongs options := belongs_of_mem_jobs hmem
  have hcommand : j.options.runHeaderCommand = false := hbelongs.options_eq ▸ h.command
  have hdirectory' : x.directory = t.2.directory := hx.directory.trans hdirectory.symm
  cases found with
  | none =>
    rcases generateSource_eq_ok hcommand hfound with ⟨-, -, hdraft⟩ | ⟨d, r, hresult, -⟩
    · have hagain : (draft j t.1).perform x = (.ok none, x) :=
        draft_congr hlinks hx.regular.linkFree hdirectory' hproper hsourceText
          (fun d hd => nomatch hd) hdraft
      rw [generateSource_eq (j.inMode mode) hcommand]
      exact (Yields.of_reads (reads_draft _ _) hagain).bind (.pure x none)
    · cases hresult
  | some report =>
    have hstep : step? j t.1 t.2 = some ⟨j, t.1, t.2, report⟩ := by
      unfold step?
      rw [hfound]
    rw [hstep, Option.toList_some] at hprefix
    have hlast : ⟨j, t.1, t.2, report⟩ ∈ history options w := hprefix.subset (by simp)
    obtain ⟨d, old, houtcome⟩ := Step.exists_outcome (hgrows.regular h.regular)
      (h.apart.areProper.belongs _ hlast) h.command h.mode (h.apart.areProper.output _ hlast) hfound
    obtain ⟨current, hcurrent, hmode, hshown⟩ := hx.shown _ hlast d old next houtcome
    rw [Option.map_some, hshown]
    exact houtcome.yields hcommand hlinks hx.regular.linkFree hdirectory' hproper
      (h.apart.areProper.output _ hlast) (h.apart.isProper_header _ hlast) hsourceText
      (htext (h.apart.header _ hlast)) hcurrent hmode

theorem yields_generateTarget (h : Finishes options w root config names reports after)
    (hx : Reseen options w mode shown x) {s : Text × Workspace}
    (hs : s ∈ started (generateTarget options root config) names w) {r : TargetReport}
    {next : Workspace} (hr : (generateTarget options root config s.1).perform s.2 = (.ok r, next)) :
    Yields x (generateTarget (inMode options mode) root config s.1) (r.mapFiles shown) := by
  obtain ⟨j, sources, files, between, hjob, hfind, hfiles, rfl⟩ := generateTarget_eq_ok h.command hr
  obtain ⟨hmem, before, _, hbefore, -, hhistory, -⟩ := h.exists_target hs hjob
  have hsubset : ∀ u ∈ before, u ∈ history options w := fun u hu =>
    hhistory ▸ List.mem_append_left _ hu
  obtain ⟨hdirectory, hgrows⟩ := h.grows hbefore hsubset
  have hregular := hgrows.regular h.regular
  have hroot := (belongs_of_mem_jobs hmem).sourceRoot
  have hsources : sourcesOf j s.2 = sources := by
    unfold sourcesOf
    rw [hfind]
    rfl
  obtain ⟨-, hlistable, rfl⟩ := (Sources.find_eq_ok_iff hregular hroot _ _).mp hfind
  have hlisting : Sources.listing x.tree j.sourceRoot j.target.includes j.target.excludes =
      Sources.listing s.2.tree j.sourceRoot j.target.includes j.target.excludes := by
    refine Sources.listing_congr hregular.distinct hx.regular.distinct fun parts hpick => ?_
    have hplace := h.apart.source _ hmem parts hpick
    refine (hx.leaves _ hplace).trans (hgrows.leaves _ ?_).symm
    exact fun hwritten => hplace (hwritten.mono hsubset)
  have hjob' : (jobOf (inMode options mode) root config s.1).perform x =
      (.ok (j.inMode mode), x) :=
    perform_jobOf_inMode hregular.linkFree hx.regular.linkFree
      (hx.directory.trans hdirectory.symm) hjob
  have hfind' := (Sources.find_eq_ok_iff hx.regular hroot _ x).mpr
    ⟨rfl, hx.listable _ hmem hlistable, hlisting.symm⟩
  have hfiles' := yields_traverse (generateSource j) _ (generateSource (j.inMode mode))
    (Option.map shown) shown (fun found _ => by cases found <;> rfl) _ s.2 between files hfiles
    fun t ht found last hfound => h.yields_source hx hs hjob (hsources ▸ ht) hfound
  rw [generateTarget_eq (show (inMode options mode).runHeaderCommand = false from h.command)]
  refine (Yields.of_reads (reads_jobOf _ _ _ _) hjob').bind ?_
  refine ((Yields.of_reads (Sources.reads_find _ _ _) hfind').bind hfiles').bind ?_
  split_ifs
  · exact (Yields.say x _).bind (.pure x _)
  · exact .pure x _

/-- A run that comes again reports the same on each file but for the status. -/
theorem yields_targetReports (h : Finishes options w root config names reports after)
    (hx : Reseen options w mode shown x)
    (hsetup : (Generate.setup options).perform x = (.ok (root, config, names), x)) :
    Yields x (targetReports (inMode options mode)) (reports.map (TargetReport.mapFiles shown)) := by
  refine (Yields.of_reads (reads_setup (inMode options mode)) hsetup).bind ?_
  dsimp only
  rw [mapM_eq_traverse]
  exact yields_traverse (generateTarget options root config) List.cons _
    (TargetReport.mapFiles shown) _ (fun _ _ => rfl) names w after reports h.reported
    fun s hs r next hr => h.yields_generateTarget hx hs hr

end Finishes

end NativeGlue.Generate
