import NativeGlue.Proofs.Command.History
import NativeGlue.Proofs.Glue.CarriageReturns

/-!
Runs that end with a message. What such a run leaves behind are the units of the source files
processed before: a file that differs from what it was holds the unit of the last source file that
has written it, and those after it with the same output found their own unit there.
-/

namespace NativeGlue.Generate

open Text NativeGlue.Action Command

variable {options : GenerateOptions} {w after : Workspace}

namespace Step

variable {s : Step}

/-- What a step that may write has done to the files: they are as they were and the output shows the
unit, or the unit was written to the output alone. -/
structure Effect (s : Step) (u : GlueUnit) (after : Workspace) : Prop where
  unit_eq : s.unit? = some u
  extends_output : Tree.Extends (· = s.output.place) s.before.tree after.tree
  output : s.report.status = .unchanged ∧ s.before.tree = after.tree ∧
      s.before.tree.text? s.output.place = some u.content ∨
    s.report.status = .updated ∧
      (after.tree.leaf? s.output.place = some (.file (encode u.content)) ∨
        after.tree.leaf? s.output.place = some .null ∧
          s.before.tree.leaf? s.output.place = some .null)

theorem exists_effect (hw : s.before.tree.LinkFree) (hs : s.Belongs options)
    (hcommand : options.runHeaderCommand = false) (hmode : options.mode = ⟨false, false⟩)
    (h : (generateSource s.job s.source).perform s.before = (.ok (some s.report), after)) :
    ∃ u, s.Effect u after := by
  have houtput : s.output.isAbsolute = true := Path.isAbsolute_child hs.job.glueRoot.absolute _
  have hmode' : Artifact.changeStatus s.job.options.mode = .updated := by
    rw [hs.job.options_eq, hmode]
    rfl
  obtain ⟨d, old, header, output, hdraft, -, hreport, -, -, between, hfiles, hwritten⟩ :=
    generateSource_eq_some (hs.job.options_eq ▸ hcommand) hmode' h
  have hclass : s.report.className = d.className := by
    rw [hreport]
    rfl
  have hpath : s.job.outputPath d.className = s.output := by
    rw [Step.output, hclass]
  rw [hpath] at hwritten
  have hunit := unit?_of_draft hw hs hclass hdraft
  refine ⟨d.unit, ?_⟩
  rcases hwritten with ⟨hupdated, hwrite⟩ | ⟨hunchanged, rfl, hread⟩
  · obtain ⟨-, hextends, hleaf⟩ := writeText_extends hw houtput hwrite
    rw [← hfiles.tree] at hextends hleaf
    exact ⟨hunit, hextends, .inr ⟨hupdated, hleaf⟩⟩
  · obtain ⟨-, -, -, -, htext⟩ := readTextOr_eq_ok hw houtput hread
    exact ⟨hunit, hfiles.tree ▸ .refl _ _, .inl ⟨hunchanged, hfiles.tree.symm, htext⟩⟩

end Step

/-- The file at a place holds the unit of a step, written by that step; each later one with the same
output made a unit that reads the same, which is the same unless a header has a carriage return in
its name. -/
structure LastWritten (s : Step) (later : List Step) (place : Location) (u : GlueUnit)
    (after : Tree) : Prop where
  output_eq : s.output.place = place
  updated : s.report.status = .updated
  unit_eq : s.unit? = some u
  contents : after.leaf? place = some (.file (encode u.content))
  unchanged : ∀ t ∈ later, t.output.place = place → t.report.status = .unchanged ∧
    ∃ v, t.unit? = some v ∧ v.content = unifyLineEnds u.content ∧
      ('\r' ∉ s.header.name → v.content = u.content)

/-- What steps have made of the file at a place. -/
theorem Leads.leaf?_eq_or_lastWritten {steps : List Step} (h : Leads w steps after)
    (hw : w.tree.LinkFree) (hcommand : options.runHeaderCommand = false)
    (hmode : options.mode = ⟨false, false⟩) (hsteps : ∀ s ∈ steps, s.Belongs options)
    (place : Location) :
    after.tree.leaf? place = w.tree.leaf? place ∧
        (w.tree.leaf? place ≠ some .null → ∀ t ∈ steps, t.output.place = place →
          t.report.status = .unchanged ∧
            ∃ v, t.unit? = some v ∧ w.tree.text? place = some v.content) ∨
      ∃ before s later u, steps = before ++ s :: later ∧
        LastWritten s later place u after.tree := by
  induction steps generalizing w with
  | nil => exact .inl ⟨by rw [h.tree], fun _ t ht => nomatch ht⟩
  | cons s steps ih =>
    obtain ⟨hstart, next, hstep, hrest⟩ := h
    have hbefore : s.before.tree.LinkFree := hstart.tree ▸ hw
    have hs := hsteps s List.mem_cons_self
    obtain ⟨u, heffect⟩ := Step.exists_effect hbefore hs hcommand hmode hstep
    have hextends := heffect.extends_output
    have hrest' := ih hrest (hextends.linkFree hbefore)
      fun t ht => hsteps t (List.mem_cons_of_mem s ht)
    rw [← hstart.tree]
    rcases hrest' with ⟨hleaf, hlater⟩ | ⟨before, t, later, v, rfl, hlast⟩
    · by_cases hplace : s.output.place = place
      · subst hplace
        rcases heffect.output with ⟨hstatus, htree, htext⟩ | ⟨hstatus, hwritten | ⟨hnull, hold⟩⟩
        · rw [← htree] at hleaf hlater
          refine .inl ⟨hleaf, fun hnull t ht hsame => ?_⟩
          rcases List.mem_cons.mp ht with rfl | ht
          · exact ⟨hstatus, u, heffect.unit_eq, htext⟩
          · exact hlater hnull t ht hsame
        · refine .inr ⟨[], s, steps, u, rfl, rfl, hstatus, heffect.unit_eq,
            hleaf.trans hwritten, ?_⟩
          intro t ht hsame
          obtain ⟨hunchanged, v, hv, htext⟩ :=
            hlater (by rw [hwritten]; exact fun heq => nomatch heq) t ht hsame
          rw [Tree.text?_of_leaf?_eq_file hwritten, Option.some.injEq] at htext
          refine ⟨hunchanged, v, hv, htext.symm, fun hname => ?_⟩
          rw [← htext]
          exact unifyLineEnds_eq_self _ (Step.return_notMem_content heffect.unit_eq hname)
        · exact .inl ⟨hleaf.trans (hnull.trans hold.symm), fun hnot => absurd hold hnot⟩
      · have hsame := hextends.leaves place (Ne.symm hplace)
        rw [hsame, Tree.text?_eq_of_leaf? hsame] at hlater
        refine .inl ⟨hleaf.trans hsame, fun hnull t ht houtput => ?_⟩
        rcases List.mem_cons.mp ht with rfl | ht
        · exact absurd houtput hplace
        · exact hlater hnull t ht houtput
    · exact .inr ⟨s :: before, t, later, v, rfl, hlast⟩

theorem Leads.hasDirectory {steps : List Step} (h : Leads w steps after)
    (hw : w.tree.LinkFree) (hcommand : options.runHeaderCommand = false)
    (hmode : options.mode = ⟨false, false⟩) (hsteps : ∀ s ∈ steps, s.Belongs options)
    {place : Location} (hplace : w.tree.HasDirectory place) : after.tree.HasDirectory place := by
  induction steps generalizing w with
  | nil => rwa [h.tree]
  | cons s steps ih =>
    obtain ⟨hstart, next, hstep, hrest⟩ := h
    rw [← hstart.tree] at hw hplace
    obtain ⟨u, heffect⟩ :=
      Step.exists_effect hw (hsteps s List.mem_cons_self) hcommand hmode hstep
    exact ih hrest (heffect.extends_output.linkFree hw)
      (fun t ht => hsteps t (List.mem_cons_of_mem s ht))
      (heffect.extends_output.directories place hplace)

/-- A run that ends with a message, in a tree without links. Every directory stays. A file that is
not as it was holds the unit of a processed source file with that output, the last one to be
written; source files processed after it with the same output made a unit that reads the same and
left the file alone. -/
theorem lastWritten_of_run_reported {failure : Reported} (hmode : options.mode = ⟨false, false⟩)
    (hcommand : options.runHeaderCommand = false) (hw : w.tree.LinkFree)
    (h : (run options).perform w = (.error (.reported failure), after)) :
    (∀ place, w.tree.HasDirectory place → after.tree.HasDirectory place) ∧
      ∀ place, after.tree.leaf? place ≠ w.tree.leaf? place →
        ∃ before s later u, history options w = before ++ s :: later ∧
          LastWritten s later place u after.tree := by
  have hleads := leads_of_run_reported hcommand h
  have hsteps : ∀ s ∈ history options w, s.Belongs options := fun s hs => belongs_of_mem_history hs
  refine ⟨fun place hplace => hleads.hasDirectory hw hcommand hmode hsteps hplace, ?_⟩
  intro place hchanged
  rcases hleads.leaf?_eq_or_lastWritten hw hcommand hmode hsteps place with ⟨hleaf, -⟩ | hwritten
  · exact absurd hleaf hchanged
  · exact hwritten

namespace Interrupted

/-- Two targets that differ in a line end in the name of the header, and one without a header. -/
def configText : Text :=
  "\x7b\"targets\":\x7b\"a\":\x7b\"source_dir\":\"s\",\"jni_dir\":\"j\",\"header_name\":".toList ++
    "\"\x7bclass_name\x7d\\r\"\x7d,\"b\":\x7b\"source_dir\":\"s\",\"jni_dir\":\"j\",".toList ++
    "\"header_name\":\"\x7bclass_name\x7d\\n\"\x7d,\"c\":\x7b\"source_dir\":\"s\",".toList ++
    "\"jni_dir\":\"j\"\x7d\x7d\x7d".toList

def members : Members :=
  let directories : Members := [("source_dir".toList, .str ['s']), ("jni_dir".toList, .str ['j'])]
  let named (c : Char) : Json.Value :=
    .obj (directories ++ [("header_name".toList, .str (Config.classNameSlot ++ [c]))])
  [("targets".toList, .obj [(['a'], named '\r'), (['b'], named '\n'), (['c'], .obj directories)])]

def workspace : Workspace :=
  sampleWorkspace configText "//native".toList [("A\r".toList, []), ("A\n".toList, [])]

theorem linkFree_workspace : workspace.tree.LinkFree :=
  (Tree.regular_of_nodes workspace.tree (by decide)).linkFree

set_option maxRecDepth 10000 in
theorem parse_configText : Json.parse configText = .ok (.obj members) := by cbv

theorem perform_setup : (setup plainOptions).perform workspace =
    (.ok (⟨1, []⟩, members, [['a'], ['b'], ['c']]), workspace) :=
  perform_setup_sample linkFree_workspace rfl rfl rfl rfl rfl (text?_sampleWorkspace (by decide))
    parse_configText rfl (by decide) (by decide)

set_option maxRecDepth 10000 in
/-- The run fails at the third target and leaves the unit of the first. -/
theorem perform_run : ∃ failure after,
    (run plainOptions).perform workspace = (.error (.reported failure), after) ∧
      after.tree.contents? [['j'], "A.cpp".toList] = some (encode "#include <A\r>\n".toList) := by
  have hrun : ((run plainOptions).perform workspace).1 =
      .error (.reported (.noHeader "j/A.h".toList "s/A.java".toList)) ∧
    ((run plainOptions).perform workspace).2.tree.contents? [['j'], "A.cpp".toList] =
      some (encode "#include <A\r>\n".toList) := by
    rw [run_of_setup perform_setup]
    decide +kernel
  rcases hresult : (run plainOptions).perform workspace with ⟨result, after⟩
  rw [hresult] at hrun
  exact ⟨_, after, congrArg (·, after) hrun.1, hrun.2⟩

set_option maxRecDepth 10000 in
theorem history_workspace : (history plainOptions workspace).map (fun s =>
    (s.output.place, s.report.status, s.unit?.map (·.content))) =
      [([['j'], "A.cpp".toList], .updated, some "#include <A\r>\n".toList),
        ([['j'], "A.cpp".toList], .unchanged, some "#include <A\n>\n".toList)] := by
  rw [history, jobs_of_setup perform_setup]
  decide +kernel

end Interrupted

/-- A run that ends at its third target, after the first has written its unit and the second has
found its own there, but for a line end. -/
theorem mixed_line_ends_lastWritten : ∃ failure after place,
    (run plainOptions).perform Interrupted.workspace = (.error (.reported failure), after) ∧
      after.tree.leaf? place ≠ Interrupted.workspace.tree.leaf? place ∧
        ∃ before s later u, history plainOptions Interrupted.workspace = before ++ s :: later ∧
          LastWritten s later place u after.tree := by
  obtain ⟨failure, after, hrun, hcontents⟩ := Interrupted.perform_run
  have hchanged : after.tree.leaf? [['j'], "A.cpp".toList] ≠
      Interrupted.workspace.tree.leaf? [['j'], "A.cpp".toList] := by
    intro hsame
    rw [Tree.contents?_eq, hsame] at hcontents
    cases hcontents
  obtain ⟨-, hwritten⟩ :=
    lastWritten_of_run_reported rfl rfl Interrupted.linkFree_workspace hrun
  exact ⟨failure, after, _, hrun, hchanged, hwritten _ hchanged⟩

/-- The file need not hold the unit of the last source file with that output. -/
theorem last_unit_left_unwritten : ∃ options w failure after s u,
    options.mode = ⟨false, false⟩ ∧ options.runHeaderCommand = false ∧ w.tree.LinkFree ∧
      (run options).perform w = (.error (.reported failure), after) ∧
      (history options w).getLast? = some s ∧ s.unit? = some u ∧
      after.tree.leaf? s.output.place ≠ w.tree.leaf? s.output.place ∧
      after.tree.leaf? s.output.place ≠ some (.file (encode u.content)) := by
  obtain ⟨failure, after, hrun, hcontents⟩ := Interrupted.perform_run
  obtain ⟨first, rest, hhistory, -, hrest⟩ := List.map_eq_cons_iff.mp Interrupted.history_workspace
  obtain ⟨second, others, rfl, hsecond, hothers⟩ := List.map_eq_cons_iff.mp hrest
  obtain rfl := List.map_eq_nil_iff.mp hothers
  simp only [Prod.mk.injEq, Option.map_eq_some_iff] at hsecond
  obtain ⟨hplace, -, u, hu, hcontent⟩ := hsecond
  refine ⟨plainOptions, Interrupted.workspace, failure, after, second, u, rfl, rfl,
    Interrupted.linkFree_workspace, hrun, by rw [hhistory]; rfl, hu, ?_, ?_⟩
  · rw [hplace]
    intro hsame
    rw [Tree.contents?_eq, hsame] at hcontents
    cases hcontents
  · rw [hplace, hcontent]
    intro hsame
    rw [Tree.contents?_eq, hsame] at hcontents
    revert hcontents
    decide

end NativeGlue.Generate
