import NativeGlue.Proofs.Files.Writing

/-!
What was written is found again by the same path, whatever links lead to it. Making the directories
of a file and writing it leave all other links and directories in place, so that a later walk along
the path ends at the file. The device alone forgets what is written to it, and was found before the
writing if anything was.
-/

namespace NativeGlue

open Text

namespace Tree

variable {tree after : Tree}

/-- Where a path led to no directory, it leads to the same after it was followed to write. -/
theorem walk_of_put {here place : Location} {names : List Text} {bytes : Bytes}
    (hhere : tree.IsOpen here) (hwalk : tree.walk here names = .ok place)
    (hplace : ¬ tree.HasDirectory place) :
    (tree.put place (file bytes)).walk here names = .ok place := by
  have hopen := isOpen_of_walk hhere hwalk
  have hextends := tree.extends_put _ place hopen.holds hplace (.file bytes)
  refine walk_mono hextends.directories (fun other target => ?_) hwalk
  by_cases hother : other = place
  · have hself := tree.find?_put_self (file bytes) place hopen.holds
    subst hother
    rw [hself]
    exact iff_of_false (fun hlink => nomatch hlink) (hopen.no_link target)
  · exact hextends.find?_link hother target

/-- A file that was written is found by the path that led to it. -/
theorem lookup_of_writeFile {here : Location} {names : List Text} {bytes : Bytes}
    (hhere : tree.IsOpen here) (h : tree.writeFile here names bytes = .ok after) :
    after.lookup here names = .ok (file bytes) ∨
      after = tree ∧ tree.lookup here names = .ok null := by
  obtain ⟨place, hwalk, hplace, rfl | ⟨rfl, hnull⟩⟩ := writeFile_eq_ok h
  · refine .inl ((lookup_eq_ok_iff_walk here names _).mpr
      ⟨place, walk_of_put hhere hwalk hplace, ?_⟩)
    exact tree.find?_put_self _ place (isOpen_of_walk hhere hwalk).holds
  · exact .inr ⟨rfl, (lookup_eq_ok_iff_walk here names _).mpr ⟨place, hwalk, hnull⟩⟩

/-- New directories hide nothing that was found, and what is no directory is what it was. -/
theorem Extends.lookup_eq (h : Extends (fun _ => False) tree after) {here : Location}
    {names : List Text} {found later : Tree} (hfound : tree.lookup here names = .ok found)
    (hlater : after.lookup here names = .ok later) (hleaf : later.isDirectory = false) :
    later = found := by
  obtain ⟨place, hwalk, hplace⟩ := (lookup_eq_ok_iff_walk here names found).mp hfound
  obtain ⟨other, hwalk', hother⟩ := (lookup_eq_ok_iff_walk here names later).mp hlater
  have hsame := walk_mono h.directories (fun _ => h.find?_link id) hwalk
  obtain rfl : other = place := Except.ok.inj (hwalk'.symm.trans hsame)
  have hbefore := h.leaves other id
  rw [(leaf?_eq_some_iff after other later).mpr ⟨hother, hleaf⟩] at hbefore
  have hagain := ((leaf?_eq_some_iff tree other later).mp hbefore.symm).1
  exact Option.some.inj (hagain.symm.trans hplace)

end Tree

namespace Workspace

variable {w : Workspace} {p : Path}

theorem isWritable_of_lookup {found : Tree} (h : w.lookup p = .ok found) :
    p.isWritable = true := by
  by_contra hnot
  rw [lookup_of_not_isWritable (eq_false_of_ne_true hnot)] at h
  cases h

/-- What is found at a path that can be written down is found by walking along it. -/
theorem lookup_eq_ok_iff (found : Tree) :
    w.lookup p = .ok found ↔ p.isWritable = true ∧ p.isTooLong = false ∧
      w.tree.lookup (w.startOf p) p.parts = .ok found := by
  constructor
  · intro h
    have hwritable := isWritable_of_lookup h
    rw [lookup_of_isWritable hwritable, apply] at h
    split_ifs at h with hlong
    exact ⟨hwritable, eq_false_of_ne_true hlong, h⟩
  · rintro ⟨hwritable, hlong, h⟩
    rw [lookup_of_isWritable hwritable, apply, hlong]
    exact h

/-- Where a command runs in a directory, every walk starts at a place that is open. -/
theorem isOpen_startOf (hw : w.tree.HasDirectory w.directory) (p : Path) :
    w.tree.IsOpen (w.startOf p) := by
  unfold startOf
  split_ifs
  · have hroot : w.tree.HasDirectory ([] ++ w.directory) := hw
    exact hroot.append.isOpen
  · exact hw.isOpen

end Workspace

namespace Action

variable {w after : Workspace} {p : Path}

/-- A text that was written is found at its path, unless the path leads to the device. That was
found there before, if anything was. -/
theorem lookup_of_writeText (hw : w.tree.HasDirectory w.directory) {t : Text}
    (h : (writeText p t).perform w = (.ok (), after)) :
    after.lookup p = .ok (.file (encode t)) ∨
      after.lookup p = .ok .null ∧ ∀ found, w.lookup p = .ok found → found = .null := by
  have hstart := Workspace.isOpen_startOf hw p
  unfold writeText at h
  obtain ⟨⟨⟩, between, hmade, hwritten⟩ := (perform_bind_eq_ok_iff _ _ w after ()).mp h
  obtain ⟨hdirectory, hextends⟩ := makeDirectories_extends (p := p.parent) hstart hmade
  obtain ⟨hwritable, hlong, tree, hfile, rfl⟩ := writeBytes_eq_ok hwritten
  have hsame : between.startOf p = w.startOf p := by
    rw [Workspace.startOf, Workspace.startOf, hdirectory]
  rw [hsame] at hfile
  have hlater (found : Tree) (hfound : tree.lookup (w.startOf p) p.parts = .ok found) :
      Workspace.lookup { between with tree := tree } p = .ok found := by
    refine (Workspace.lookup_eq_ok_iff found).mpr ⟨hwritable, hlong, ?_⟩
    exact hsame.symm ▸ hfound
  rcases Tree.lookup_of_writeFile (hextends.isOpen id hstart) hfile with hfound | ⟨rfl, hnull⟩
  · exact .inl (hlater _ hfound)
  · refine .inr ⟨hlater _ hnull, fun found hfound => ?_⟩
    obtain ⟨-, -, hbefore⟩ := (Workspace.lookup_eq_ok_iff found).mp hfound
    exact (hextends.lookup_eq hbefore hnull rfl).symm

/-- Whatever links lead to it, a text file is read with line ends unified. -/
theorem readText_of_lookup {found : Tree} {bytes : Bytes} {t : Text}
    (h : w.lookup p = .ok found) (hbytes : found.bytes? = some bytes)
    (hdecode : decode? bytes = some t) : (readText p).perform w = (.ok (unifyLineEnds t), w) := by
  obtain ⟨hwritable, hlong, hfound⟩ := (Workspace.lookup_eq_ok_iff found).mp h
  have hread : w.apply p Tree.readFile = .ok bytes := by
    rw [Workspace.apply, hlong, if_neg Bool.false_ne_true, Tree.readFile, hfound]
    simp only [hbytes, bind, Except.bind, pure, Except.pure]
  unfold readText readTextOr
  rw [perform_bind_of_ok _ ((onTree_eq_ok_iff _ w w p (.ok bytes)).mpr ⟨rfl, hwritable, hread⟩)]
  simp only [hdecode]
  rfl

end Action

end NativeGlue
