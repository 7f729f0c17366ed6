import NativeGlue.Proofs.Files.Listing
import NativeGlue.Proofs.Files.Resolution
import NativeGlue.Proofs.Files.Traversal

/-!
Finding source files in a regular tree. The files found are those with such names below the
directory, in order, so trees that hold the same files under such names show the same sources.
-/

namespace NativeGlue.Sources

open Text NativeGlue.Action

/-- Whether a file with these names below a source directory is taken for a source file. -/
def isPick (includes excludes parts : List Text) : Bool :=
  isSourceName parts && isSelected includes excludes parts

/-- Whether a path leads to a file. -/
def holdsFile (tree : Tree) (p : Path) : Bool :=
  p.isWritable && (tree.leaf? p.parts).any Tree.isFile

/-- The files below a directory that are taken for source files, in order. -/
def listing (tree : Tree) (root : Path) (includes excludes : List Text) : List Path :=
  let selected := (candidates tree root.parts).filter (isSelected includes excludes)
  (selected.map fun parts => root.under ⟨0, parts⟩).filter (holdsFile tree)

/-- A directory that can be looked through without meeting a path that is too long. -/
structure IsListable (tree : Tree) (root : Path) (includes excludes : List Text) : Prop where
  writable : root.isWritable = true
  short : root.IsShort
  directory : tree.HasDirectory root.parts
  picks : ∀ parts, isPick includes excludes parts = true →
    (tree.find? (root.parts ++ parts)).isSome → (root.under ⟨0, parts⟩).isWritable = true →
    (root.under ⟨0, parts⟩).IsShort

/-- A directory can be looked through if no path below it is too long. -/
theorem isListable_of_nodes {tree : Tree} (h : tree.HasDistinctNames) {root : Path}
    (includes excludes : List Text) (hwritable : root.isWritable = true) (hshort : root.IsShort)
    (hdirectory : tree.HasDirectory root.parts)
    (hnodes : ∀ e ∈ tree.treesBelow root.parts, Path.isTooLong ⟨root.slashes, e.1⟩ = false ∧
      ∀ name ∈ e.1, Tree.isTooLong name = false) : IsListable tree root includes excludes where
  writable := hwritable
  short := hshort
  directory := hdirectory
  picks parts hpick hsome _ := by
    obtain ⟨found, hfound⟩ := Option.isSome_iff_exists.mp hsome
    obtain ⟨hpath, hnames⟩ := hnodes _ ((Tree.mem_treesBelow_iff h _ found).mpr
      ⟨parts, ne_nil_of_isSourceName ((Bool.and_eq_true _ _).mp hpick).1, rfl, hfound⟩)
    exact ⟨hpath, hnames⟩

variable {w : Workspace} {root p : Path} {includes excludes : List Text}

/-- A file that is held is there. -/
theorem isSome_of_holdsFile {tree : Tree} (h : holdsFile tree p = true) :
    (tree.find? p.parts).isSome := by
  obtain ⟨-, hfile⟩ := (Bool.and_eq_true _ _).mp h
  obtain ⟨found, hfound, -⟩ := (Option.any_eq_true _ _).mp hfile
  exact Option.isSome_iff_exists.mpr ⟨found, ((Tree.leaf?_eq_some_iff _ _ _).mp hfound).1⟩

theorem under_eq (root : Path) (parts : List Text) :
    root.under ⟨0, parts⟩ = ⟨root.slashes, root.parts ++ parts⟩ := rfl

theorem mem_selected_iff {tree : Tree} (h : tree.HasDistinctNames) (place : Location)
    (parts : List Text) :
    parts ∈ (candidates tree place).filter (isSelected includes excludes) ↔
      isPick includes excludes parts = true ∧ (tree.find? (place ++ parts)).isSome := by
  rw [List.mem_filter, mem_candidates_iff place h, isPick, Bool.and_eq_true, and_right_comm]

theorem isProper_under (hw : w.tree.Regular) (hroot : root.IsProper) {parts : List Text}
    (h : (w.tree.find? (root.parts ++ parts)).isSome) : (root.under ⟨0, parts⟩).IsProper := by
  obtain ⟨found, hfound⟩ := Option.isSome_iff_exists.mp h
  exact ⟨hroot.absolute, hw.isEntryName hfound⟩

theorem perform_isDirectory (hw : w.tree.LinkFree) (hp : p.IsProper)
    (hwritable : p.isWritable = true) (hshort : p.IsShort) :
    (isDirectory p).perform w = (.ok ((w.tree.find? p.parts).any Tree.isDirectory), w) := by
  unfold isDirectory
  rw [perform_bind_of_ok _ (find?_of_isShort hw hp hwritable hshort)]
  rfl

theorem perform_isFile (hw : w.tree.LinkFree) (hp : p.IsProper)
    (hshort : p.isWritable = true → p.IsShort) :
    (isFile p).perform w = (.ok (holdsFile w.tree p), w) := by
  unfold isFile holdsFile
  cases hwritable : p.isWritable with
  | false =>
    rw [perform_bind_of_ok _ (find?_of_not_isWritable hwritable)]
    rfl
  | true =>
    rw [perform_bind_of_ok _ (find?_of_isShort hw hp hwritable (hshort hwritable))]
    unfold Tree.leaf?
    cases w.tree.find? p.parts with
    | none => rfl
    | some found => cases found <;> rfl

theorem reads_find (root : Path) (includes excludes : List Text) :
    Reads (find root includes excludes) := by
  refine (reads_isDirectory root).bind fun _ => .ite (.look ?_ fun v => ?_) (.report _)
  · intro w v h
    dsimp only
    rw [h.tree, Workspace.startOf, Workspace.startOf, h.directory]
  · split
    · exact .pure _
    · exact reads_filterM reads_isFile _

theorem reads_className (root source : Path) : Reads (className root source) := by
  refine (reads_resolve source).bind fun _ => (reads_resolve root).bind fun _ => ?_
  split
  · exact .fatal _
  · split
    · exact .pure _
    · exact .fatal _

/-- The name of a class is read off the path of its file relative to the directory. -/
theorem exists_of_className {source : Path} {name : Text} {after : Workspace}
    (h : (className root source).perform w = (.ok name, after)) :
    after = w ∧ ∃ q r file, (resolve source).perform w = (.ok q, w) ∧
      (resolve root).perform w = (.ok r, w) ∧ q.relativeTo? r = some file ∧
      file.className? = some name := by
  obtain rfl := (reads_className root source).after_eq h
  unfold className at h
  obtain ⟨q, hq, h⟩ := ((reads_resolve source).perform_bind_eq_ok_iff _ _ name).mp h
  obtain ⟨r, hr, h⟩ := ((reads_resolve root).perform_bind_eq_ok_iff _ _ name).mp h
  refine ⟨rfl, q, r, ?_⟩
  cases hfile : q.relativeTo? r with
  | none => simp only [hfile] at h; cases h
  | some file =>
    cases hname : file.className? with
    | none => simp only [hfile, hname] at h; cases h
    | some other =>
      simp only [hfile, hname] at h
      cases h
      exact ⟨file, hq, hr, rfl, hname⟩

theorem className_congr {v : Workspace} {source : Path} (hw : w.tree.LinkFree)
    (hv : v.tree.LinkFree) (hdirectory : v.directory = w.directory) {name : Text}
    (h : (className root source).perform w = (.ok name, w)) :
    (className root source).perform v = (.ok name, v) := by
  obtain ⟨-, q, r, file, hq, hr, hfile, hname⟩ := exists_of_className h
  rw [className, perform_bind_of_ok _ (resolve_congr hw hv hdirectory hq),
    perform_bind_of_ok _ (resolve_congr hw hv hdirectory hr)]
  simp only [hfile, hname]
  rfl

/-- What is found lies below the directory. -/
theorem exists_of_mem_find {found : List Path} {after : Workspace}
    (h : (find root includes excludes).perform w = (.ok found, after)) {path : Path}
    (hpath : path ∈ found) : ∃ parts, path = root.under ⟨0, parts⟩ := by
  unfold find at h
  obtain ⟨isThere, -, h⟩ := ((reads_isDirectory root).perform_bind_eq_ok_iff _ _ _).mp h
  split_ifs at h
  · rw [perform_bind_of_ok _ (perform_get w)] at h
    split at h
    · cases h
      cases hpath
    · obtain ⟨kept, -, rfl⟩ := filterM_eq_ok reads_isFile h
      obtain ⟨parts, -, rfl⟩ := List.mem_map.mp (List.mem_filter.mp hpath).1
      exact ⟨parts, rfl⟩
  · cases h

theorem walk_startOf (hw : w.tree.LinkFree) (hroot : root.IsProper) (hshort : root.IsShort)
    (hdirectory : w.tree.HasDirectory root.parts) :
    w.tree.walk (w.startOf root) root.parts = .ok root.parts := by
  obtain ⟨inside, hinside⟩ := hdirectory
  rw [Workspace.startOf_eq_nil hroot]
  exact hw.walk_of_find? hroot.names hshort.names hinside

/-- The selected paths that hold a file, where none of them is too long. -/
theorem filterM_isFile (hw : w.tree.Regular) (hroot : root.IsProper)
    (hpicks : ∀ parts, isPick includes excludes parts = true →
      (w.tree.find? (root.parts ++ parts)).isSome → (root.under ⟨0, parts⟩).isWritable = true →
      (root.under ⟨0, parts⟩).IsShort) :
    ((((candidates w.tree root.parts).filter (isSelected includes excludes)).map
      fun parts => root.under ⟨0, parts⟩).filterM isFile).perform w =
        (.ok (listing w.tree root includes excludes), w) := by
  refine filterM_of_ok _ fun q hq => ?_
  obtain ⟨parts, hparts, rfl⟩ := List.mem_map.mp hq
  obtain ⟨hpick, hsome⟩ := (mem_selected_iff hw.distinct root.parts parts).mp hparts
  exact perform_isFile hw.linkFree (isProper_under hw hroot hsome) (hpicks parts hpick hsome)

theorem find_of_isListable (hw : w.tree.Regular) (hroot : root.IsProper)
    (h : IsListable w.tree root includes excludes) :
    (find root includes excludes).perform w = (.ok (listing w.tree root includes excludes), w) := by
  unfold find
  obtain ⟨inside, hinside⟩ := h.directory
  rw [perform_bind_of_ok _ (perform_isDirectory hw.linkFree hroot h.writable h.short), hinside]
  simp only [Option.any_some, Tree.isDirectory, if_true]
  rw [perform_bind_of_ok _ (perform_get w)]
  simp only [walk_startOf hw.linkFree hroot h.short ⟨inside, hinside⟩]
  exact filterM_isFile hw hroot h.picks

/-- A path that is seen to lead to a directory. -/
theorem hasDirectory_of_isDirectory {after : Workspace} (hw : w.tree.LinkFree)
    (hroot : root.IsProper) (h : (isDirectory root).perform w = (.ok true, after)) :
    root.isWritable = true ∧ root.IsShort ∧ w.tree.HasDirectory root.parts := by
  obtain ⟨top, htop, hdirectory⟩ := ((reads_find? root).perform_bind_eq_ok_iff _ _ _).mp h
  obtain ⟨found, rfl, hfound⟩ := (Option.any_eq_true _ _).mp
    (Except.ok.inj (congrArg Prod.fst hdirectory))
  obtain ⟨inside, rfl⟩ : ∃ inside, found = .directory inside := by
    cases found with
    | directory inside => exact ⟨inside, rfl⟩
    | _ => cases hfound
  obtain ⟨hwritable, hshort, hinside⟩ := find?_eq_some hw hroot htop
  exact ⟨hwritable, hshort, inside, hinside⟩

theorem isListable_of_find {found : List Path} {after : Workspace} (hw : w.tree.Regular)
    (hroot : root.IsProper)
    (h : (find root includes excludes).perform w = (.ok found, after)) :
    IsListable w.tree root includes excludes := by
  unfold find at h
  obtain ⟨isThere, hthere, h⟩ := ((reads_isDirectory root).perform_bind_eq_ok_iff _ _ _).mp h
  cases isThere with
  | false => cases h
  | true =>
    obtain ⟨hwritable, hshort, hdirectory⟩ := hasDirectory_of_isDirectory hw.linkFree hroot hthere
    rw [if_pos rfl, perform_bind_of_ok _ (perform_get w)] at h
    simp only [walk_startOf hw.linkFree hroot hshort hdirectory] at h
    obtain ⟨kept, hfiles, -⟩ := filterM_eq_ok reads_isFile h
    refine ⟨hwritable, hshort, hdirectory, fun parts hpick hsome hnamed => ?_⟩
    -- each selected path was looked up, and a path that is too long cannot be
    have hkept := hfiles (root.under ⟨0, parts⟩)
      (List.mem_map_of_mem ((mem_selected_iff hw.distinct root.parts parts).mpr ⟨hpick, hsome⟩))
    obtain ⟨result, hresult, -⟩ := ((reads_find? _).perform_bind_eq_ok_iff _ _ _).mp hkept
    obtain ⟨found, hfound⟩ := Option.isSome_iff_exists.mp hsome
    exact isShort_of_find? hw.linkFree (isProper_under hw hroot hsome) hnamed hfound hresult

/-- Looking through a directory succeeds just when it can be looked through, and shows the files
with names of source files in it. -/
theorem find_eq_ok_iff (hw : w.tree.Regular) (hroot : root.IsProper) (found : List Path)
    (after : Workspace) :
    (find root includes excludes).perform w = (.ok found, after) ↔
      after = w ∧ IsListable w.tree root includes excludes ∧
        found = listing w.tree root includes excludes := by
  constructor
  · intro h
    have hlistable := isListable_of_find hw hroot h
    rw [find_of_isListable hw hroot hlistable] at h
    cases h
    exact ⟨rfl, hlistable, rfl⟩
  · rintro ⟨rfl, hlistable, rfl⟩
    exact find_of_isListable hw hroot hlistable

/-- Trees with the same files under names of source files show the same sources. -/
theorem listing_congr {before after : Tree} (hbefore : before.HasDistinctNames)
    (hafter : after.HasDistinctNames)
    (hpicks : ∀ parts, isPick includes excludes parts = true →
      after.leaf? (root.parts ++ parts) = before.leaf? (root.parts ++ parts)) :
    listing after root includes excludes = listing before root includes excludes := by
  unfold listing
  dsimp only
  rw [List.filter_map, List.filter_map]
  refine congrArg _ ?_
  have hsorted (tree : Tree) (keep : List Text → Bool) :
      (((candidates tree root.parts).filter (isSelected includes excludes)).filter keep).Pairwise
        fun a b => Path.partsLe a b = true :=
    ((pairwise_candidates root.parts tree).filter _).filter _
  have hnodup (tree : Tree) (htree : tree.HasDistinctNames) (keep : List Text → Bool) :
      (((candidates tree root.parts).filter (isSelected includes excludes)).filter keep).Nodup :=
    ((nodup_candidates root.parts htree).filter _).filter _
  refine isTotalOrder_parts.eq_of_mem_iff (hsorted after _) (hsorted before _)
    (hnodup after hafter _) (hnodup before hbefore _) fun parts => ?_
  -- a file that is held is there, so whether it is there need not be asked
  have hmem (tree : Tree) (htree : tree.HasDistinctNames) :
      parts ∈ ((candidates tree root.parts).filter (isSelected includes excludes)).filter
          (holdsFile tree ∘ fun parts => root.under ⟨0, parts⟩) ↔
        isPick includes excludes parts = true ∧
          holdsFile tree (root.under ⟨0, parts⟩) = true := by
    rw [List.mem_filter, mem_selected_iff htree]
    exact ⟨fun h => ⟨h.1.1, h.2⟩, fun h => ⟨⟨h.1, isSome_of_holdsFile h.2⟩, h.2⟩⟩
  rw [hmem after hafter, hmem before hbefore]
  refine and_congr_right fun hpick => ?_
  unfold holdsFile
  rw [under_eq, hpicks parts hpick]

section Growth

open NativeGlue.Tree

variable {written : Location → Prop} {before after : Tree}

/-- What could be looked through later, and was there, could be looked through before. -/
theorem IsListable.of_extends (h : IsListable after root includes excludes)
    (hextends : Extends written before after) (hdirectory : before.HasDirectory root.parts)
    (hpicks : ∀ parts, isPick includes excludes parts = true → ¬ written (root.parts ++ parts)) :
    IsListable before root includes excludes where
  writable := h.writable
  short := h.short
  directory := hdirectory
  picks parts hpick hsome := h.picks parts hpick (hextends.isSome (hpicks parts hpick) hsome)

/-- What can be looked through can be looked through later, when new directories lie on the way to
paths that are short enough. -/
theorem IsListable.mono (h : IsListable before root includes excludes)
    (hgrows : Grows written before after) (hroot : root.slashes = 1)
    (hshort : ∀ target, written target →
      ∃ p : Path, p.parts = target ∧ p.isAbsolute = true ∧ p.IsShort) :
    IsListable after root includes excludes where
  writable := h.writable
  short := h.short
  directory := hgrows.directories root.parts h.directory
  picks parts hpick hsome hwritable := by
    rcases hgrows.fresh _ hsome with hold | ⟨target, htarget, hprefix⟩
    · exact h.picks parts hpick hold hwritable
    · obtain ⟨p, rfl, habsolute, hp⟩ := hshort target htarget
      exact hp.of_prefix hroot habsolute hprefix

end Growth

/-- What is found in a regular tree are the files with such names. -/
theorem mem_listing_iff {tree : Tree} (h : tree.HasDistinctNames) (parts : List Text) :
    root.under ⟨0, parts⟩ ∈ listing tree root includes excludes ↔
      isPick includes excludes parts = true ∧ holdsFile tree (root.under ⟨0, parts⟩) = true := by
  unfold listing
  rw [List.mem_filter]
  refine and_congr_left fun hfile => ⟨fun hmem => ?_, fun hpick => ?_⟩
  · obtain ⟨others, hothers, heq⟩ := List.mem_map.mp hmem
    obtain rfl : others = parts := List.append_cancel_left (congrArg Path.parts heq)
    exact ((mem_selected_iff h root.parts others).mp hothers).1
  · exact List.mem_map_of_mem
      ((mem_selected_iff h root.parts parts).mpr ⟨hpick, isSome_of_holdsFile hfile⟩)

theorem exists_of_mem_listing {tree : Tree} (h : tree.HasDistinctNames) {path : Path}
    (hpath : path ∈ listing tree root includes excludes) :
    ∃ parts, path = root.under ⟨0, parts⟩ ∧ isPick includes excludes parts = true ∧
      (tree.find? (root.parts ++ parts)).isSome := by
  obtain ⟨parts, hparts, rfl⟩ := List.mem_map.mp (List.mem_filter.mp hpath).1
  exact ⟨parts, rfl, (mem_selected_iff h root.parts parts).mp hparts⟩

end NativeGlue.Sources
