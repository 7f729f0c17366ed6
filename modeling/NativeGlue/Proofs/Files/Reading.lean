import Mathlib.Data.String.Basic
import NativeGlue.Proofs.Files.Action
import NativeGlue.Proofs.Files.Walk
import NativeGlue.Proofs.Text.Lines

/-!
Reading files of a tree without links. Whether and how a path is read depends on the path and on
what is found at its names, so workspaces that agree there read the same.
-/

namespace NativeGlue

open Text

namespace Tree

/-- The text of the file at a location with line ends unified. -/
def text? (tree : Tree) (place : Location) : Option Text :=
  ((tree.contents? place).bind decode?).map unifyLineEnds

theorem exists_find?_of_text? {tree : Tree} {place : Location} {t : Text}
    (h : tree.text? place = some t) : ∃ found, tree.find? place = some found := by
  cases hfound : tree.find? place with
  | some found => exact ⟨found, rfl⟩
  | none => simp [text?, contents?, hfound] at h

theorem text?_eq_of_leaf? {before after : Tree} {place : Location}
    (h : after.leaf? place = before.leaf? place) : after.text? place = before.text? place := by
  rw [text?, text?, contents?_eq, contents?_eq, h]

theorem return_notMem_of_text? {tree : Tree} {place : Location} {t : Text}
    (h : tree.text? place = some t) : '\r' ∉ t := by
  obtain ⟨u, -, rfl⟩ := Option.map_eq_some_iff.mp h
  exact return_notMem_unifyLineEnds u

/-- What was written is read back with line ends unified. -/
theorem text?_of_leaf?_eq_file {tree : Tree} {place : Location} {t : Text}
    (h : tree.leaf? place = some (file (encode t))) :
    tree.text? place = some (unifyLineEnds t) := by
  rw [text?, contents?_eq, h]
  simp [bytes?, decode?_encode]

theorem LinkFree.walkBy_eq_error_of_find? {tree : Tree} (h : tree.LinkFree)
    (follow : Location → List Text → Except FileFault Location) {here : Location}
    {names : List Text} {found : Tree} (hnames : ∀ name ∈ names, IsEntryName name)
    (hfound : tree.find? (here ++ names) = some found) {fault : FileFault}
    (hwalk : tree.walkBy follow here names = .error fault) : fault = .nameTooLong := by
  induction names generalizing here with
  | nil => simp [walkBy] at hwalk
  | cons name names ih =>
    have hname := hnames name List.mem_cons_self
    obtain ⟨inside, hinside⟩ := hasDirectory_of_append (List.cons_ne_nil name names) hfound
    cases hstep : tree.step here name with
    | error other =>
      rw [walkBy_of_step_error hstep, Except.error.injEq] at hwalk
      subst hwalk
      unfold step at hstep
      simp only [hinside, hname.isEmpty_eq, hname.ne_here, hname.ne_above, decide_false,
        Bool.or_self, Bool.false_eq_true, if_false] at hstep
      split_ifs at hstep with hlong
      · exact (Except.error.inj hstep).symm
      · split at hstep <;> cases hstep
    | ok landing =>
      obtain ⟨rfl, -⟩ := h.step_eq_ok hstep
      rw [walkBy_of_step_place hstep, Path.lexicalStep_of_isEntryName here hname] at hwalk
      refine ih (fun n hn => hnames n (List.mem_cons_of_mem name hn)) ?_ hwalk
      rw [List.append_assoc, List.singleton_append]
      exact hfound

/-- What is at the end of proper names is found unless a name is too long. -/
theorem LinkFree.lookup_of_find? {tree : Tree} (h : tree.LinkFree) {names : List Text}
    {found : Tree} (hnames : ∀ name ∈ names, IsEntryName name)
    (hfound : tree.find? names = some found) :
    tree.lookup [] names = .ok found ∨ tree.lookup [] names = .error .nameTooLong := by
  cases hwalk : tree.walk [] names with
  | ok place =>
    obtain ⟨rfl, -⟩ := h.walk_eq_ok hwalk
    refine .inl ((lookup_eq_ok_iff_walk [] names found).mpr ⟨_, hwalk, ?_⟩)
    rw [Path.foldl_lexicalStep [] names hnames]
    exact hfound
  | error fault =>
    have hstart : tree.find? ([] ++ names) = some found := hfound
    have hfault := h.walkBy_eq_error_of_find? _ hnames hstart hwalk
    refine .inr ?_
    unfold lookup
    rw [hwalk, hfault]
    rfl

end Tree

namespace Path

/-- A path from the root by proper names. -/
structure IsProper (p : Path) : Prop where
  absolute : p.isAbsolute = true
  names : ∀ name ∈ p.parts, IsEntryName name

/-- Whether the names of a path can be written down for a file. -/
def isWritable (p : Path) : Bool := !Workspace.hasNul p && !Workspace.isUnnamable p

/-- Neither the path nor one of its names is too long. -/
structure IsShort (p : Path) : Prop where
  path : p.isTooLong = false
  names : ∀ name ∈ p.parts, Tree.isTooLong name = false

theorem join_isPrefix {parts others : List Text} (h : parts <+: others) :
    join ['/'] parts <+: join ['/'] others := by
  obtain ⟨rest, rfl⟩ := h
  induction parts with
  | nil => exact List.nil_prefix
  | cons a parts ih =>
    cases parts with
    | nil => cases rest <;> simp [join, List.intercalate_cons_cons]
    | cons b parts =>
      simp only [join, List.cons_append, List.intercalate_cons_cons] at ih ⊢
      obtain ⟨later, hlater⟩ := ih
      exact ⟨later, by rw [← hlater]; simp⟩

/-- What lies above a short path is short. -/
theorem IsShort.of_prefix {p q : Path} (hp : p.IsShort) (hq : q.slashes = 1)
    (habsolute : p.isAbsolute = true) (hparts : q.parts <+: p.parts) : q.IsShort := by
  refine ⟨?_, fun name hname => hp.names name (hparts.subset hname)⟩
  have hslashes : 1 ≤ p.slashes := of_decide_eq_true habsolute
  have hsublist : q.text.Sublist p.text := by
    unfold text
    rw [hq, decide_eq_false (Nat.one_ne_zero), decide_eq_false (Nat.ne_of_gt hslashes)]
    exact (List.replicate_sublist_replicate '/' |>.mpr hslashes).append
      (join_isPrefix hparts).sublist
  have hlong := hp.path
  simp only [isTooLong, isTooLongText, String.utf8ByteSize_ofList, decide_eq_false_iff_not,
    Nat.not_lt] at hlong ⊢
  exact (String.utf8Len_le_of_sublist hsublist).trans hlong

end Path

namespace Workspace

variable {w : Workspace} {p : Path}

theorem startOf_eq_nil (hp : p.IsProper) : w.startOf p = [] := by
  rw [startOf, hp.absolute, if_pos rfl]

theorem apply_eq {α : Type} (hp : p.IsProper) (hshort : p.isTooLong = false)
    (operation : Tree → Location → List Text → Except FileFault α) :
    w.apply p operation = operation w.tree [] p.parts := by
  rw [apply, hshort, startOf_eq_nil hp]
  rfl

theorem SameFiles.apply_eq {v : Workspace} (h : w.SameFiles v) {α : Type} (p : Path)
    (operation : Tree → Location → List Text → Except FileFault α) :
    v.apply p operation = w.apply p operation := by
  unfold apply startOf
  rw [h.tree, h.directory]

theorem SameFiles.lookup_eq {v : Workspace} (h : w.SameFiles v) (p : Path) :
    v.lookup p = w.lookup p := by
  unfold lookup
  rw [h.apply_eq]

theorem apply_of_isTooLong {α : Type} (hlong : p.isTooLong = true)
    (operation : Tree → Location → List Text → Except FileFault α) :
    w.apply p operation = .error .nameTooLong := by
  rw [apply, hlong, if_pos rfl]

theorem lookup_of_isWritable (h : p.isWritable = true) :
    w.lookup p = w.apply p Tree.lookup := by
  simp only [Path.isWritable, Bool.and_eq_true, Bool.not_eq_true'] at h
  rw [lookup, h.1, h.2]
  rfl

theorem lookup_of_not_isWritable (h : p.isWritable = false) : w.lookup p = .error .missing := by
  have hrefused : (hasNul p || isUnnamable p) = true := by
    rw [Path.isWritable, ← Bool.not_or, Bool.not_eq_false'] at h
    exact h
  rw [lookup, hrefused, if_pos rfl]

/-- No path of a tree without links leads around in links. -/
theorem lookup_ne_linkLoop (h : w.tree.LinkFree) (p : Path) : w.lookup p ≠ .error .linkLoop := by
  unfold lookup apply
  split_ifs
  · exact fun heq => nomatch heq
  · exact fun heq => nomatch heq
  · intro heq
    rcases h.lookup_eq_error heq with hfault | hfault | ⟨hfault, -⟩ <;> cases hfault

end Workspace

namespace Action

variable {w : Workspace} {p : Path}

theorem reads_refuseUnusable (p : Path) : Reads (refuseUnusable p) := by
  unfold refuseUnusable
  exact .ite (.fatal _) (.ite (.fatal _) (.pure _))

theorem perform_refuseUnusable (h : p.isWritable = true) (w : Workspace) :
    (refuseUnusable p).perform w = (.ok (), w) := by
  simp only [Path.isWritable, Bool.and_eq_true, Bool.not_eq_true'] at h
  rw [refuseUnusable, h.1, h.2]
  rfl

theorem isWritable_of_refuseUnusable {after : Workspace}
    (h : (refuseUnusable p).perform w = (.ok (), after)) : p.isWritable = true := by
  unfold refuseUnusable at h
  simp only [Path.isWritable, Bool.and_eq_true, Bool.not_eq_true']
  split_ifs at h with hname hnul
  · cases h
  · cases h
  · exact ⟨eq_false_of_ne_true hnul, eq_false_of_ne_true hname⟩

section OnTree

variable {α : Type} (operation : Tree → Location → List Text → Except FileFault α)

theorem reads_onTree (p : Path) : Reads (onTree p operation) :=
  (reads_refuseUnusable p).bind fun _ =>
    .look (fun _ _ h => by rw [h.apply_eq]) fun _ => .pure _

theorem onTree_eq_ok_iff (w after : Workspace) (p : Path) (result : Except FileFault α) :
    (onTree p operation).perform w = (.ok result, after) ↔
      after = w ∧ p.isWritable = true ∧ w.apply p operation = result := by
  unfold onTree
  rw [(reads_refuseUnusable p).perform_bind_eq_ok_iff]
  constructor
  · rintro ⟨⟨⟩, hrefuse, h⟩
    cases h
    exact ⟨rfl, isWritable_of_refuseUnusable hrefuse, rfl⟩
  · rintro ⟨rfl, hwritable, rfl⟩
    exact ⟨(), perform_refuseUnusable hwritable after, rfl⟩

end OnTree

theorem reads_find? (p : Path) : Reads (find? p) := by
  refine Reads.look (fun w v h => by rw [h.lookup_eq]) fun w => ?_
  split
  · exact .pure _
  · exact .fatal _
  · exact .pure _

theorem reads_isPresent (p : Path) : Reads (isPresent p) := (reads_find? p).bind fun _ => .pure _

theorem reads_isDirectory (p : Path) : Reads (isDirectory p) :=
  (reads_find? p).bind fun _ => .pure _

theorem reads_isFile (p : Path) : Reads (isFile p) := (reads_find? p).bind fun _ => .pure _

theorem reads_readTextOr (onError : FileError → Reported) (p : Path) :
    Reads (readTextOr onError p) := by
  refine (reads_onTree _ p).bind fun result => ?_
  split
  · exact .report _
  · split
    · exact .pure _
    · exact .fatal _

theorem reads_readText (p : Path) : Reads (readText p) := reads_readTextOr _ p

/-- What is read lies where the names of the path lead. -/
theorem readTextOr_eq_ok (hw : w.tree.LinkFree) (hp : p.isAbsolute = true)
    {onError : FileError → Reported} {t : Text} {after : Workspace}
    (h : (readTextOr onError p).perform w = (.ok t, after)) :
    after = w ∧ p.isWritable = true ∧ p.isTooLong = false ∧
      (∀ name ∈ p.parts, IsEntryName name → Tree.isTooLong name = false) ∧
      w.tree.text? p.place = some t := by
  unfold readTextOr at h
  obtain ⟨result, hresult, h⟩ := ((reads_onTree _ p).perform_bind_eq_ok_iff _ _ _).mp h
  obtain ⟨-, hwritable, happly⟩ := (onTree_eq_ok_iff _ w w p result).mp hresult
  rw [Workspace.apply, Workspace.startOf, hp, if_pos rfl] at happly
  cases result with
  | error fault => cases h
  | ok bytes =>
    split_ifs at happly with hlong
    unfold Tree.readFile at happly
    cases hlookup : w.tree.lookup [] p.parts with
    | error fault => simp [hlookup, bind, Except.bind] at happly
    | ok found =>
      obtain ⟨place, hwalk, hfound⟩ := (Tree.lookup_eq_ok_iff_walk [] p.parts found).mp hlookup
      obtain ⟨rfl, -, hnames⟩ := hw.walk_eq_ok hwalk
      cases hbytes : found.bytes? with
      | none => simp [hlookup, hbytes, bind, Except.bind] at happly
      | some others =>
        simp only [hlookup, hbytes, bind, Except.bind, pure, Except.pure, Except.ok.injEq] at happly
        subst happly
        cases hdecode : decode? others with
        | none =>
          simp only [hdecode] at h
          cases h
        | some u =>
          simp only [hdecode] at h
          cases h
          refine ⟨rfl, hwritable, eq_false_of_ne_true hlong, hnames, ?_⟩
          simp [Tree.text?, Tree.contents?, Path.place, hfound, hbytes, hdecode]

/-- A file is read just when its path can be written down, is short enough and leads to a text. -/
theorem readTextOr_eq_ok_iff (hw : w.tree.LinkFree) (hp : p.IsProper)
    (onError : FileError → Reported) (t : Text) (after : Workspace) :
    (readTextOr onError p).perform w = (.ok t, after) ↔
      after = w ∧ p.isWritable = true ∧ p.IsShort ∧ w.tree.text? p.parts = some t := by
  constructor
  · intro h
    obtain ⟨rfl, hwritable, hlong, hnames, htext⟩ := readTextOr_eq_ok hw hp.absolute h
    rw [Path.place_eq p hp.names] at htext
    exact ⟨rfl, hwritable,
      ⟨hlong, fun name hname => hnames name hname (hp.names name hname)⟩, htext⟩
  · rintro ⟨rfl, hwritable, hshort, htext⟩
    obtain ⟨u, hu, rfl⟩ := Option.map_eq_some_iff.mp htext
    obtain ⟨bytes, hbytes, hdecode⟩ := Option.bind_eq_some_iff.mp hu
    obtain ⟨found, hfound, hread⟩ := Option.bind_eq_some_iff.mp hbytes
    have hlookup := (hw.lookup_eq_ok_iff hp.names found).mpr ⟨hfound, hshort.names⟩
    unfold readTextOr
    rw [(reads_onTree _ p).perform_bind_eq_ok_iff]
    refine ⟨.ok bytes, (onTree_eq_ok_iff _ _ _ p _).mpr ⟨rfl, hwritable, ?_⟩, ?_⟩
    · rw [Workspace.apply_eq hp hshort.path, Tree.readFile, hlookup]
      simp only [hread, bind, Except.bind, pure, Except.pure]
    · simp only [hdecode]
      rfl

theorem readText_eq_ok_iff (hw : w.tree.LinkFree) (hp : p.IsProper) (t : Text)
    (after : Workspace) :
    (readText p).perform w = (.ok t, after) ↔
      after = w ∧ p.isWritable = true ∧ p.IsShort ∧ w.tree.text? p.parts = some t :=
  readTextOr_eq_ok_iff hw hp _ t after

/-- Workspaces that show the same text at a path read the same there. -/
theorem readTextOr_congr {v : Workspace} (hw : w.tree.LinkFree) (hv : v.tree.LinkFree)
    (hp : p.IsProper) (htext : v.tree.text? p.parts = w.tree.text? p.parts)
    {onError : FileError → Reported} {t : Text}
    (h : (readTextOr onError p).perform w = (.ok t, w)) :
    (readTextOr onError p).perform v = (.ok t, v) := by
  obtain ⟨-, hwritable, hshort, hfound⟩ := (readTextOr_eq_ok_iff hw hp onError t w).mp h
  exact (readTextOr_eq_ok_iff hv hp onError t v).mpr ⟨rfl, hwritable, hshort, htext.trans hfound⟩

theorem readText_congr {v : Workspace} (hw : w.tree.LinkFree) (hv : v.tree.LinkFree)
    (hp : p.IsProper) (htext : v.tree.text? p.parts = w.tree.text? p.parts) {t : Text}
    (h : (readText p).perform w = (.ok t, w)) : (readText p).perform v = (.ok t, v) :=
  readTextOr_congr hw hv hp htext h

theorem find?_of_lookup {found : Tree} (h : w.lookup p = .ok found) :
    (find? p).perform w = (.ok (some found), w) := by
  unfold find?
  rw [perform_bind_of_ok _ (perform_get w), h]
  rfl

theorem find?_of_lookup_error {fault : FileFault} (h : w.lookup p = .error fault)
    (hfault : fault ≠ .nameTooLong) : (find? p).perform w = (.ok none, w) := by
  unfold find?
  rw [perform_bind_of_ok _ (perform_get w), h]
  cases fault with
  | nameTooLong => exact absurd rfl hfault
  | _ => rfl

theorem find?_of_nameTooLong (h : w.lookup p = .error .nameTooLong) :
    (find? p).perform w = (.error (.fatal (.file .nameTooLong)), w) := by
  unfold find?
  rw [perform_bind_of_ok _ (perform_get w), h]
  rfl

theorem lookup_of_find? {found : Tree} {after : Workspace}
    (h : (find? p).perform w = (.ok (some found), after)) : w.lookup p = .ok found := by
  cases hresult : w.lookup p with
  | ok other =>
    rw [find?_of_lookup hresult] at h
    cases h
    rfl
  | error fault =>
    by_cases hlong : fault = .nameTooLong
    · rw [hlong] at hresult
      rw [find?_of_nameTooLong hresult] at h
      cases h
    · rw [find?_of_lookup_error hresult hlong] at h
      cases h

/-- A path to a directory still leads to one where all directories have stayed. -/
theorem isDirectory_mono {v : Workspace} (hw : w.tree.LinkFree) (hv : v.tree.LinkFree)
    (hdirectory : v.directory = w.directory)
    (hdirectories : ∀ place, w.tree.HasDirectory place → v.tree.HasDirectory place)
    (h : (isDirectory p).perform w = (.ok true, w)) :
    (isDirectory p).perform v = (.ok true, v) := by
  obtain ⟨top, htop, hfound⟩ := ((reads_find? p).perform_bind_eq_ok_iff _ _ _).mp h
  obtain ⟨found, rfl, hinside⟩ := (Option.any_eq_true _ _).mp
    (Except.ok.inj (congrArg Prod.fst hfound))
  obtain ⟨inside, rfl⟩ : ∃ inside, found = .directory inside := by
    cases found with
    | directory inside => exact ⟨inside, rfl⟩
    | _ => cases hinside
  have hlookup := lookup_of_find? htop
  unfold Workspace.lookup Workspace.apply at hlookup
  split_ifs at hlookup with hrefused hlong
  obtain ⟨later, hlater⟩ := hw.lookup_mono hv hdirectories hlookup
  have hlookup' : v.lookup p = .ok (.directory later) := by
    unfold Workspace.lookup Workspace.apply
    rw [if_neg hrefused, if_neg hlong, Workspace.startOf, hdirectory]
    exact hlater
  unfold isDirectory
  rw [perform_bind_of_ok _ (find?_of_lookup hlookup')]
  rfl

/-- What is found lies at the end of the path. -/
theorem find?_eq_some (hw : w.tree.LinkFree) (hp : p.IsProper) {found : Tree}
    {after : Workspace} (h : (find? p).perform w = (.ok (some found), after)) :
    p.isWritable = true ∧ p.IsShort ∧ w.tree.find? p.parts = some found := by
  have hlookup := lookup_of_find? h
  have hwritable : p.isWritable = true := by
    by_contra hnot
    rw [Workspace.lookup_of_not_isWritable (eq_false_of_ne_true hnot)] at hlookup
    cases hlookup
  have hpath : p.isTooLong = false := by
    by_contra hlong
    rw [Workspace.lookup_of_isWritable hwritable,
      Workspace.apply_of_isTooLong (eq_true_of_ne_false hlong)] at hlookup
    cases hlookup
  rw [Workspace.lookup_of_isWritable hwritable, Workspace.apply_eq hp hpath] at hlookup
  obtain ⟨hfound, hnames⟩ := (hw.lookup_eq_ok_iff hp.names found).mp hlookup
  exact ⟨hwritable, ⟨hpath, hnames⟩, hfound⟩

/-- What a path that is short enough leads to. -/
theorem find?_of_isShort (hw : w.tree.LinkFree) (hp : p.IsProper)
    (hwritable : p.isWritable = true) (hshort : p.IsShort) :
    (find? p).perform w = (.ok (w.tree.find? p.parts), w) := by
  have hlookup : w.lookup p = w.tree.lookup [] p.parts := by
    rw [Workspace.lookup_of_isWritable hwritable, Workspace.apply_eq hp hshort.path]
  cases hresult : w.tree.lookup [] p.parts with
  | ok found =>
    rw [((hw.lookup_eq_ok_iff hp.names found).mp hresult).1]
    exact find?_of_lookup (hlookup.trans hresult)
  | error fault =>
    have hnone : w.tree.find? p.parts = none := by
      by_contra hsome
      obtain ⟨found, hfound⟩ := Option.ne_none_iff_exists'.mp hsome
      rw [(hw.lookup_eq_ok_iff hp.names found).mpr ⟨hfound, hshort.names⟩] at hresult
      cases hresult
    rw [hnone]
    refine find?_of_lookup_error (hlookup.trans hresult) ?_
    rintro rfl
    rcases hw.lookup_eq_error hresult with hfault | hfault | ⟨-, name, hname, hlong⟩
    · cases hfault
    · cases hfault
    · rw [hshort.names name hname] at hlong
      cases hlong

theorem find?_of_not_isWritable (h : p.isWritable = false) :
    (find? p).perform w = (.ok none, w) :=
  find?_of_lookup_error (Workspace.lookup_of_not_isWritable h) (by decide)

/-- Looking succeeds for what is there only if the path is short enough. -/
theorem isShort_of_find? (hw : w.tree.LinkFree) (hp : p.IsProper) (hwritable : p.isWritable = true)
    {found : Tree} (hfound : w.tree.find? p.parts = some found) {result : Option Tree}
    {after : Workspace} (h : (find? p).perform w = (.ok result, after)) : p.IsShort := by
  have hlookup := Workspace.lookup_of_isWritable (w := w) hwritable
  have hpath : p.isTooLong = false := by
    by_contra hlong
    rw [Workspace.apply_of_isTooLong (eq_true_of_ne_false hlong)] at hlookup
    rw [find?_of_nameTooLong hlookup] at h
    cases h
  rw [Workspace.apply_eq hp hpath] at hlookup
  rcases hw.lookup_of_find? hp.names hfound with hok | herror
  · exact ⟨hpath, ((hw.lookup_eq_ok_iff hp.names found).mp hok).2⟩
  · rw [find?_of_nameTooLong (hlookup.trans herror)] at h
    cases h

end Action

end NativeGlue
