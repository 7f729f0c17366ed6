import Mathlib.Data.List.Induction
import NativeGlue.Proofs.Files.Resolution

/-!
Writing files of a tree without links. The directories of a file are made as far as they are
missing, which leaves all files as they are; then the file alone is changed. What goes wrong on the
way has no message.
-/

namespace NativeGlue

open Text

namespace Tree

variable {tree after : Tree}

theorem extends_put_empty (tree : Tree) (place : Location) (h : tree.Holds place)
    (hplace : tree.find? place = none) :
    Extends (fun _ => False) tree (tree.put place empty) := by
  have hdirectory : ¬ tree.HasDirectory place := by
    rintro ⟨inside, hinside⟩
    rw [hplace] at hinside
    cases hinside
  have hput := tree.extends_put empty place h hdirectory .empty
  exact ⟨hput.directories, fun other _ => tree.leaf?_put_empty place other h hplace, hput.linkFree⟩

/-- Links stay where nothing is written. -/
theorem Extends.find?_link {written : Location → Prop} (h : Extends written tree after)
    {place : Location} (hplace : ¬ written place) (target : Text) :
    after.find? place = some (link target) ↔ tree.find? place = some (link target) := by
  have hleaf (t : Tree) :
      t.find? place = some (link target) ↔ t.leaf? place = some (link target) := by
    rw [leaf?_eq_some_iff]
    exact (and_iff_left rfl).symm
  rw [hleaf, hleaf, h.leaves place hplace]

theorem Extends.isOpen {written : Location → Prop} (h : Extends written tree after)
    {place : Location} (hplace : ¬ written place) (hopen : tree.IsOpen place) :
    after.IsOpen place :=
  ⟨hopen.holds.imp_right (h.directories _), fun target hlink =>
    hopen.no_link target ((h.find?_link hplace target).mp hlink)⟩

theorem grows_put_empty (tree : Tree) (place target : Location) (h : tree.Holds place)
    (hplace : tree.find? place = none) (htarget : place <+: target)
    (hnames : ∀ name ∈ place, IsEntryName name) :
    Grows (· = target) tree (tree.put place empty) where
  toExtends := (tree.extends_put_empty place h hplace).mono fun _ hfalse => hfalse.elim
  regular htree := by
    have hdirectory : ¬ tree.HasDirectory place := by
      rintro ⟨inside, hinside⟩
      rw [hplace] at hinside
      cases hinside
    exact (tree.grows_put empty place h hdirectory .empty hnames).regular htree
  fresh other hother :=
    (tree.isSome_of_isSome_put empty place h (fun _ hrest => IsSingle.empty.find? hrest)
      hother).imp_right fun heq => ⟨target, rfl, by rw [heq]; exact htarget⟩

theorem foldl_lexicalStep_stripped (here : Location) (names : List Text) :
    ((names.reverse.dropWhile List.isEmpty).reverse).foldl Path.lexicalStep here =
      names.foldl Path.lexicalStep here := by
  induction names using List.reverseRecOn with
  | nil => rfl
  | append_singleton names name ih =>
    rw [List.reverse_append, List.reverse_singleton, List.singleton_append, List.dropWhile_cons]
    split_ifs with hempty
    · rw [ih, List.foldl_append, List.foldl_cons, List.foldl_nil]
      simp [Path.lexicalStep, hempty]
    · rw [List.reverse_cons, List.reverse_reverse]

/-- A directory is made where nothing is. -/
theorem makeDirectory_eq_ok {here : Location} {names : List Text}
    (hmade : tree.makeDirectory here names = .ok after) :
    ∃ place, tree.walkToLast here (names.reverse.dropWhile List.isEmpty).reverse = .ok place ∧
      tree.find? place = none ∧ after = tree.put place empty := by
  unfold makeDirectory at hmade
  cases hwalk : tree.walkToLast here (names.reverse.dropWhile List.isEmpty).reverse with
  | error fault => simp [hwalk, bind, Except.bind] at hmade
  | ok place =>
    simp only [hwalk, bind, Except.bind, pure, Except.pure] at hmade
    split at hmade
    · cases hmade
    · next hnone => exact ⟨place, rfl, hnone, (Except.ok.inj hmade).symm⟩

theorem holds_of_walkToLast {here place : Location} {names : List Text} (hhere : tree.Holds here)
    (hwalk : tree.walkToLast here names = .ok place) : tree.Holds place := by
  unfold walkToLast at hwalk
  cases hlast : names.getLast? with
  | none =>
    simp only [hlast, pure, Except.pure, Except.ok.injEq] at hwalk
    exact hwalk ▸ hhere
  | some last =>
    cases hparent : tree.walk here names.dropLast with
    | error fault => simp [hlast, hparent, bind, Except.bind] at hwalk
    | ok parent =>
      cases hstep : tree.step parent last with
      | error fault => simp [hlast, hparent, hstep, bind, Except.bind] at hwalk
      | ok landing =>
        obtain ⟨hdirectory, hnext, -⟩ := isOpen_of_step hstep
        simp only [hlast, hparent, hstep, bind, Except.bind, pure, Except.pure] at hwalk
        cases landing with
        | place next => exact Except.ok.inj hwalk ▸ (hnext next rfl).holds
        | link base target =>
          rw [← Except.ok.inj hwalk, holds_concat_iff]
          exact hdirectory

theorem LinkFree.walkToLast_eq_ok (h : tree.LinkFree) {place : Location} {names : List Text}
    (hwalk : tree.walkToLast [] names = .ok place) : place = names.foldl Path.lexicalStep [] := by
  unfold walkToLast at hwalk
  rcases List.eq_nil_or_concat names with rfl | ⟨above, last, rfl⟩
  · exact (Except.ok.inj hwalk).symm
  · rw [List.concat_eq_append] at hwalk ⊢
    rw [List.getLast?_concat, List.dropLast_concat] at hwalk
    rw [List.foldl_append, List.foldl_cons, List.foldl_nil]
    cases hparent : tree.walk [] above with
    | error fault => simp [hparent, bind, Except.bind] at hwalk
    | ok parent =>
      obtain ⟨rfl, -⟩ := h.walk_eq_ok hparent
      cases hstep : tree.step (above.foldl Path.lexicalStep []) last with
      | error fault => simp [hparent, hstep, bind, Except.bind] at hwalk
      | ok landing =>
        obtain ⟨rfl, -⟩ := h.step_eq_ok hstep
        simp only [hparent, hstep, bind, Except.bind, pure, Except.pure] at hwalk
        exact (Except.ok.inj hwalk).symm

theorem LinkFree.makeDirectory_eq_ok (h : tree.LinkFree) {names : List Text}
    (hmade : tree.makeDirectory [] names = .ok after) :
    after = tree.put (names.foldl Path.lexicalStep []) empty ∧
      tree.find? (names.foldl Path.lexicalStep []) = none ∧
      tree.Holds (names.foldl Path.lexicalStep []) := by
  obtain ⟨place, hwalk, hnone, rfl⟩ := Tree.makeDirectory_eq_ok hmade
  have hholds := holds_of_walkToLast (.inl rfl) hwalk
  obtain rfl := h.walkToLast_eq_ok hwalk
  rw [foldl_lexicalStep_stripped] at hnone hholds ⊢
  exact ⟨rfl, hnone, hholds⟩

/-- A file is written where the walk ends if no directory is there; what is written to the device
is forgotten. -/
theorem writeFile_eq_ok {here : Location} {names : List Text} {bytes : Bytes}
    (hwritten : tree.writeFile here names bytes = .ok after) :
    ∃ place, tree.walk here names = .ok place ∧ ¬ tree.HasDirectory place ∧
      (after = tree.put place (file bytes) ∨ after = tree ∧ tree.find? place = some null) := by
  unfold writeFile at hwritten
  cases hwalk : tree.walk here names with
  | error fault => simp [hwalk, bind, Except.bind] at hwritten
  | ok place =>
    simp only [hwalk, bind, Except.bind, pure, Except.pure] at hwritten
    refine ⟨place, rfl, ?_, ?_⟩
    · rintro ⟨inside, hinside⟩
      simp [hinside] at hwritten
    · split at hwritten
      · cases hwritten
      · next hnull => exact .inr ⟨(Except.ok.inj hwritten).symm, hnull⟩
      · exact .inl (Except.ok.inj hwritten).symm

theorem LinkFree.writeFile_eq_ok (h : tree.LinkFree) {names : List Text} {bytes : Bytes}
    (hwritten : tree.writeFile [] names bytes = .ok after) :
    tree.Holds (names.foldl Path.lexicalStep []) ∧
      ¬ tree.HasDirectory (names.foldl Path.lexicalStep []) ∧
      (∀ name ∈ names, IsEntryName name → isTooLong name = false) ∧
      (after = tree.put (names.foldl Path.lexicalStep []) (file bytes) ∨
        after = tree ∧ tree.find? (names.foldl Path.lexicalStep []) = some null) := by
  obtain ⟨place, hwalk, hdirectory, hafter⟩ := Tree.writeFile_eq_ok hwritten
  have hopen := isOpen_of_walk h.isOpen_nil hwalk
  obtain ⟨rfl, -, hshort⟩ := h.walk_eq_ok hwalk
  exact ⟨hopen.holds, hdirectory, hshort, hafter⟩

end Tree

namespace Action

variable {w after : Workspace} {p : Path}

theorem neverReports_onTree {α : Type} (p : Path)
    (operation : Tree → Location → List Text → Except FileFault α) :
    NeverReports (onTree p operation) :=
  (neverReports_refuseUnusable p).bind fun _ => .bind .get fun _ => .pure _

theorem neverReports_find? (p : Path) : NeverReports (find? p) := by
  refine NeverReports.bind .get fun w => ?_
  split
  · exact .pure _
  · exact .fatal _
  · exact .pure _

theorem neverReports_makeDirectory (p : Path) : NeverReports (makeDirectory p) := by
  refine (neverReports_onTree p _).bind fun result => ?_
  split
  · exact .change _
  · exact ((neverReports_find? p).bind fun _ => .pure _).bind fun _ => .ite (.pure _) (.fatal _)

theorem neverReports_makeDirectoriesTo (slashes : Nat) (parts : List Text) (missing count : Nat) :
    NeverReports (makeDirectoriesTo slashes parts missing count) := by
  induction count generalizing missing with
  | zero => exact neverReports_makeDirectory _
  | succ count ih =>
    rw [makeDirectoriesTo]
    refine (neverReports_onTree _ _).bind fun result => ?_
    have hmake := (ih (missing + 1)).bind fun _ =>
      neverReports_makeDirectory ⟨slashes, parts.take (count + 1)⟩
    split
    · exact .ite ((NeverReports.fatal _).bind fun _ => hmake) hmake
    · exact neverReports_makeDirectory _

theorem neverReports_writeBytes (p : Path) (bytes : Bytes) : NeverReports (writeBytes p bytes) := by
  refine (neverReports_onTree p _).bind fun result => ?_
  split
  · exact .change _
  · exact .fatal _

theorem neverReports_writeText (p : Path) (t : Text) : NeverReports (writeText p t) :=
  (neverReports_makeDirectoriesTo _ _ _ _).bind fun _ => neverReports_writeBytes p _

theorem reads_isDirectory_of_error {fault : FileFault} :
    Reads (do if ← isDirectory p then Pure.pure () else fatal (.file fault)) :=
  (reads_isDirectory p).bind fun _ => .ite (.pure _) (.fatal _)

/-- Making a directory changes the tree, if anything. -/
theorem makeDirectory_eq_ok (h : (makeDirectory p).perform w = (.ok (), after)) :
    after = w ∨ ∃ tree, w.tree.makeDirectory (w.startOf p) p.parts = .ok tree ∧
      after = { w with tree := tree } := by
  unfold makeDirectory at h
  obtain ⟨result, hresult, h⟩ := ((reads_onTree _ p).perform_bind_eq_ok_iff w after ()).mp h
  obtain ⟨-, -, happly⟩ := (onTree_eq_ok_iff _ w w p result).mp hresult
  cases result with
  | error fault => exact .inl ((reads_isDirectory_of_error).after_eq h)
  | ok tree =>
    unfold Workspace.apply at happly
    split_ifs at happly
    cases h
    exact .inr ⟨tree, happly, rfl⟩

/-- Making a directory makes that one, if anything. -/
theorem makeDirectory_eq_ok_of_linkFree (hw : w.tree.LinkFree) (hp : p.isAbsolute = true)
    (h : (makeDirectory p).perform w = (.ok (), after)) :
    after = w ∨ after = { w with tree := w.tree.put p.place .empty } ∧
      w.tree.find? p.place = none ∧ w.tree.Holds p.place := by
  refine (makeDirectory_eq_ok h).imp_right ?_
  rintro ⟨tree, hmade, rfl⟩
  rw [Workspace.startOf, hp, if_pos rfl] at hmade
  obtain ⟨rfl, hnone, hholds⟩ := hw.makeDirectory_eq_ok hmade
  exact ⟨rfl, hnone, hholds⟩

/-- What relates every workspace to the one after a directory was made relates the workspaces
before and after all directories of a path were. -/
theorem makeDirectoriesTo_induction (relation : Workspace → Workspace → Prop)
    (htrans : ∀ {x y z}, relation x y → relation y z → relation x z) (slashes : Nat)
    (parts : List Text) (hstep : ∀ count x y,
      (makeDirectory ⟨slashes, parts.take count⟩).perform x = (.ok (), y) → relation x y)
    (missing count : Nat) (w after : Workspace)
    (h : (makeDirectoriesTo slashes parts missing count).perform w = (.ok (), after)) :
    relation w after := by
  induction count generalizing missing w after with
  | zero => exact hstep 0 w after h
  | succ count ih =>
    rw [makeDirectoriesTo] at h
    obtain ⟨result, -, h⟩ := ((reads_onTree _ _).perform_bind_eq_ok_iff w after ()).mp h
    have hmake : ∀ {x y}, ((makeDirectoriesTo slashes parts (missing + 1) count) >>= fun _ =>
        makeDirectory ⟨slashes, parts.take (count + 1)⟩).perform x = (.ok (), y) →
        relation x y := by
      intro x y hxy
      obtain ⟨⟨⟩, between, hfirst, hlast⟩ := (perform_bind_eq_ok_iff _ _ x y ()).mp hxy
      exact htrans (ih _ x between hfirst) (hstep (count + 1) between y hlast)
    split at h
    · split_ifs at h
      · cases h
      · exact hmake h
    · exact hstep (count + 1) w after h

theorem makeDirectories_extends (hstart : w.tree.IsOpen (w.startOf p))
    (h : (makeDirectories p).perform w = (.ok (), after)) :
    after.directory = w.directory ∧ Tree.Extends (fun _ => False) w.tree after.tree := by
  refine makeDirectoriesTo_induction (fun x y => x.tree.IsOpen (x.startOf p) →
      y.directory = x.directory ∧ Tree.Extends (fun _ => False) x.tree y.tree)
    ?_ p.slashes p.parts ?_ 0 p.parts.length w after h hstart
  · intro x y z hxy hyz hx
    obtain ⟨hdirectory, hextends⟩ := hxy hx
    have hy : y.tree.IsOpen (y.startOf p) := by
      have hsame : y.startOf p = x.startOf p := by rw [Workspace.startOf, hdirectory]; rfl
      rw [hsame]
      exact hextends.isOpen id hx
    obtain ⟨hdirectory', hextends'⟩ := hyz hy
    exact ⟨hdirectory'.trans hdirectory, hextends.trans hextends'⟩
  · intro count x y hmade hx
    rcases makeDirectory_eq_ok hmade with rfl | ⟨tree, htree, rfl⟩
    · exact ⟨rfl, .refl _ _⟩
    · obtain ⟨place, hwalk, hnone, rfl⟩ := Tree.makeDirectory_eq_ok htree
      exact ⟨rfl, x.tree.extends_put_empty _ (Tree.holds_of_walkToLast hx.holds hwalk) hnone⟩

theorem makeDirectories_grows (hw : w.tree.LinkFree) (hp : p.IsProper) {target : Location}
    (htarget : p.parts <+: target) (h : (makeDirectories p).perform w = (.ok (), after)) :
    after.directory = w.directory ∧ Tree.Grows (· = target) w.tree after.tree := by
  refine makeDirectoriesTo_induction (fun x y => x.tree.LinkFree →
      y.directory = x.directory ∧ Tree.Grows (· = target) x.tree y.tree)
    ?_ p.slashes p.parts ?_ 0 p.parts.length w after h hw
  · intro x y z hxy hyz hx
    obtain ⟨hdirectory, hgrows⟩ := hxy hx
    obtain ⟨hdirectory', hgrows'⟩ := hyz (hgrows.linkFree hx)
    exact ⟨hdirectory'.trans hdirectory, hgrows.trans hgrows'⟩
  · intro count x y hmade hx
    have hnames : ∀ name ∈ p.parts.take count, IsEntryName name := fun name hname =>
      hp.names name (List.mem_of_mem_take hname)
    have hplace : Path.place ⟨p.slashes, p.parts.take count⟩ = p.parts.take count :=
      Path.place_eq _ hnames
    rcases makeDirectory_eq_ok_of_linkFree (p := ⟨p.slashes, p.parts.take count⟩) hx hp.absolute
      hmade with rfl | ⟨rfl, hnone, hholds⟩
    · exact ⟨rfl, .refl _ _⟩
    · rw [hplace] at hnone hholds ⊢
      exact ⟨rfl, x.tree.grows_put_empty _ target hholds hnone
        ((List.take_prefix count p.parts).trans htarget) hnames⟩

theorem writeBytes_eq_ok {bytes : Bytes} (h : (writeBytes p bytes).perform w = (.ok (), after)) :
    p.isWritable = true ∧ p.isTooLong = false ∧
      ∃ tree, w.tree.writeFile (w.startOf p) p.parts bytes = .ok tree ∧
        after = { w with tree := tree } := by
  unfold writeBytes changeTree at h
  obtain ⟨result, hresult, h⟩ := ((reads_onTree _ p).perform_bind_eq_ok_iff w after ()).mp h
  obtain ⟨-, hwritable, happly⟩ := (onTree_eq_ok_iff _ w w p result).mp hresult
  cases result with
  | error fault => cases h
  | ok tree =>
    unfold Workspace.apply at happly
    split_ifs at happly with hlong
    cases h
    exact ⟨hwritable, eq_false_of_ne_true hlong, tree, happly, rfl⟩

theorem writeBytes_eq_ok_of_linkFree (hw : w.tree.LinkFree) (hp : p.isAbsolute = true)
    {bytes : Bytes} (h : (writeBytes p bytes).perform w = (.ok (), after)) :
    p.isWritable = true ∧ p.isTooLong = false ∧
      (∀ name ∈ p.parts, IsEntryName name → Tree.isTooLong name = false) ∧
      w.tree.Holds p.place ∧ ¬ w.tree.HasDirectory p.place ∧
      (after = { w with tree := w.tree.put p.place (.file bytes) } ∨
        after = w ∧ w.tree.find? p.place = some .null) := by
  obtain ⟨hwritable, hlong, tree, hwritten, rfl⟩ := writeBytes_eq_ok h
  rw [Workspace.startOf, hp, if_pos rfl] at hwritten
  obtain ⟨hholds, hdirectory, hshort, hafter⟩ := hw.writeFile_eq_ok hwritten
  refine ⟨hwritable, hlong, hshort, hholds, hdirectory, ?_⟩
  rcases hafter with rfl | ⟨rfl, hnull⟩
  · exact .inl rfl
  · exact .inr ⟨rfl, hnull⟩

/-- After a text was written to a path, it is found there, unless the path leads to the device;
every other file is what it was. -/
theorem writeText_extends (hw : w.tree.LinkFree) (hp : p.isAbsolute = true) {t : Text}
    (h : (writeText p t).perform w = (.ok (), after)) :
    after.directory = w.directory ∧ Tree.Extends (· = p.place) w.tree after.tree ∧
      (after.tree.leaf? p.place = some (.file (encode t)) ∨
        after.tree.leaf? p.place = some .null ∧ w.tree.leaf? p.place = some .null) := by
  unfold writeText at h
  obtain ⟨⟨⟩, between, hmade, hwritten⟩ := (perform_bind_eq_ok_iff _ _ w after ()).mp h
  have hstart : w.tree.IsOpen (w.startOf p.parent) := by
    rw [Workspace.startOf, show p.parent.isAbsolute = true from hp, if_pos rfl]
    exact hw.isOpen_nil
  obtain ⟨hdirectory, hextends⟩ := makeDirectories_extends hstart hmade
  obtain ⟨-, -, -, hholds, hnone, hafter⟩ :=
    writeBytes_eq_ok_of_linkFree (hextends.linkFree hw) hp hwritten
  have hextends' : Tree.Extends (· = p.place) w.tree between.tree :=
    hextends.mono fun _ hfalse => hfalse.elim
  rcases hafter with rfl | ⟨rfl, hnull⟩
  · refine ⟨hdirectory, hextends'.trans (between.tree.extends_put _ _ hholds hnone (.file _)), ?_⟩
    refine .inl ((Tree.leaf?_eq_some_iff _ _ _).mpr ⟨?_, rfl⟩)
    exact between.tree.find?_put_self _ _ hholds
  · have hleaf : after.tree.leaf? p.place = some .null :=
      (Tree.leaf?_eq_some_iff _ _ _).mpr ⟨hnull, rfl⟩
    exact ⟨hdirectory, hextends', .inr ⟨hleaf, (hextends.leaves p.place id).symm.trans hleaf⟩⟩

/-- A text is written only to a path that can be written down and is short enough; what is new
lies on the way to it. -/
theorem writeText_grows (hw : w.tree.LinkFree) (hp : p.IsProper) {t : Text}
    (h : (writeText p t).perform w = (.ok (), after)) :
    p.isWritable = true ∧ p.IsShort ∧ Tree.Grows (· = p.parts) w.tree after.tree := by
  unfold writeText at h
  obtain ⟨⟨⟩, between, hmade, hwritten⟩ := (perform_bind_eq_ok_iff _ _ w after ()).mp h
  have hparent : p.parent.IsProper :=
    ⟨hp.absolute, fun name hname => hp.names name (List.dropLast_subset _ hname)⟩
  obtain ⟨-, hgrows⟩ :=
    makeDirectories_grows hw hparent (List.dropLast_prefix p.parts) hmade
  obtain ⟨hwritable, hshort, hnames, hholds, hnone, hafter⟩ :=
    writeBytes_eq_ok_of_linkFree (hgrows.linkFree hw) hp.absolute hwritten
  refine ⟨hwritable, ⟨hshort, fun name hname => hnames name hname (hp.names name hname)⟩, ?_⟩
  rw [Path.place_eq p hp.names] at hholds hnone hafter
  rcases hafter with rfl | ⟨rfl, -⟩
  · exact hgrows.trans (between.tree.grows_put _ _ hholds hnone (.file _) hp.names)
  · exact hgrows

end Action

end NativeGlue
