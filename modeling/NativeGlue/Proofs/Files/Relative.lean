import NativeGlue.Proofs.Files.Resolution
import NativeGlue.Proofs.Text.Splitting

/-!
Paths as they are reported. A resolved path is written so that it can be read again, relative to a
directory when it lies below it and from the root otherwise. Taken from the directory, the text
leads back to the path.
-/

namespace NativeGlue

open Text

namespace Path

theorem eq_append_of_dropParts? {base parts rest : List Text}
    (h : dropParts? base parts = some rest) : parts = base ++ rest := by
  fun_induction dropParts? base parts with
  | case1 => cases h; rfl
  | case2 => cases h
  | case3 base p parts ih => rw [ih h, List.cons_append]
  | case4 => cases h

theorem dropParts?_append (base rest : List Text) : dropParts? base (base ++ rest) = some rest := by
  induction base with
  | nil => rfl
  | cons b base ih => rw [List.cons_append, dropParts?, if_pos rfl, ih]

theorem takeWhile_join_slash {parts : List Text} (h : ∀ name ∈ parts, IsEntryName name) :
    (join ['/'] parts).takeWhile (· == '/') = [] := by
  cases parts with
  | nil => rfl
  | cons name parts =>
    have hname := h name List.mem_cons_self
    obtain ⟨c, rest, rfl⟩ := List.exists_cons_of_ne_nil hname.ne_nil
    have hc : (c == '/') = false :=
      beq_false_of_ne fun heq => hname.slash_notMem (heq ▸ List.mem_cons_self)
    cases parts with
    | nil => simp [join, hc]
    | cons next parts => simp [join_cons_cons, hc]

/-- A path of proper names is read off its text. -/
theorem ofText_text {p : Path} (hslashes : p.slashes ≤ 2)
    (h : ∀ name ∈ p.parts, IsEntryName name) : ofText p.text = p := by
  by_cases hhere : p = ⟨0, []⟩
  · subst hhere
    rfl
  · have hshown : p.slashes ≠ 0 ∨ p.parts ≠ [] := by
      by_contra hnone
      obtain ⟨hzero, hnil⟩ := not_or.mp hnone
      obtain ⟨slashes, parts⟩ := p
      obtain rfl : slashes = 0 := Classical.not_not.mp hzero
      obtain rfl : parts = [] := Classical.not_not.mp hnil
      exact hhere rfl
    obtain ⟨blanks, hsplit, hblanks⟩ :=
      exists_splitSlashes (fun name hname => (h name hname).slash_notMem) hshown
    have hparts : (splitSlashes p.text).filter isNamed = p.parts := by
      have hdropped : blanks.filter isNamed = [] :=
        List.filter_eq_nil_iff.mpr fun b hb => by rw [hblanks b hb]; decide
      rw [hsplit, List.filter_append, hdropped, List.nil_append]
      exact List.filter_eq_self.mpr fun name hname => isNamed_of_isEntryName (h name hname)
    have hroot : (p.text.takeWhile (· == '/')).length = p.slashes := by
      have hslash : ∀ c ∈ List.replicate p.slashes '/', (c == '/') = true := fun c hc => by
        rw [List.eq_of_mem_replicate hc]
        rfl
      rw [text_eq hshown, List.takeWhile_append_of_pos hslash, takeWhile_join_slash h,
        List.append_nil, List.length_replicate]
    unfold ofText rootSlashes
    rw [hparts, hroot]
    dsimp only
    rw [if_pos hslashes]

theorem isRooted_ofText {t : Text} (h : (ofText t).isAbsolute = true) : (ofText t).IsRooted :=
  ⟨h, fun _ hname => slash_notMem_of_mem_ofText hname⟩

theorem mem_of_mem_place {p : Path} {name : Text} (h : name ∈ p.place) : name ∈ p.parts := by
  rcases mem_foldl_lexicalStep h with hnil | ⟨hname, -⟩
  · cases hnil
  · exact hname

/-- A path with writable names can be written. -/
theorem isWritable_iff (p : Path) : p.isWritable = true ↔
    ∀ name ∈ p.parts, name.contains '\x00' = false ∧ name.any isUnencodable = false := by
  simp only [isWritable, Workspace.hasNul, Workspace.isUnnamable, Bool.and_eq_true,
    Bool.not_eq_true', List.any_eq_false, Bool.not_eq_true, forall_and]

/-- What leads from a directory to a path below it leads there by proper names. -/
theorem place_under {base : Path} {rest : Location} (h : ∀ name ∈ rest, IsEntryName name) :
    (base.under ⟨0, rest⟩).place = base.place ++ rest := by
  unfold under place
  rw [if_neg (by simp [isAbsolute]), List.foldl_append]
  exact foldl_lexicalStep _ rest h

theorem isRooted_under {base : Path} {rest : Location} (hbase : base.IsRooted)
    (h : ∀ name ∈ rest, IsEntryName name) : (base.under ⟨0, rest⟩).IsRooted := by
  refine ⟨isAbsolute_under hbase.absolute _, fun name hname => ?_⟩
  rcases List.mem_append.mp hname with hname | hname
  · exact hbase.slash_notMem name hname
  · exact (h name hname).slash_notMem

theorem relativeTo?_absolute (place base : Location) :
    (∃ rest, place = base ++ rest ∧
      (absolute place).relativeTo? (absolute base) = some ⟨0, rest⟩) ∨
    ¬ base <+: place ∧ (absolute place).relativeTo? (absolute base) = none := by
  have hdrop : (absolute place).relativeTo? (absolute base) =
      (dropParts? base place).map fun rest => ⟨0, rest⟩ := if_pos rfl
  rw [hdrop]
  by_cases hbelow : base <+: place
  · obtain ⟨rest, rfl⟩ := hbelow
    exact .inl ⟨rest, rfl, congrArg (Option.map _) (dropParts?_append base rest)⟩
  · refine .inr ⟨hbelow, Option.map_eq_none_iff.mpr (Option.eq_none_iff_forall_ne_some.mpr ?_)⟩
    intro rest hrest
    exact hbelow ⟨rest, (eq_append_of_dropParts? hrest).symm⟩

end Path

namespace Action

variable {w : Workspace} {p base : Path}

theorem perform_resolve (hw : w.tree.LinkFree) (hp : p.IsRooted) (hwritable : p.isWritable = true) :
    (resolve p).perform w = (.ok (Path.absolute p.place), w) :=
  (resolve_eq_ok_iff hw _ w).mpr ⟨rfl, hwritable, (hw.resolve_of_isRooted w.directory hp).symm⟩

/-- A path is shown relative to a directory just when it lies below it. -/
theorem exists_perform_relativeText (hw : w.tree.LinkFree) (hp : p.IsRooted)
    (hbase : base.IsRooted) (hwritable : p.isWritable = true) :
    ∃ q : Path, (relativeText p base).perform w = (.ok q.text, w) ∧
      ((∃ rest, q = ⟨0, rest⟩ ∧ p.place = base.place ++ rest ∧ base.isWritable = true) ∨
        q = Path.absolute p.place ∧ (base.isWritable = true → ¬ base.place <+: p.place)) := by
  unfold relativeText
  rw [perform_bind_of_ok _ (perform_resolve hw hp hwritable)]
  have hrefused : (Workspace.isUnnamable base || Workspace.hasNul base) = !base.isWritable := by
    rw [Path.isWritable, Bool.not_and, Bool.not_not, Bool.not_not, Bool.or_comm]
  rw [hrefused]
  cases hb : base.isWritable with
  | false => exact ⟨Path.absolute p.place, rfl, .inr ⟨rfl, fun h => absurd h Bool.false_ne_true⟩⟩
  | true =>
    rw [if_neg (by decide), perform_bind_of_ok _ (perform_resolve hw hbase hb)]
    rcases Path.relativeTo?_absolute p.place base.place with ⟨rest, hrest, hto⟩ | ⟨hbelow, hto⟩
    · exact ⟨⟨0, rest⟩, by rw [hto]; rfl, .inl ⟨rest, rfl, hrest, rfl⟩⟩
    · exact ⟨Path.absolute p.place, by rw [hto]; rfl, .inr ⟨rfl, fun _ => hbelow⟩⟩

/-- The text of a path, taken from the directory for which it was made, leads back to the path. -/
theorem perform_resolve_child_relativeText (hw : w.tree.LinkFree) (hp : p.IsRooted)
    (hbase : base.IsRooted) :
    (relativeText p base >>= fun t => resolve (base.child t)).perform w =
      (resolve p).perform w := by
  cases hwritable : p.isWritable with
  | false =>
    rcases hresolve : (resolve p).perform w with ⟨failure | q, after⟩
    · unfold relativeText
      simp only [perform_bind, hresolve]
    · rw [(eq_of_resolve hresolve).2.1] at hwritable
      cases hwritable
  | true =>
    have hnames := hp.isProper_place.names
    have hparts := (Path.isWritable_iff p).mp hwritable
    obtain ⟨q, hq, hshown⟩ := exists_perform_relativeText hw hp hbase hwritable
    rw [perform_bind_of_ok _ hq, perform_resolve hw hp hwritable, Path.child]
    rcases hshown with ⟨rest, rfl, hrest, hbaseWritable⟩ | ⟨rfl, -⟩
    · have hbelow : ∀ name ∈ rest, name ∈ p.place := fun name hname =>
        hrest ▸ List.mem_append_right _ hname
      have hproper : ∀ name ∈ rest, IsEntryName name := fun name hname =>
        hnames name (hbelow name hname)
      have hchild : (base.under ⟨0, rest⟩).isWritable = true := by
        refine (Path.isWritable_iff _).mpr fun name hname => ?_
        rcases List.mem_append.mp hname with hname | hname
        · exact (Path.isWritable_iff base).mp hbaseWritable name hname
        · exact hparts name (Path.mem_of_mem_place (hbelow name hname))
      rw [Path.ofText_text (Nat.zero_le 2) hproper,
        perform_resolve hw (Path.isRooted_under hbase hproper) hchild, Path.place_under hproper,
        ← hrest]
    · have hchild : (Path.absolute p.place).isWritable = true := (Path.isWritable_iff _).mpr
        fun name hname => hparts name (Path.mem_of_mem_place hname)
      have hunder : base.under (Path.absolute p.place) = Path.absolute p.place := if_pos rfl
      rw [Path.ofText_text (Nat.le_succ 1) hnames, hunder,
        perform_resolve hw hp.isProper_place.isRooted hchild, Path.place_eq _ hnames]
      rfl

/-- The text of a path, taken from the directory for which it was made, leads back to the path,
whether or not it is relative. It is relative just when the path lies below the directory. -/
theorem relativeText_leads_back (hw : w.tree.LinkFree) {path root : Text}
    (hpath : (Path.ofText path).isAbsolute = true) (hroot : (Path.ofText root).isAbsolute = true) :
    (relativeText (Path.ofText path) (Path.ofText root) >>= fun t =>
        resolve ((Path.ofText root).child t)).perform w = (resolve (Path.ofText path)).perform w ∧
      ((Path.ofText path).isWritable = true → (Path.ofText root).isWritable = true →
        ∃ t, (relativeText (Path.ofText path) (Path.ofText root)).perform w = (.ok t, w) ∧
          (resolve (Path.ofText path)).perform w =
            (.ok (Path.absolute (Path.ofText path).place), w) ∧
          (resolve (Path.ofText root)).perform w =
            (.ok (Path.absolute (Path.ofText root).place), w) ∧
          ((Path.ofText t).isAbsolute = false ↔
            (Path.ofText root).place <+: (Path.ofText path).place)) := by
  have hp := Path.isRooted_ofText hpath
  have hbase := Path.isRooted_ofText hroot
  refine ⟨perform_resolve_child_relativeText hw hp hbase, fun hwritable hrootWritable => ?_⟩
  have hnames := hp.isProper_place.names
  obtain ⟨q, hq, hshown⟩ := exists_perform_relativeText hw hp hbase hwritable
  refine ⟨q.text, hq, perform_resolve hw hp hwritable, perform_resolve hw hbase hrootWritable, ?_⟩
  rcases hshown with ⟨rest, rfl, hrest, -⟩ | ⟨rfl, hbelow⟩
  · have hproper : ∀ name ∈ rest, IsEntryName name := fun name hname =>
      hnames name (hrest ▸ List.mem_append_right _ hname)
    rw [Path.ofText_text (Nat.zero_le 2) hproper]
    exact iff_of_true rfl ⟨rest, hrest.symm⟩
  · rw [Path.ofText_text (Nat.le_succ 1) hnames]
    exact iff_of_false (fun h => absurd h.symm Bool.false_ne_true) (hbelow hrootWritable)

/-- One path below a directory and one that leaves it, each by two dots. -/
theorem dotted_paths_lead_back :
    (∃ t, (relativeText (Path.ofText "/repo/src/..//jni/A.cpp".toList)
        (Path.ofText "//repo/./".toList)).perform Workspace.empty = (.ok t, Workspace.empty) ∧
      (Path.ofText t).isAbsolute = false ∧
      (resolve ((Path.ofText "//repo/./".toList).child t)).perform Workspace.empty =
        (.ok (Path.absolute ["repo".toList, "jni".toList, "A.cpp".toList]), Workspace.empty)) ∧
    (∃ t, (relativeText (Path.ofText "/repo/../other/B.cpp".toList)
        (Path.ofText "//repo/./".toList)).perform Workspace.empty = (.ok t, Workspace.empty) ∧
      (Path.ofText t).isAbsolute = true ∧
      (resolve ((Path.ofText "//repo/./".toList).child t)).perform Workspace.empty =
        (.ok (Path.absolute ["other".toList, "B.cpp".toList]), Workspace.empty)) := by
  have hw : Workspace.empty.tree.LinkFree := Tree.IsSingle.empty.linkFree
  have hroot : (Path.ofText "//repo/./".toList).isAbsolute = true := by decide
  constructor
  · have hpath : (Path.ofText "/repo/src/..//jni/A.cpp".toList).isAbsolute = true := by decide
    obtain ⟨hback, hshown⟩ := relativeText_leads_back hw hpath hroot
    obtain ⟨t, ht, hresolved, -, hrelative⟩ := hshown (by decide) (by decide)
    rw [perform_bind_of_ok _ ht, hresolved] at hback
    exact ⟨t, ht, hrelative.mpr (by decide), hback⟩
  · have hpath : (Path.ofText "/repo/../other/B.cpp".toList).isAbsolute = true := by decide
    obtain ⟨hback, hshown⟩ := relativeText_leads_back hw hpath hroot
    obtain ⟨t, ht, hresolved, -, hrelative⟩ := hshown (by decide) (by decide)
    rw [perform_bind_of_ok _ ht, hresolved] at hback
    have habsolute : ¬ (Path.ofText t).isAbsolute = false := fun hnot =>
      absurd (hrelative.mp hnot) (by decide)
    exact ⟨t, ht, Bool.of_not_eq_false habsolute, hback⟩

end Action

end NativeGlue
