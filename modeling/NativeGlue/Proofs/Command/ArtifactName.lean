import NativeGlue.Proofs.Command.History
import NativeGlue.Proofs.Files.Relative
import NativeGlue.Proofs.Text.Filling

/-!
Where the headers and units of a target lie. A file name made for a class leads to another path for
each class, so two source files share their header and their unit just when they are taken for the
same class. Headers and units are told apart by the ends of their names.
-/

namespace NativeGlue

open Text

namespace Path

variable {c d : Text} {pieces : List (Option Char)}

theorem parts_ofText_fill (h : '/' ∉ c) (pieces : List (Option Char)) :
    (ofText (fill c pieces)).parts =
      ((pieces.splitOn (some '/')).map (fill c)).filter isNamed :=
  congrArg (List.filter isNamed) (splitOn_fill pieces h)

/-- How a filled path starts does not depend on what is filled in. -/
theorem rootSlashes_fill (hc : c ≠ []) (hd : d ≠ []) (hcSlash : '/' ∉ c) (hdSlash : '/' ∉ d)
    (pieces : List (Option Char)) :
    (ofText (fill c pieces)).slashes = (ofText (fill d pieces)).slashes := by
  simp only [ofText, rootSlashes, length_takeWhile_fill pieces hc hcSlash,
    length_takeWhile_fill pieces hd hdSlash]

/-- A component with a slot is a name, unless it is made a dot by what is filled in. -/
theorem isNamed_fill (hc : c ≠ []) (hdot : c ≠ ['.']) (h : none ∈ pieces) :
    isNamed (fill c pieces) = true := by
  have hsublist := sublist_fill c h
  rw [isNamed, Bool.and_eq_true, Bool.not_eq_true', List.isEmpty_eq_false_iff, bne_iff_ne]
  constructor
  · intro hnil
    rw [hnil] at hsublist
    exact hc (List.sublist_nil.mp hsublist)
  · intro heq
    rw [heq] at hsublist
    exact (List.sublist_singleton.mp hsublist).elim hc hdot

/-- What is a name with one text filled in is one with any other that is no dot. -/
theorem isNamed_fill_of_isNamed (hd : d ≠ []) (hdot : d ≠ ['.'])
    (h : isNamed (fill c pieces) = true) : isNamed (fill d pieces) = true := by
  by_cases hslot : none ∈ pieces
  · exact isNamed_fill hd hdot hslot
  · rwa [fill_eq_of_none_notMem d c hslot]

/-- Filters that keep as much, one of which keeps what the other does, keep the same. -/
theorem kept_iff_of_length_eq {α : Type} {p q : α → Bool} {as : List α}
    (hmono : ∀ a ∈ as, p a = true → q a = true) (hlength : as.countP p = as.countP q) :
    ∀ a ∈ as, p a = q a := by
  induction as with
  | nil => exact fun a ha => nomatch ha
  | cons a as ih =>
    have hrest : ∀ b ∈ as, p b = true → q b = true := fun b hb =>
      hmono b (List.mem_cons_of_mem a hb)
    have hle : as.countP p ≤ as.countP q := List.countP_mono_left hrest
    rw [List.countP_cons, List.countP_cons] at hlength
    have hfirst := hmono a List.mem_cons_self
    intro b hb
    rcases List.mem_cons.mp hb with rfl | hb
    · cases hp : p b <;> cases hq : q b <;> simp_all
    · refine ih hrest ?_ b hb
      cases hp : p a <;> cases hq : q a <;> simp_all

/-- Filters that keep the same of two lists with the same results had them all along. -/
theorem eq_of_filter_map_eq {α β : Type} {f g : α → β} {keep : β → Bool} {as : List α}
    (hkeep : ∀ a ∈ as, keep (f a) = keep (g a))
    (h : (as.map f).filter keep = (as.map g).filter keep) :
    ∀ a ∈ as, keep (f a) = true → f a = g a := by
  induction as with
  | nil => exact fun a ha => nomatch ha
  | cons a as ih =>
    have hfirst := hkeep a List.mem_cons_self
    have hrest := ih fun b hb => hkeep b (List.mem_cons_of_mem a hb)
    simp only [List.map_cons, List.filter_cons, hfirst] at h
    intro b hb hkept
    split_ifs at h with hg
    · obtain ⟨heq, htail⟩ := List.cons.inj h
      rcases List.mem_cons.mp hb with rfl | hb
      · exact heq
      · exact hrest htail b hb hkept
    · rcases List.mem_cons.mp hb with rfl | hb
      · exact absurd (hfirst ▸ hkept) hg
      · exact hrest h b hb hkept

/-- What was filled into a slot can be told from the components, of which the dots are dropped. -/
theorem eq_of_parts_fill_eq (hc : c ≠ []) (hd : d ≠ []) (hcSlash : '/' ∉ c) (hdSlash : '/' ∉ d)
    (hslot : none ∈ pieces)
    (h : (ofText (fill c pieces)).parts = (ofText (fill d pieces)).parts) : c = d := by
  rw [parts_ofText_fill hcSlash, parts_ofText_fill hdSlash] at h
  obtain ⟨component, hmem, hin⟩ := exists_mem_splitOn (b := some '/') hslot (by simp)
  have hnoDot {a b : Text} (hb : b ≠ []) (hdot : b ≠ ['.'])
      (heq : ((pieces.splitOn (some '/')).map (fill a)).filter isNamed =
        ((pieces.splitOn (some '/')).map (fill b)).filter isNamed) : a = b := by
    have hcount := congrArg List.length heq
    rw [← List.countP_eq_length_filter, ← List.countP_eq_length_filter, List.countP_map,
      List.countP_map] at hcount
    have hkept := kept_iff_of_length_eq (fun piece _ => isNamed_fill_of_isNamed hb hdot) hcount
    refine fill_inj hin (eq_of_filter_map_eq hkept heq component hmem ?_)
    exact (hkept component hmem).trans (isNamed_fill hb hdot hin)
  by_cases hdot : d = ['.']
  · by_cases hcDot : c = ['.']
    · rw [hdot, hcDot]
    · exact (hnoDot hc hcDot h.symm).symm
  · exact hnoDot hd hdot h

/-- File names made from a template for different texts lead to different paths. -/
theorem child_fill_inj_iff (base : Path) (hc : c ≠ []) (hd : d ≠ []) (hcSlash : '/' ∉ c)
    (hdSlash : '/' ∉ d) (hslot : none ∈ pieces) :
    base.child (fill c pieces) = base.child (fill d pieces) ↔ c = d := by
  refine ⟨fun h => ?_, fun h => h ▸ rfl⟩
  have hslashes := rootSlashes_fill hc hd hcSlash hdSlash pieces
  unfold child under at h
  have habsolute : (ofText (fill c pieces)).isAbsolute = (ofText (fill d pieces)).isAbsolute := by
    unfold isAbsolute
    rw [hslashes]
  rw [habsolute] at h
  split_ifs at h
  · exact eq_of_parts_fill_eq hc hd hcSlash hdSlash hslot (congrArg Path.parts h)
  · exact eq_of_parts_fill_eq hc hd hcSlash hdSlash hslot
      (List.append_cancel_left (congrArg Path.parts h))

/-- The ending of a file name is the ending of its path. -/
theorem suffix_name_child (base : Path) {t ending : Text} (hne : ending ≠ [])
    (hdot : ending ≠ ['.']) (hslash : '/' ∉ ending) (h : ending <:+ t) :
    ending <:+ (base.child t).name := by
  obtain ⟨start, rfl⟩ := h
  obtain ⟨before, last, hsplit⟩ := exists_splitOn_append start ending hslash
  have hnamed : isNamed (last ++ ending) = true := by
    rw [isNamed, Bool.and_eq_true, Bool.not_eq_true', List.isEmpty_eq_false_iff, bne_iff_ne]
    refine ⟨List.append_ne_nil_of_right_ne_nil last hne, fun heq => ?_⟩
    rcases List.append_eq_singleton_iff.mp heq with ⟨-, hend⟩ | ⟨-, hend⟩
    · exact hdot hend
    · exact hne hend
  have hparts : (ofText (start ++ ending)).parts =
      before.filter isNamed ++ [last ++ ending] := by
    unfold ofText splitSlashes
    rw [hsplit, List.filter_append, List.filter_cons_of_pos hnamed]
    rfl
  have hname : (base.child (start ++ ending)).name = last ++ ending := by
    unfold child under name
    split_ifs
    · rw [hparts, List.getLast?_concat]
      rfl
    · rw [hparts, ← List.append_assoc, List.getLast?_concat]
      rfl
  rw [hname]
  exact List.suffix_append last ending

theorem stem_isPrefix (name : Text) : stem name <+: name := by
  unfold stem
  dsimp only
  split_ifs
  · exact List.prefix_rfl
  · exact List.take_prefix _ _

theorem stem_ne_nil {name : Text} (h : name ≠ []) : stem name ≠ [] := by
  unfold stem
  dsimp only
  split_ifs with hwhole
  · exact h
  · rw [Bool.or_eq_true, not_or, List.isEmpty_iff, List.isEmpty_iff] at hwhole
    exact hwhole.2

/-- Only the last suffix of a name is not in its stem. -/
theorem stem_append {before suffix : Text} (hbefore : before ≠ []) (hsuffix : suffix ≠ [])
    (hdot : '.' ∉ suffix) : stem (before ++ '.' :: suffix) = before := by
  have htake : (before ++ '.' :: suffix).reverse.takeWhile (· != '.') = suffix.reverse := by
    have hall : ∀ c ∈ suffix.reverse, (c != '.') = true := fun c hc =>
      bne_iff_ne.mpr fun heq => hdot (heq ▸ List.mem_reverse.mp hc)
    rw [List.reverse_append, List.reverse_cons, List.append_assoc,
      List.takeWhile_append_of_pos hall]
    simp
  have hlength : (before ++ '.' :: suffix).length - suffix.reverse.length - 1 = before.length := by
    simp only [List.length_append, List.length_cons, List.length_reverse]
    omega
  unfold stem
  dsimp only
  rw [htake, hlength, List.take_left, if_neg]
  simp [hbefore, hsuffix]

/-- The names of which the name of the class in a file is made. -/
def classParts (parts : List Text) : List Text :=
  parts.dropLast ++ (parts.getLast?.map stem).toList

theorem className?_eq_some_iff (p : Path) (name : Text) :
    p.className? = some name ↔ p.parts ≠ [] ∧ name = join ['.'] (classParts p.parts) := by
  unfold className? classParts
  cases hlast : p.parts.getLast? with
  | none => simp [List.getLast?_eq_none_iff.mp hlast]
  | some file =>
    have hne : p.parts ≠ [] := fun hnil => by simp [hnil] at hlast
    simp only [Option.some.injEq, Option.map_some, Option.toList_some]
    exact ⟨fun h => ⟨hne, h.symm⟩, fun h => h.2.symm⟩

theorem classParts_concat (directories : List Text) (file : Text) :
    classParts (directories ++ [file]) = directories ++ [stem file] := by
  simp [classParts]

/-- The name of a class is not empty and holds no slash. -/
theorem className_proper {parts : List Text} (hne : parts ≠ [])
    (hnames : ∀ name ∈ parts, IsEntryName name) :
    join ['.'] (classParts parts) ≠ [] ∧ '/' ∉ join ['.'] (classParts parts) := by
  obtain ⟨directories, file, rfl⟩ : ∃ directories file, parts = directories ++ [file] :=
    ⟨_, _, (List.dropLast_append_getLast hne).symm⟩
  have hfile := hnames file (List.mem_append_right _ (List.mem_singleton_self file))
  rw [classParts_concat]
  constructor
  · intro hnil
    have hsuffix := suffix_join ['.'] directories (stem file)
    rw [hnil, List.suffix_nil] at hsuffix
    exact stem_ne_nil hfile.ne_nil hsuffix
  · intro hslash
    refine forall_mem_join ['.'] _ (· ≠ '/') (by simp) (fun name hname c hc heq => ?_) '/' hslash
      rfl
    rcases List.mem_append.mp hname with hname | hname
    · exact (hnames name (List.mem_append_left _ hname)).slash_notMem (heq ▸ hc)
    · rw [List.mem_singleton.mp hname] at hc
      exact hfile.slash_notMem (heq ▸ (stem_isPrefix file).subset hc)

/-- Whether no directory on the way to a file, and not the stem of the file, holds a dot. -/
def IsDotless (parts : List Text) : Prop := ∀ name ∈ classParts parts, '.' ∉ name

/-- Without dots in the names of directories and files a source file can be told from its class. -/
theorem eq_of_className_eq {parts others : List Text}
    (hparts : Sources.isSourceName parts = true) (hothers : Sources.isSourceName others = true)
    (hdotless : IsDotless parts) (hdotless' : IsDotless others)
    (h : join ['.'] (classParts parts) = join ['.'] (classParts others)) : parts = others := by
  have hfile {names : List Text} (hnames : Sources.isSourceName names = true)
      (hplain : IsDotless names) : ∃ directories before,
        names = directories ++ [before ++ ".java".toList] ∧
          classParts names = directories ++ [before] := by
    obtain ⟨directories, file, rfl⟩ : ∃ directories file, names = directories ++ [file] :=
      ⟨_, _, (List.dropLast_append_getLast (Sources.ne_nil_of_isSourceName hnames)).symm⟩
    rw [Sources.isSourceName, List.getLast?_concat, Option.any_some, endsWith,
      List.isSuffixOf_iff_suffix] at hnames
    obtain ⟨before, rfl⟩ := hnames
    rw [IsDotless, classParts_concat] at hplain
    have hstem : stem (before ++ ".java".toList) = before := by
      refine stem_append (fun hnil => ?_) (by decide) (by decide)
      refine hplain _ (List.mem_append_right _ (List.mem_singleton_self _)) ?_
      rw [hnil]
      decide
    exact ⟨directories, before, rfl, by rw [classParts_concat, hstem]⟩
  obtain ⟨directories, before, rfl, hclass⟩ := hfile hparts hdotless
  obtain ⟨directories', before', rfl, hclass'⟩ := hfile hothers hdotless'
  rw [IsDotless, hclass] at hdotless
  rw [IsDotless, hclass'] at hdotless'
  rw [hclass, hclass'] at h
  have hsplit := congrArg (List.splitOn '.') h
  unfold join at hsplit
  rw [List.splitOn_intercalate '.' hdotless (by simp),
    List.splitOn_intercalate '.' hdotless' (by simp)] at hsplit
  obtain ⟨rfl, hlast⟩ := List.append_inj' hsplit rfl
  rw [List.singleton_injective hlast]

end Path

namespace Sources

open NativeGlue.Action

variable {w : Workspace} {root source : Path} {name : Text}

/-- The class in a file is named by proper names. -/
theorem className_eq_ok {after : Workspace} (hsource : source.isAbsolute = true)
    (h : (className root source).perform w = (.ok name, after)) : name ≠ [] ∧ '/' ∉ name := by
  obtain ⟨-, q, r, file, hq, -, hfile, hname⟩ := exists_of_className h
  have hproper := w.tree.isProper_resolve w.directory hsource
  rw [← (eq_of_resolve hq).2.2] at hproper
  unfold Path.relativeTo? at hfile
  split_ifs at hfile
  obtain ⟨rest, hrest, rfl⟩ := Option.map_eq_some_iff.mp hfile
  obtain ⟨hne, rfl⟩ := (Path.className?_eq_some_iff _ _).mp hname
  refine Path.className_proper hne fun n hn => hproper.names n ?_
  rw [Path.eq_append_of_dropParts? hrest]
  exact List.mem_append_right _ hn

/-- Without links the name of the class in a file is read off its path. -/
theorem perform_className (hw : w.tree.LinkFree) (hroot : root.IsProper)
    (hrootWritable : root.isWritable = true) {parts : List Text} (hne : parts ≠ [])
    (hproper : (root.under ⟨0, parts⟩).IsProper)
    (hwritable : (root.under ⟨0, parts⟩).isWritable = true) :
    (className root (root.under ⟨0, parts⟩)).perform w =
      (.ok (join ['.'] (Path.classParts parts)), w) := by
  have hfile := (resolve_eq_ok_iff (p := root.under ⟨0, parts⟩) hw _ w).mpr ⟨rfl, hwritable, rfl⟩
  have hplace := (resolve_eq_ok_iff (p := root) hw _ w).mpr ⟨rfl, hrootWritable, rfl⟩
  rw [hw.resolve_of_isProper w.directory hproper] at hfile
  rw [hw.resolve_of_isProper w.directory hroot] at hplace
  have hrelative : Path.relativeTo? ⟨1, (root.under ⟨0, parts⟩).parts⟩ ⟨1, root.parts⟩ =
      some ⟨0, parts⟩ := by
    rw [Path.relativeTo?, if_pos rfl, under_eq, Path.dropParts?_append]
    rfl
  unfold className
  rw [perform_bind_of_ok _ hfile, perform_bind_of_ok _ hplace]
  simp only [hrelative, (Path.className?_eq_some_iff ⟨0, parts⟩ _).mpr ⟨hne, rfl⟩]
  rfl

end Sources

namespace Config

theorem infix_of_template {label t default : Text} {key : String} {members : Members}
    (hdefault : classNameSlot <:+: default) (h : template label members key default = .ok t) :
    classNameSlot <:+: t := by
  unfold template at h
  dsimp only at h
  split at h
  · cases h
    exact hdefault
  · split_ifs at h with hslot
    cases h
    exact (occursIn_iff _ _).mp hslot
  · cases h

/-- The names of headers and units have a slot for the name of the class. -/
theorem infix_of_target {config : Members} {name : Text} {t : Target}
    (h : target config name = .ok t) :
    classNameSlot <:+: t.headerName ∧ classNameSlot <:+: t.outputName := by
  unfold target at h
  obtain ⟨members, -, h⟩ := (bind_eq_ok_iff _ _ _).mp h
  unfold readTarget at h
  obtain ⟨sourceDir, -, h⟩ := (bind_eq_ok_iff _ _ _).mp h
  obtain ⟨glueDir, -, h⟩ := (bind_eq_ok_iff _ _ _).mp h
  obtain ⟨includes, -, h⟩ := (bind_eq_ok_iff _ _ _).mp h
  obtain ⟨excludes, -, h⟩ := (bind_eq_ok_iff _ _ _).mp h
  obtain ⟨headerName, hheader, h⟩ := (bind_eq_ok_iff _ _ _).mp h
  obtain ⟨outputName, houtput, h⟩ := (bind_eq_ok_iff _ _ _).mp h
  obtain ⟨command, -, h⟩ := (bind_eq_ok_iff _ _ _).mp h
  cases h
  exact ⟨infix_of_template (by decide) hheader, infix_of_template (by decide) houtput⟩

/-- The end of a name that is the same for all classes: what follows the last slot, as far as it is
no directory. -/
def fixedEnd (template : Text) : Text :=
  (template.reverse.takeWhile fun c => c != '}' && c != '/').reverse

theorem notMem_fixedEnd (template : Text) :
    '}' ∉ fixedEnd template ∧ '/' ∉ fixedEnd template := by
  have hkept (c : Char) (hc : c ∈ fixedEnd template) : c ≠ '}' ∧ c ≠ '/' := by
    have hall := List.all_eq_true.mp List.all_takeWhile c (List.mem_reverse.mp hc)
    rwa [Bool.and_eq_true, bne_iff_ne, bne_iff_ne] at hall
  exact ⟨fun hc => (hkept _ hc).1 rfl, fun hc => (hkept _ hc).2 rfl⟩

theorem fixedEnd_suffix (template : Text) : fixedEnd template <:+ template := by
  unfold fixedEnd
  rw [← List.reverse_prefix, List.reverse_reverse]
  exact List.takeWhile_prefix _

/-- Whether headers and units are told apart by the ends of their names. -/
def EndsDiffer (t : Target) : Prop :=
  fixedEnd t.headerName ≠ ['.'] ∧ fixedEnd t.outputName ≠ ['.'] ∧
    ¬ fixedEnd t.headerName <:+ fixedEnd t.outputName ∧
    ¬ fixedEnd t.outputName <:+ fixedEnd t.headerName

instance (t : Target) : Decidable (EndsDiffer t) :=
  inferInstanceAs (Decidable (_ ∧ _ ∧ ¬ _ ∧ ¬ _))

end Config

namespace Generate

open NativeGlue.Action Command

variable {options : GenerateOptions} {root : Path} {config : Members} {name : Text}
  {w after : Workspace} {j : Job} {c d : Text}

/-- The file made from a template has another path for each class. -/
theorem child_artifactName_inj_iff (base : Path) {template : Text}
    (hslot : Config.classNameSlot <:+: template) (hc : c ≠ [] ∧ '/' ∉ c) (hd : d ≠ [] ∧ '/' ∉ d) :
    base.child (artifactName template c) = base.child (artifactName template d) ↔ c = d := by
  unfold artifactName
  rw [replace_eq_fill, replace_eq_fill]
  exact Path.child_fill_inj_iff base hc.1 hd.1 hc.2 hd.2 (none_mem_slots (by decide) hslot)

theorem suffix_name_artifact (base : Path) {template : Text} (c : Text)
    (hne : Config.fixedEnd template ≠ []) (hdot : Config.fixedEnd template ≠ ['.']) :
    Config.fixedEnd template <:+ (base.child (artifactName template c)).name := by
  obtain ⟨hslot, hslash⟩ := Config.notMem_fixedEnd template
  have hlast : Config.classNameSlot.getLast? = some '}' := by decide
  exact Path.suffix_name_child base hne hdot hslash
    (suffix_replace hlast hslot (Config.fixedEnd_suffix template))

theorem outputPath_ne_headerPath (hends : Config.EndsDiffer j.target) (c d : Text) :
    j.outputPath c ≠ j.headerPath d := by
  obtain ⟨hheaderDot, houtputDot, hnotHeader, hnotOutput⟩ := hends
  intro heq
  have houtput := suffix_name_artifact j.glueRoot c
    (fun hnil => hnotOutput (hnil ▸ List.nil_suffix)) houtputDot
  have hheader := suffix_name_artifact j.glueRoot d
    (fun hnil => hnotHeader (hnil ▸ List.nil_suffix)) hheaderDot
  have hname : (j.outputPath c).name = (j.headerPath d).name := congrArg Path.name heq
  unfold Job.outputPath Job.headerPath at hname
  rw [hname] at houtput
  exact (List.suffix_or_suffix_of_suffix houtput hheader).elim hnotOutput hnotHeader

/-- The artifacts of the source files found for a target. Headers and units have the same path just
when the files are taken for the same class, and no unit has the path of a header if the names end
differently. In a regular tree each file found is taken for a class, and different ones for
different classes unless there are dots in the names of directories or files. -/
theorem artifacts_apart {found : List Path} (hroot : root.isAbsolute = true)
    (hjob : (jobOf options root config name).perform w = (.ok j, w))
    (hfound : (Sources.find j.sourceRoot j.target.includes j.target.excludes).perform w =
      (.ok found, w)) :
    (∀ p ∈ found, ∀ q ∈ found, ∀ c d,
      (Sources.className j.sourceRoot p).perform w = (.ok c, w) →
      (Sources.className j.sourceRoot q).perform w = (.ok d, w) →
        (j.outputPath c = j.outputPath d ↔ c = d) ∧ (j.headerPath c = j.headerPath d ↔ c = d) ∧
          (Config.EndsDiffer j.target → j.outputPath c ≠ j.headerPath d)) ∧
    (w.tree.Regular → (∀ p ∈ found, ∃ parts c, p = j.sourceRoot.under ⟨0, parts⟩ ∧
        (Sources.className j.sourceRoot p).perform w = (.ok c, w)) ∧
      ∀ parts others c, j.sourceRoot.under ⟨0, parts⟩ ∈ found →
        j.sourceRoot.under ⟨0, others⟩ ∈ found → Path.IsDotless parts → Path.IsDotless others →
        (Sources.className j.sourceRoot (j.sourceRoot.under ⟨0, parts⟩)).perform w = (.ok c, w) →
        (Sources.className j.sourceRoot (j.sourceRoot.under ⟨0, others⟩)).perform w = (.ok c, w) →
          parts = others) := by
  obtain ⟨-, -, -, htarget, hsource, -⟩ := jobOf_eq_ok hjob
  obtain ⟨hheader, houtput⟩ := Config.infix_of_target htarget
  have hproper : j.sourceRoot.IsProper := by
    rw [(eq_of_resolve hsource).2.2]
    exact w.tree.isProper_resolve _ (Path.isAbsolute_child hroot _)
  have habsolute {p : Path} (hp : p ∈ found) : p.isAbsolute = true := by
    obtain ⟨parts, rfl⟩ := Sources.exists_of_mem_find hfound hp
    exact Path.isAbsolute_under hproper.absolute _
  constructor
  · intro p hp q hq c d hc hd
    have hcProper := Sources.className_eq_ok (habsolute hp) hc
    have hdProper := Sources.className_eq_ok (habsolute hq) hd
    exact ⟨child_artifactName_inj_iff j.glueRoot houtput hcProper hdProper,
      child_artifactName_inj_iff j.glueRoot hheader hcProper hdProper,
      fun hends => outputPath_ne_headerPath hends c d⟩
  · intro hw
    obtain ⟨-, hlistable, rfl⟩ := (Sources.find_eq_ok_iff hw hproper _ _).mp hfound
    have hclass {parts : List Text} (hparts : j.sourceRoot.under ⟨0, parts⟩ ∈
        Sources.listing w.tree j.sourceRoot j.target.includes j.target.excludes) :
        Sources.isSourceName parts = true ∧
          (Sources.className j.sourceRoot (j.sourceRoot.under ⟨0, parts⟩)).perform w =
            (.ok (join ['.'] (Path.classParts parts)), w) := by
      obtain ⟨hpick, hfile⟩ := (Sources.mem_listing_iff hw.distinct parts).mp hparts
      have hname := ((Bool.and_eq_true _ _).mp hpick).1
      exact ⟨hname, Sources.perform_className hw.linkFree hproper hlistable.writable
        (Sources.ne_nil_of_isSourceName hname)
        (Sources.isProper_under hw hproper (Sources.isSome_of_holdsFile hfile))
        ((Bool.and_eq_true _ _).mp hfile).1⟩
    constructor
    · intro p hp
      obtain ⟨parts, rfl, -⟩ := Sources.exists_of_mem_listing hw.distinct hp
      exact ⟨parts, _, rfl, (hclass hp).2⟩
    · intro parts others c hparts hothers hdotless hdotless' hc hd
      obtain ⟨hname, hperform⟩ := hclass hparts
      obtain ⟨hname', hperform'⟩ := hclass hothers
      rw [hperform] at hc
      rw [hperform'] at hd
      cases hc
      exact Path.eq_of_className_eq hname hname' hdotless hdotless'
        (Except.ok.inj (congrArg Prod.fst hd)).symm

namespace Colliding

/-- A target with the default names, and one with the same name for headers and units. -/
def members : Members :=
  let directories : Members := [("source_dir".toList, .str ['s']), ("jni_dir".toList, .str ['j'])]
  let name : Json.Value := .str (Config.classNameSlot ++ ".x".toList)
  [("targets".toList, .obj [(['a'], .obj directories),
    (['b'], .obj (directories ++ [("header_name".toList, name), ("output_name".toList, name)]))])]

/-- Three source files, of which two are taken for the same class. -/
def workspace : Workspace :=
  .ofTree (.directory
    [("s".toList, .directory
      [("A.java".toList, .file []), ("a".toList, .directory [("b.java".toList, .file [])]),
        ("a.b.java".toList, .file [])])])

/-- The target of a name. -/
def job (name : Text) (target : Target) : Job :=
  ⟨plainOptions, ⟨1, []⟩, name, target, ⟨1, [['s']]⟩, ⟨1, [['j']]⟩⟩

def target (headerName outputName : Text) : Target :=
  ⟨['s'], ['j'], none, [], [], headerName, outputName, none⟩

def first : Job := job ['a'] (target Config.defaultHeaderName Config.defaultOutputName)

def second : Job :=
  job ['b'] (target (Config.classNameSlot ++ ".x".toList) (Config.classNameSlot ++ ".x".toList))

theorem check_members : Config.check (.obj members) = .ok members := rfl

theorem regular_workspace : workspace.tree.Regular :=
  Tree.regular_of_nodes workspace.tree (by decide)

theorem perform_jobOf {name : Text} {t : Target} (h : Config.target members name = .ok t)
    (hsource : t.sourceDir = ['s']) (hglue : t.glueDir = ['j']) :
    (jobOf plainOptions ⟨1, []⟩ members name).perform workspace =
      (.ok (job name t), workspace) := by
  have hresolve (c : Char) (hc : c = 's' ∨ c = 'j') :
      (resolve (Path.child ⟨1, []⟩ [c])).perform workspace = (.ok ⟨1, [[c]]⟩, workspace) := by
    refine (resolve_eq_ok_iff regular_workspace.linkFree _ _).mpr ⟨rfl, ?_, ?_⟩
    · rcases hc with rfl | rfl <;> decide
    · rcases hc with rfl | rfl <;> decide
  unfold jobOf
  rw [h, liftConfig, pure_bind, hsource, hglue, perform_bind_of_ok _ (hresolve 's' (.inl rfl)),
    perform_bind_of_ok _ (hresolve 'j' (.inr rfl))]
  rfl

/-- The source files found for a target without a selection. -/
def found : List Path := Sources.listing workspace.tree ⟨1, [['s']]⟩ [] []

theorem isProper_root : Path.IsProper ⟨1, [['s']]⟩ := ⟨by decide, by decide⟩

theorem isListable_root : Sources.IsListable workspace.tree ⟨1, [['s']]⟩ [] [] :=
  Sources.isListable_of_nodes regular_workspace.distinct [] [] (by decide)
    ⟨by decide, by decide⟩ ⟨_, rfl⟩ (by decide)

theorem perform_find :
    (Sources.find ⟨1, [['s']]⟩ [] []).perform workspace = (.ok found, workspace) :=
  (Sources.find_eq_ok_iff regular_workspace isProper_root _ _).mpr ⟨rfl, isListable_root, rfl⟩

theorem mem_found (parts : List Text) (h : Sources.isPick [] [] parts = true ∧
    Sources.holdsFile workspace.tree (Path.under ⟨1, [['s']]⟩ ⟨0, parts⟩) = true) :
    Path.under ⟨1, [['s']]⟩ ⟨0, parts⟩ ∈ found :=
  (Sources.mem_listing_iff regular_workspace.distinct parts).mpr h

/-- Each file is taken for the class that its path names. -/
theorem perform_className (parts : List Text) (h : parts ≠ [])
    (hproper : Path.IsProper (Path.under ⟨1, [['s']]⟩ ⟨0, parts⟩))
    (hwritable : (Path.under ⟨1, [['s']]⟩ ⟨0, parts⟩).isWritable = true) :
    (Sources.className ⟨1, [['s']]⟩ (Path.under ⟨1, [['s']]⟩ ⟨0, parts⟩)).perform workspace =
      (.ok (join ['.'] (Path.classParts parts)), workspace) :=
  Sources.perform_className regular_workspace.linkFree isProper_root (by decide) h hproper hwritable

end Colliding

section Sample

open Colliding

/-- The default names of a target tell its files apart, as far as their classes differ. -/
theorem default_names_differ : ∃ j found p q c d,
    (jobOf plainOptions ⟨1, []⟩ members ['a']).perform workspace = (.ok j, workspace) ∧
      (Sources.find j.sourceRoot j.target.includes j.target.excludes).perform workspace =
        (.ok found, workspace) ∧ p ∈ found ∧ q ∈ found ∧
      (Sources.className j.sourceRoot p).perform workspace = (.ok c, workspace) ∧
      (Sources.className j.sourceRoot q).perform workspace = (.ok d, workspace) ∧
      j.outputPath c ≠ j.outputPath d ∧ j.headerPath c ≠ j.headerPath d ∧
      j.outputPath c ≠ j.headerPath d := by
  have hjob : (jobOf plainOptions ⟨1, []⟩ members ['a']).perform workspace =
      (.ok first, workspace) := perform_jobOf rfl rfl rfl
  have hfirst := mem_found ["A.java".toList] (by decide)
  have hsecond := mem_found [['a'], "b.java".toList] (by decide)
  have hc := perform_className ["A.java".toList] (by decide) ⟨by decide, by decide⟩ (by decide)
  have hd := perform_className [['a'], "b.java".toList] (by decide) ⟨by decide, by decide⟩
    (by decide)
  obtain ⟨houtput, hheader, hends⟩ :=
    (artifacts_apart rfl hjob perform_find).1 _ hfirst _ hsecond _ _ hc hd
  have hne : join ['.'] (Path.classParts ["A.java".toList]) ≠
      join ['.'] (Path.classParts [['a'], "b.java".toList]) := by decide
  exact ⟨first, found, _, _, _, _, hjob, perform_find, hfirst, hsecond, hc, hd,
    fun h => hne (houtput.mp h), fun h => hne (hheader.mp h), hends (by decide)⟩

/-- Different source files may have the same header and the same unit, and one file may be both. -/
theorem artifacts_collide : ∃ config name j w found p q c, Config.check (.obj config) = .ok config ∧
    w.tree.Regular ∧ (jobOf plainOptions ⟨1, []⟩ config name).perform w = (.ok j, w) ∧
    (Sources.find j.sourceRoot j.target.includes j.target.excludes).perform w = (.ok found, w) ∧
    p ∈ found ∧ q ∈ found ∧ p ≠ q ∧
    (Sources.className j.sourceRoot p).perform w = (.ok c, w) ∧
    (Sources.className j.sourceRoot q).perform w = (.ok c, w) ∧
    j.outputPath c = j.headerPath c := by
  have hjob : (jobOf plainOptions ⟨1, []⟩ members ['b']).perform workspace =
      (.ok second, workspace) := perform_jobOf rfl rfl rfl
  have hfirst := mem_found [['a'], "b.java".toList] (by decide)
  have hsecond := mem_found ["a.b.java".toList] (by decide)
  have hc := perform_className [['a'], "b.java".toList] (by decide) ⟨by decide, by decide⟩
    (by decide)
  have hd := perform_className ["a.b.java".toList] (by decide) ⟨by decide, by decide⟩ (by decide)
  exact ⟨members, ['b'], second, workspace, found, _, _, _, check_members, regular_workspace, hjob,
    perform_find, hfirst, hsecond, by decide, hc, hd, rfl⟩

end Sample

end Generate

end NativeGlue
