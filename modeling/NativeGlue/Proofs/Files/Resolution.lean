import NativeGlue.Proofs.Files.Reading

/-!
Resolved paths. A path from the root is resolved to one whose names are proper, whatever links are
met. In a tree without links a path is resolved by its names alone, so all such trees resolve it
alike.
-/

namespace NativeGlue

open Text

namespace Path

/-- A path from the root none of whose names holds a slash. -/
structure IsRooted (p : Path) : Prop where
  absolute : p.isAbsolute = true
  slash_notMem : ∀ name ∈ p.parts, '/' ∉ name

theorem slash_notMem_of_mem_splitSlashes {t name : Text} (h : name ∈ splitSlashes t) :
    '/' ∉ name := by
  unfold splitSlashes List.splitOn at h
  induction t generalizing name with
  | nil =>
    rw [List.splitOnP_nil, List.mem_singleton] at h
    rw [h]
    exact List.not_mem_nil
  | cons c t ih =>
    rw [List.splitOnP_cons_eq_if_modifyHead] at h
    split_ifs at h with hc
    · rcases List.mem_cons.mp h with rfl | h
      · exact List.not_mem_nil
      · exact ih h
    · obtain ⟨first, rest, hsplit⟩ :=
        List.exists_cons_of_ne_nil (List.splitOnP_ne_nil (· == '/') t)
      rw [hsplit] at h ih
      rcases List.mem_cons.mp h with rfl | h
      · have hfirst := ih List.mem_cons_self
        rw [List.mem_cons, not_or]
        exact ⟨fun heq => hc (beq_iff_eq.mpr heq.symm), hfirst⟩
      · exact ih (List.mem_cons_of_mem first h)

theorem slash_notMem_of_mem_ofText {t name : Text} (h : name ∈ (ofText t).parts) :
    '/' ∉ name :=
  slash_notMem_of_mem_splitSlashes (List.mem_filter.mp h).1

theorem isRooted_absolute_nil : (absolute []).IsRooted := ⟨rfl, fun _ hname => nomatch hname⟩

theorem IsRooted.above {p : Path} (h : p.IsRooted) : p.above.IsRooted := by
  have habsolute := h.absolute
  unfold Path.above
  split
  · rw [if_pos habsolute]
    exact h
  · next last hlast =>
    split_ifs with hup
    · refine ⟨habsolute, fun name hname => ?_⟩
      rcases List.mem_append.mp hname with hname | hname
      · exact h.slash_notMem name hname
      · rw [List.mem_singleton.mp hname, hup]
        decide
    · exact ⟨habsolute, fun name hname => h.slash_notMem name (List.dropLast_subset _ hname)⟩

theorem IsRooted.concat {p : Path} (h : p.IsRooted) {name : Text} (hname : '/' ∉ name) :
    IsRooted ⟨p.slashes, p.parts ++ [name]⟩ := by
  refine ⟨h.absolute, fun n hn => ?_⟩
  rcases List.mem_append.mp hn with hn | hn
  · exact h.slash_notMem n hn
  · rwa [List.mem_singleton.mp hn]

theorem mem_foldl_lexicalStep {here names : List Text} {name : Text}
    (h : name ∈ names.foldl lexicalStep here) :
    name ∈ here ∨ name ∈ names ∧ name ≠ [] ∧ name ≠ ['.'] ∧ name ≠ ['.', '.'] := by
  induction names generalizing here with
  | nil => exact .inl h
  | cons first names ih =>
    rcases ih h with hhere | ⟨hname, hne⟩
    · unfold lexicalStep at hhere
      split_ifs at hhere with hstay hup
      · exact .inl hhere
      · exact .inl (List.dropLast_subset _ hhere)
      · rcases List.mem_append.mp hhere with hhere | hhere
        · exact .inl hhere
        · obtain rfl := List.mem_singleton.mp hhere
          simp only [Bool.or_eq_true, List.isEmpty_iff, decide_eq_true_eq, not_or] at hstay
          exact .inr ⟨List.mem_cons_self, hstay.1, hstay.2, hup⟩
    · exact .inr ⟨List.mem_cons_of_mem first hname, hne⟩

/-- Once its dots are worked out, a rooted path has only proper names. -/
theorem IsRooted.normal {p : Path} (h : p.IsRooted) : p.normal.IsProper := by
  refine ⟨h.absolute, fun name hname => ?_⟩
  rcases mem_foldl_lexicalStep hname with hnil | ⟨hmem, hempty, hhere, habove⟩
  · cases hnil
  · exact ⟨hempty, hhere, habove, h.slash_notMem name hmem⟩

theorem IsProper.normal_eq {p : Path} (h : p.IsProper) : p.normal = p := by
  rw [Path.normal, foldl_lexicalStep [] p.parts h.names, List.nil_append]

theorem head?_text {p : Path} (h : p.isAbsolute = true) : p.text.head? = some '/' := by
  obtain ⟨slashes, parts⟩ := p
  obtain ⟨n, rfl⟩ : ∃ n, slashes = n + 1 :=
    Nat.exists_eq_add_one_of_ne_zero (Nat.ne_of_gt (of_decide_eq_true h))
  simp [text, List.replicate_succ]

theorem isAbsolute_ofText {t : Text} (h : t.head? = some '/') :
    (ofText t).isAbsolute = true := by
  cases t with
  | nil => cases h
  | cons c t =>
    obtain rfl : c = '/' := Option.some.inj h
    simp only [isAbsolute, ofText, rootSlashes, List.takeWhile_cons, BEq.rfl, if_true,
      List.length_cons, decide_eq_true_eq]
    split_ifs <;> omega

theorem isAbsolute_under {base : Path} (h : base.isAbsolute = true) (p : Path) :
    (base.under p).isAbsolute = true := by
  unfold under
  split_ifs with habsolute
  · exact habsolute
  · exact h

theorem isAbsolute_child {base : Path} (h : base.isAbsolute = true) (t : Text) :
    (base.child t).isAbsolute = true := isAbsolute_under h _

/-- A path taken from a proper one is proper unless it goes up. -/
theorem isProper_child {base : Path} (h : base.IsProper) (t : Text)
    (hup : ['.', '.'] ∉ (base.child t).parts) : (base.child t).IsProper := by
  refine ⟨isAbsolute_child h.absolute t, fun name hname => ?_⟩
  have htext (hpart : name ∈ (ofText t).parts) : IsEntryName name := by
    have hnamed := (List.mem_filter.mp hpart).2
    rw [isNamed, Bool.and_eq_true, Bool.not_eq_true', List.isEmpty_eq_false_iff,
      bne_iff_ne] at hnamed
    exact ⟨hnamed.1, hnamed.2, fun heq => hup (heq ▸ hname), slash_notMem_of_mem_ofText hpart⟩
  have hmem := hname
  unfold child under at hmem
  split_ifs at hmem
  · exact htext hmem
  · exact (List.mem_append.mp hmem).elim (h.names name) htext

theorem isNamed_of_isEntryName {name : Text} (h : IsEntryName name) : isNamed name = true := by
  rw [isNamed, Bool.and_eq_true, Bool.not_eq_true', List.isEmpty_eq_false_iff, bne_iff_ne]
  exact ⟨h.ne_nil, h.ne_here⟩

theorem IsProper.isRooted {p : Path} (h : p.IsProper) : p.IsRooted :=
  ⟨h.absolute, fun name hname => (h.names name hname).slash_notMem⟩

theorem text_eq {p : Path} (h : p.slashes ≠ 0 ∨ p.parts ≠ []) :
    p.text = List.replicate p.slashes '/' ++ join ['/'] p.parts := by
  rcases h with hslashes | hparts
  · simp [text, hslashes]
  · simp [text, hparts]

/-- A path is written with its names, and nothing else, between slashes. -/
theorem exists_splitSlashes {p : Path} (hslash : ∀ name ∈ p.parts, '/' ∉ name)
    (h : p.slashes ≠ 0 ∨ p.parts ≠ []) :
    ∃ blanks, splitSlashes p.text = blanks ++ p.parts ∧ ∀ b ∈ blanks, b = [] := by
  have htext := text_eq h
  obtain ⟨slashes, parts⟩ := p
  have hstart (n : Nat) (t : Text) :
      (List.replicate n '/' ++ t).splitOn '/' = List.replicate n [] ++ t.splitOn '/' := by
    induction n with
    | zero => rfl
    | succ n ih =>
      rw [List.replicate_succ, List.cons_append, List.splitOn_cons_eq_if_modifyHead, ih,
        if_pos (by decide)]
      rfl
  unfold splitSlashes
  rw [htext, hstart]
  cases parts with
  | nil =>
    refine ⟨List.replicate slashes [] ++ [[]], by rw [List.append_nil]; rfl, fun b hb => ?_⟩
    rcases List.mem_append.mp hb with hb | hb
    · exact List.eq_of_mem_replicate hb
    · exact List.mem_singleton.mp hb
  | cons name parts =>
    have hjoin : (join ['/'] (name :: parts)).splitOn '/' = name :: parts :=
      List.splitOn_intercalate '/' hslash (List.cons_ne_nil name parts)
    rw [hjoin]
    exact ⟨_, rfl, fun b hb => List.eq_of_mem_replicate hb⟩

theorem IsRooted.slashes_ne_zero {p : Path} (h : p.IsRooted) : p.slashes ≠ 0 :=
  Nat.ne_of_gt (of_decide_eq_true h.absolute)

theorem foldl_lexicalStep_blanks {blanks : List Text} (h : ∀ b ∈ blanks, b = [])
    (here : Location) : blanks.foldl lexicalStep here = here := by
  induction blanks with
  | nil => rfl
  | cons b blanks ih =>
    obtain rfl := h b List.mem_cons_self
    exact ih fun c hc => h c (List.mem_cons_of_mem _ hc)

/-- The text of a path from the root leads where the path does. -/
theorem IsRooted.foldl_splitSlashes {p : Path} (h : p.IsRooted) :
    (splitSlashes p.text).foldl lexicalStep [] = p.place := by
  obtain ⟨blanks, hsplit, hblanks⟩ := exists_splitSlashes h.slash_notMem (.inl h.slashes_ne_zero)
  rw [hsplit, List.foldl_append, foldl_lexicalStep_blanks hblanks]
  rfl

/-- Where a path from the root leads there is nothing but proper names. -/
theorem IsRooted.isProper_place {p : Path} (h : p.IsRooted) :
    (Path.absolute p.place).IsProper :=
  ⟨rfl, h.normal.names⟩

theorem above_eq {p : Path} (habsolute : p.isAbsolute = true) (hup : ['.', '.'] ∉ p.parts) :
    p.above = ⟨p.slashes, p.parts.dropLast⟩ := by
  unfold above
  split
  · next hnone =>
    rw [if_pos habsolute, List.getLast?_eq_none_iff.mp hnone]
    obtain ⟨slashes, parts⟩ := p
    obtain rfl : parts = [] := List.getLast?_eq_none_iff.mp hnone
    rfl
  · next last hlast =>
    have hlast' := List.mem_of_getLast? hlast
    rw [if_neg]
    rintro rfl
    exact hup hlast'

end Path

/-- What links were resolved to are rooted paths. -/
def LinkMemory.IsRooted (known : LinkMemory) : Prop :=
  ∀ met p, (met, some p) ∈ known → p.IsRooted

/-- A resolution that leads to a path leads to a rooted one. -/
def Resolution.IsRooted (r : Resolution) : Prop := ∀ p, r = .resolved p → p.IsRooted

namespace Tree

section Rooted

/-- A link that is under way leads nowhere yet. -/
theorem LinkMemory.IsRooted.cons_none {known : LinkMemory} (h : known.IsRooted) (met : Path) :
    LinkMemory.IsRooted ((met, none) :: known) := by
  rintro q p (_ | ⟨_, hmem⟩)
  exact h q p hmem

theorem LinkMemory.IsRooted.cons_some {known : LinkMemory} (h : known.IsRooted) (met : Path)
    {p : Path} (hp : p.IsRooted) : LinkMemory.IsRooted ((met, some p) :: known) := by
  rintro q r (_ | ⟨_, hmem⟩)
  · exact hp
  · exact h q r hmem

variable (tree : Tree) (base : Location)

theorem resolveBy_isRooted (follow : LinkMemory → Path → Text → Resolution × LinkMemory)
    (hfollow : ∀ known here t, LinkMemory.IsRooted known → here.IsRooted →
      (follow known here t).1.IsRooted ∧ (follow known here t).2.IsRooted)
    (known : LinkMemory) (here : Path) (names : List Text) (hknown : known.IsRooted)
    (hhere : here.IsRooted) (hnames : ∀ name ∈ names, '/' ∉ name) :
    (tree.resolveBy base follow known here names).1.IsRooted ∧
      (tree.resolveBy base follow known here names).2.IsRooted := by
  have hstuck (t : Text) : (Resolution.stuck t).IsRooted := fun _ h => nomatch h
  induction names generalizing known here with
  | nil => exact ⟨fun p hp => Resolution.resolved.inj hp ▸ hhere, hknown⟩
  | cons name names ih =>
    have hrest : ∀ n ∈ names, '/' ∉ n := fun n hn => hnames n (List.mem_cons_of_mem name hn)
    have hnext := hhere.concat (hnames name List.mem_cons_self)
    rw [resolveBy]
    split_ifs with hstay hup
    · exact ih known here hknown hhere hrest
    · exact ih known here.above hknown hhere.above hrest
    · dsimp only
      split
      · exact ih known _ hknown hnext hrest
      · next p _ hlookup =>
        obtain ⟨before, later, rfl, -⟩ := List.lookup_eq_some_iff.mp hlookup
        exact ih _ p hknown (hknown ⟨here.slashes, here.parts ++ [name]⟩ p (by simp)) hrest
      · exact ⟨hstuck _, hknown⟩
      · next target _ _ =>
        -- the link is remembered as under way while its target is resolved
        have hunder := LinkMemory.IsRooted.cons_none hknown ⟨here.slashes, here.parts ++ [name]⟩
        obtain ⟨hresult, hmemory⟩ := hfollow _ here target hunder hhere
        split
        · next p others hfound =>
          rw [hfound] at hresult hmemory
          have hp : p.IsRooted := hresult p rfl
          exact ih _ p (LinkMemory.IsRooted.cons_some hmemory _ hp) hp hrest
        · next t others hfound =>
          rw [hfound] at hmemory
          exact ⟨hstuck _, hmemory⟩

theorem resolveFrom_isRooted (depth : Nat) (known : LinkMemory) (here : Path) (t : Text)
    (hknown : known.IsRooted) (hhere : here.IsRooted ∨ t.head? = some '/') :
    (tree.resolveFrom base depth known here t).1.IsRooted ∧
      (tree.resolveFrom base depth known here t).2.IsRooted := by
  induction depth generalizing known here t with
  | zero => exact ⟨fun _ h => (nomatch h), hknown⟩
  | succ depth ih =>
    rw [resolveFrom]
    refine tree.resolveBy_isRooted base _ (fun k p u hk hp => ih k p u hk (.inl hp)) known _ _
      hknown ?_ fun name hname => Path.slash_notMem_of_mem_splitSlashes hname
    split_ifs with habsolute
    · exact Path.isRooted_absolute_nil
    · exact hhere.resolve_right habsolute

theorem isAbsolute_resolve (p : Path) : (tree.resolve base p).isAbsolute = true := by
  unfold resolve
  dsimp only
  split
  · next q hq =>
    unfold Path.under Path.normal
    split_ifs with habsolute
    · exact habsolute
    · rfl
  · next t ht =>
    refine Path.isAbsolute_ofText ?_
    unfold Path.joinText
    have hbase := Path.head?_text (p := Path.absolute base) rfl
    obtain ⟨c, rest, hcons⟩ := List.exists_cons_of_ne_nil (List.ne_nil_of_mem
      (List.mem_of_head? hbase))
    rw [hcons] at hbase ⊢
    split_ifs with habsolute
    · exact habsolute
    · exact hbase
    · exact hbase

/-- A path from the root is resolved to one with proper names. -/
theorem isProper_resolve {p : Path} (h : p.isAbsolute = true) : (tree.resolve base p).IsProper := by
  have hrooted := (tree.resolveFrom_isRooted base (tree.linkCount * (base.length + 2) + 1) []
    ⟨0, []⟩ p.text (fun _ _ hmem => nomatch hmem) (.inr (Path.head?_text h))).1
  have habsolute := tree.isAbsolute_resolve base p
  unfold resolve at habsolute ⊢
  dsimp only at habsolute ⊢
  split
  · next q hq =>
    have hq' := hrooted q hq
    rw [Path.under, if_pos hq'.absolute]
    exact hq'.normal
  · next t ht =>
    simp only [ht] at habsolute
    exact Path.IsRooted.normal ⟨habsolute, fun name hname => Path.slash_notMem_of_mem_ofText hname⟩

end Rooted

section LinkFree

variable {tree other : Tree}

theorem LinkFree.linkAt?_eq_none (h : tree.LinkFree) (base : Location) (p : Path) :
    tree.linkAt? base p = none := by
  unfold linkAt?
  dsimp only
  split
  · next target hfound => exact absurd (Option.ite_none_left_eq_some.mp hfound).2 (h _ target)
  · rfl

/-- Without links nothing is followed and nothing remembered. -/
theorem LinkFree.resolveBy_eq (h : tree.LinkFree) (hother : other.LinkFree) (base : Location)
    (follow others : LinkMemory → Path → Text → Resolution × LinkMemory) (known : LinkMemory)
    (here : Path) (names : List Text) :
    tree.resolveBy base follow known here names =
      other.resolveBy base others known here names := by
  induction names generalizing here with
  | nil => rfl
  | cons name names ih =>
    rw [resolveBy, resolveBy]
    simp only [h.linkAt?_eq_none, hother.linkAt?_eq_none, ih]

/-- Trees without links resolve a path alike. -/
theorem LinkFree.resolve_eq (h : tree.LinkFree) (hother : other.LinkFree) (base : Location)
    (p : Path) : tree.resolve base p = other.resolve base p := by
  have hfrom (m n : Nat) (known : LinkMemory) (here : Path) (t : Text) :
      tree.resolveFrom base (m + 1) known here t =
        other.resolveFrom base (n + 1) known here t :=
    h.resolveBy_eq hother base _ _ known _ _
  unfold resolve
  dsimp only
  rw [hfrom _ (other.linkCount * (base.length + 2))]

theorem LinkFree.slashes_resolveBy (h : tree.LinkFree) (base : Location)
    (follow : LinkMemory → Path → Text → Resolution × LinkMemory) (known : LinkMemory)
    (here : Path) (names : List Text) :
    ∃ q, (tree.resolveBy base follow known here names).1 = .resolved q ∧
      (q.slashes = here.slashes) := by
  induction names generalizing here with
  | nil => exact ⟨here, rfl, rfl⟩
  | cons name names ih =>
    rw [resolveBy]
    split_ifs
    · exact ih here
    · obtain ⟨q, hq, hslashes⟩ := ih here.above
      refine ⟨q, hq, hslashes.trans ?_⟩
      unfold Path.above
      split
      · split_ifs with habsolute
        · rfl
        · exact (Nat.eq_zero_of_not_pos fun hpos => habsolute (decide_eq_true hpos)).symm
      · split_ifs <;> rfl
    · dsimp only
      rw [h.linkAt?_eq_none]
      exact ih _

/-- Without links a path is resolved to one that starts with a single slash. -/
theorem LinkFree.slashes_resolve (h : tree.LinkFree) (base : Location) (p : Path) :
    (tree.resolve base p).slashes = 1 := by
  unfold resolve resolveFrom
  dsimp only
  obtain ⟨q, hq, hslashes⟩ := h.slashes_resolveBy base (tree.resolveFrom base
    (tree.linkCount * (base.length + 2))) []
    (if p.text.head? = some '/' then Path.absolute [] else ⟨0, []⟩) (Path.splitSlashes p.text)
  rw [hq]
  dsimp only
  unfold Path.normal Path.under
  split_ifs with habsolute
  · split_ifs at hslashes with hroot
    · exact hslashes
    · rw [Path.isAbsolute, hslashes] at habsolute
      cases habsolute
  · rfl

/-- Without links a path without dots is followed by names alone. -/
theorem LinkFree.resolveBy_eq_foldl (h : tree.LinkFree) (base : Location)
    (follow : LinkMemory → Path → Text → Resolution × LinkMemory) (known : LinkMemory)
    {here : Path} (habsolute : here.isAbsolute = true) (hup : ['.', '.'] ∉ here.parts)
    (names : List Text) :
    (tree.resolveBy base follow known here names).1 =
      .resolved ⟨here.slashes, names.foldl Path.lexicalStep here.parts⟩ := by
  induction names generalizing here with
  | nil => rfl
  | cons name names ih =>
    rw [resolveBy, List.foldl_cons, Path.lexicalStep]
    split_ifs with hstay hback
    · exact ih habsolute hup
    · rw [Path.above_eq habsolute hup]
      exact ih habsolute fun hmem => hup (List.dropLast_subset _ hmem)
    · dsimp only
      rw [h.linkAt?_eq_none]
      refine ih habsolute fun hmem => ?_
      rcases List.mem_append.mp hmem with hmem | hmem
      · exact hup hmem
      · exact hback (List.mem_singleton.mp hmem).symm

/-- Without links a path from the root is resolved by name alone. -/
theorem LinkFree.resolve_of_isRooted (h : tree.LinkFree) (base : Location) {p : Path}
    (hp : p.IsRooted) : tree.resolve base p = Path.absolute p.place := by
  have hwalk (follow : LinkMemory → Path → Text → Resolution × LinkMemory) (names : List Text) :
      (tree.resolveBy base follow [] (Path.absolute []) names).1 =
        .resolved (Path.absolute (names.foldl Path.lexicalStep [])) :=
    h.resolveBy_eq_foldl base follow [] rfl List.not_mem_nil names
  unfold resolve resolveFrom
  dsimp only
  rw [if_pos (Path.head?_text hp.absolute), hwalk, hp.foldl_splitSlashes]
  exact hp.isProper_place.normal_eq

/-- Without links a proper path stands for itself. -/
theorem LinkFree.resolve_of_isProper (h : tree.LinkFree) (base : Location) {p : Path}
    (hp : p.IsProper) : tree.resolve base p = ⟨1, p.parts⟩ := by
  rw [h.resolve_of_isRooted base hp.isRooted, p.place_eq hp.names]
  rfl

end LinkFree

end Tree

namespace Action

variable {w : Workspace} {p : Path}

theorem reads_resolve (p : Path) : Reads (resolve p) :=
  (reads_refuseUnusable p).bind fun _ =>
    .look (fun _ _ h => by simp only [h.tree, h.directory, h.lookup_eq]) fun _ =>
      .ite (.fatal _) (.pure _)

theorem neverReports_refuseUnusable (p : Path) : NeverReports (refuseUnusable p) := by
  unfold refuseUnusable
  exact .ite (.fatal _) (.ite (.fatal _) (.pure _))

theorem neverReports_resolve (p : Path) : NeverReports (resolve p) :=
  (neverReports_refuseUnusable p).bind fun _ => .bind .get fun _ => .ite (.fatal _) (.pure _)

/-- What a path is resolved to, whatever links are met. -/
theorem eq_of_resolve {q : Path} {after : Workspace} (h : (resolve p).perform w = (.ok q, after)) :
    after = w ∧ p.isWritable = true ∧ q = w.tree.resolve w.directory p := by
  unfold resolve at h
  obtain ⟨⟨⟩, hrefuse, h⟩ := ((reads_refuseUnusable p).perform_bind_eq_ok_iff w after q).mp h
  rw [perform_bind_of_ok _ (perform_get w)] at h
  dsimp only at h
  refine ⟨?_, isWritable_of_refuseUnusable hrefuse, ?_⟩ <;> split_ifs at h <;> cases h <;> rfl

theorem resolve_eq_ok_iff (hw : w.tree.LinkFree) (q : Path) (after : Workspace) :
    (resolve p).perform w = (.ok q, after) ↔
      after = w ∧ p.isWritable = true ∧ q = w.tree.resolve w.directory p := by
  refine ⟨eq_of_resolve, ?_⟩
  rintro ⟨rfl, hwritable, rfl⟩
  unfold resolve
  rw [perform_bind_of_ok _ (perform_refuseUnusable hwritable after),
    perform_bind_of_ok _ (perform_get after)]
  dsimp only
  rw [if_neg]
  · rfl
  · intro hloop
    split at hloop
    · next heq => exact Workspace.lookup_ne_linkLoop hw _ heq
    · cases hloop

/-- Workspaces with trees without links and the same directory resolve a path alike. -/
theorem resolve_congr {other : Workspace} (hw : w.tree.LinkFree) (hother : other.tree.LinkFree)
    (hdirectory : other.directory = w.directory) {q : Path}
    (h : (resolve p).perform w = (.ok q, w)) : (resolve p).perform other = (.ok q, other) := by
  obtain ⟨-, hwritable, rfl⟩ := eq_of_resolve h
  rw [resolve_eq_ok_iff hother, hdirectory]
  exact ⟨rfl, hwritable, hw.resolve_eq hother _ p⟩

theorem reads_relativeText (p base : Path) : Reads (relativeText p base) :=
  (reads_resolve p).bind fun _ => .ite (.pure _) ((reads_resolve base).bind fun _ => .pure _)

theorem neverReports_relativeText (p base : Path) : NeverReports (relativeText p base) :=
  (neverReports_resolve p).bind fun _ =>
    .ite (.pure _) ((neverReports_resolve base).bind fun _ => .pure _)

theorem relativeText_congr {other : Workspace} {base : Path} (hw : w.tree.LinkFree)
    (hother : other.tree.LinkFree) (hdirectory : other.directory = w.directory) {t : Text}
    (h : (relativeText p base).perform w = (.ok t, w)) :
    (relativeText p base).perform other = (.ok t, other) := by
  unfold relativeText at h ⊢
  obtain ⟨q, hq, h⟩ := ((reads_resolve p).perform_bind_eq_ok_iff w w t).mp h
  rw [perform_bind_of_ok _ (resolve_congr hw hother hdirectory hq)]
  split_ifs at h ⊢ with hbase
  · cases h
    rfl
  · obtain ⟨r, hr, h⟩ := ((reads_resolve base).perform_bind_eq_ok_iff w w t).mp h
    cases h
    rw [perform_bind_of_ok _ (resolve_congr hw hother hdirectory hr)]
    rfl

end Action

end NativeGlue
