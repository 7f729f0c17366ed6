import NativeGlue.Proofs.Files.Tree

/-!
Trees that grow. Directories are made where nothing was, and files are written at given locations;
the other files and all directories stay what they are. A regular tree, whose nodes are files and
directories with proper and different names in them, stays one.
-/

namespace NativeGlue

open Text

/-- A text that names one entry of a directory. -/
structure IsEntryName (name : Text) : Prop where
  ne_nil : name ≠ []
  ne_here : name ≠ ['.']
  ne_above : name ≠ ['.', '.']
  slash_notMem : '/' ∉ name

instance (name : Text) : Decidable (IsEntryName name) :=
  decidable_of_iff (name ≠ [] ∧ name ≠ ['.'] ∧ name ≠ ['.', '.'] ∧ '/' ∉ name)
    ⟨fun ⟨hnil, hhere, habove, hslash⟩ => ⟨hnil, hhere, habove, hslash⟩,
      fun ⟨hnil, hhere, habove, hslash⟩ => ⟨hnil, hhere, habove, hslash⟩⟩

namespace Tree

/-- Only files and directories, and in each directory different entries with proper names. -/
structure Regular (tree : Tree) : Prop where
  linkFree : tree.LinkFree
  no_device : ∀ place, tree.find? place ≠ some null
  distinct : tree.HasDistinctNames
  named : ∀ place inside, tree.find? place = some (directory inside) →
    ∀ e ∈ inside, IsEntryName e.1

/-- Directories stay, and what is no directory stays but where something was written. -/
structure Extends (written : Location → Prop) (before after : Tree) : Prop where
  directories : ∀ place, before.HasDirectory place → after.HasDirectory place
  leaves : ∀ place, ¬ written place → after.leaf? place = before.leaf? place
  linkFree : before.LinkFree → after.LinkFree

/-- What is new lies at or above what was written, and a regular tree stays regular. -/
structure Grows (written : Location → Prop) (before after : Tree) : Prop
    extends Extends written before after where
  regular : before.Regular → after.Regular
  fresh : ∀ place, (after.find? place).isSome →
    (before.find? place).isSome ∨ ∃ target, written target ∧ place <+: target

variable {written other : Location → Prop} {before middle after : Tree}

theorem Extends.refl (written : Location → Prop) (tree : Tree) : Extends written tree tree :=
  ⟨fun _ h => h, fun _ _ => rfl, id⟩

theorem Extends.mono (h : Extends written before after)
    (hall : ∀ place, written place → other place) : Extends other before after :=
  ⟨h.directories, fun place hplace => h.leaves place fun hw => hplace (hall place hw), h.linkFree⟩

theorem Extends.trans (hfirst : Extends written before middle)
    (hsecond : Extends written middle after) : Extends written before after where
  directories place h := hsecond.directories place (hfirst.directories place h)
  leaves place h := (hsecond.leaves place h).trans (hfirst.leaves place h)
  linkFree h := hsecond.linkFree (hfirst.linkFree h)

/-- What is somewhere stays there unless something is written there. -/
theorem Extends.isSome (h : Extends written before after) {place : Location}
    (hplace : ¬ written place) (hsome : (before.find? place).isSome) :
    (after.find? place).isSome := by
  obtain ⟨found, hfound⟩ := Option.isSome_iff_exists.mp hsome
  cases hdirectory : found.isDirectory with
  | false =>
    have hleaf := h.leaves place hplace
    rw [(leaf?_eq_some_iff _ _ _).mpr ⟨hfound, hdirectory⟩] at hleaf
    rw [((leaf?_eq_some_iff _ _ _).mp hleaf).1]
    rfl
  | true =>
    obtain ⟨inside, rfl⟩ : ∃ inside, found = directory inside := by
      cases found with
      | directory inside => exact ⟨inside, rfl⟩
      | _ => cases hdirectory
    obtain ⟨later, hlater⟩ := h.directories place ⟨inside, hfound⟩
    rw [hlater]
    rfl

theorem Grows.refl (written : Location → Prop) (tree : Tree) : Grows written tree tree :=
  ⟨.refl written tree, id, fun _ h => .inl h⟩

theorem Grows.mono (h : Grows written before after)
    (hall : ∀ place, written place → other place) : Grows other before after :=
  ⟨h.toExtends.mono hall, h.regular, fun place hplace =>
    (h.fresh place hplace).imp_right fun ⟨target, ht, hp⟩ => ⟨target, hall target ht, hp⟩⟩

theorem Grows.trans (hfirst : Grows written before middle) (hsecond : Grows written middle after) :
    Grows written before after where
  toExtends := hfirst.toExtends.trans hsecond.toExtends
  regular h := hsecond.regular (hfirst.regular h)
  fresh place h := (hsecond.fresh place h).elim (hfirst.fresh place) .inr

/-- A location above another leads on by at least one name. -/
theorem exists_cons_of_prefix {above place : Location} (habove : above <+: place)
    (hne : ¬ place <+: above) : ∃ name rest, place = above ++ name :: rest := by
  obtain ⟨rest, rfl⟩ := habove
  cases rest with
  | nil => exact absurd ⟨[], by simp⟩ hne
  | cons name rest => exact ⟨name, rest, rfl⟩

/-- The names that lead to something in a regular tree are proper. -/
theorem Regular.isEntryName {tree found : Tree} (h : tree.Regular) {place : Location}
    (hfound : tree.find? place = some found) : ∀ name ∈ place, IsEntryName name := by
  intro name hname
  obtain ⟨above, below, rfl⟩ := List.append_of_mem hname
  obtain ⟨inside, hinside⟩ := hasDirectory_of_append (List.cons_ne_nil name below) hfound
  rw [find?_append, hinside, Option.bind_some, find?] at hfound
  obtain ⟨sub, hsub, -⟩ := Option.bind_eq_some_iff.mp hfound
  obtain ⟨before, later, rfl, -⟩ := List.lookup_eq_some_iff.mp hsub
  exact h.named above _ hinside (name, sub) (by simp)

section Put

variable (tree new : Tree) (place : Location)

theorem hasDirectory_put {above : Location} (h : tree.Holds place) (habove : ¬ place <+: above)
    (hdirectory : tree.HasDirectory above) : (tree.put place new).HasDirectory above := by
  obtain ⟨inside, hinside⟩ := hdirectory
  unfold HasDirectory
  rw [tree.find?_put new place above h, if_neg habove]
  by_cases hbelow : above <+: place
  · rw [if_pos hbelow, hinside, Option.map_some]
    obtain ⟨name, rest, rfl⟩ := exists_cons_of_prefix hbelow habove
    rw [List.drop_left]
    exact ⟨_, rfl⟩
  · exact ⟨inside, by rw [if_neg hbelow, hinside]⟩

/-- Above the location stand directories. -/
theorem hasDirectory_of_prefix {above : Location} (h : tree.Holds place)
    (habove : above <+: place) (hne : ¬ place <+: above) : tree.HasDirectory above := by
  obtain ⟨name, rest, rfl⟩ := exists_cons_of_prefix habove hne
  have hdirectory := h.resolve_left (by simp)
  rw [List.dropLast_append_of_ne_nil (List.cons_ne_nil name rest)] at hdirectory
  exact hdirectory.append

/-- Besides directories, what is found comes from what was put or was there before. -/
theorem find?_put_cases (h : tree.Holds place) {other : Location}
    (hother : ¬ (tree.put place new).HasDirectory other) :
    (∃ rest, (tree.put place new).find? other = new.find? rest) ∨
      (tree.put place new).find? other = tree.find? other := by
  by_cases hbelow : place <+: other
  · exact .inl ⟨_, by rw [tree.find?_put new place other h, if_pos hbelow]⟩
  · by_cases habove : other <+: place
    · have hdirectory := tree.hasDirectory_of_prefix place h habove hbelow
      exact absurd (tree.hasDirectory_put new place h hbelow hdirectory) hother
    · exact .inr (by rw [tree.find?_put new place other h, if_neg hbelow, if_neg habove])

theorem linkFree_put (h : tree.Holds place) (htree : tree.LinkFree) (hnew : new.LinkFree) :
    (tree.put place new).LinkFree := by
  intro other target
  by_cases hdirectory : (tree.put place new).HasDirectory other
  · obtain ⟨inside, hinside⟩ := hdirectory
    rw [hinside]
    simp
  · rcases tree.find?_put_cases new place h hdirectory with ⟨rest, heq⟩ | heq
    · rw [heq]
      exact hnew rest target
    · rw [heq]
      exact htree other target

theorem leaf?_put_of_ne (h : tree.Holds place) (hplace : ¬ tree.HasDirectory place)
    (hnew : ∀ rest ≠ [], new.find? rest = none) {other : Location} (hother : other ≠ place) :
    (tree.put place new).leaf? other = tree.leaf? other := by
  by_cases hbelow : place <+: other
  · obtain ⟨rest, rfl⟩ := hbelow
    have hrest : rest ≠ [] := fun hnil => hother (by rw [hnil, List.append_nil])
    have hnone : tree.find? (place ++ rest) = none := by
      by_contra hsome
      obtain ⟨found, hfound⟩ := Option.ne_none_iff_exists'.mp hsome
      exact hplace (hasDirectory_of_append hrest hfound)
    rw [leaf?, tree.find?_put new place _ h, if_pos (List.prefix_append place rest),
      List.drop_left, hnew rest hrest, leaf?, hnone]
  · by_cases habove : other <+: place
    · have hdirectory := tree.hasDirectory_of_prefix place h habove hbelow
      rw [leaf?_eq_none_of_hasDirectory hdirectory,
        leaf?_eq_none_of_hasDirectory (tree.hasDirectory_put new place h hbelow hdirectory)]
    · rw [leaf?, tree.find?_put new place other h, if_neg hbelow, if_neg habove, leaf?]

theorem find?_put_self (h : tree.Holds place) : (tree.put place new).find? place = some new := by
  rw [tree.find?_put new place place h, if_pos List.prefix_rfl, List.drop_length]
  rfl

theorem isSome_of_isSome_put (h : tree.Holds place) (hnew : ∀ rest ≠ [], new.find? rest = none)
    {other : Location} (hother : ((tree.put place new).find? other).isSome) :
    (tree.find? other).isSome ∨ other = place := by
  rw [tree.find?_put new place other h] at hother
  split_ifs at hother with hbelow habove
  · obtain ⟨rest, rfl⟩ := hbelow
    by_cases hrest : rest = []
    · exact .inr (by rw [hrest, List.append_nil])
    · rw [List.drop_left, hnew rest hrest] at hother
      cases hother
  · rw [Option.isSome_map] at hother
    exact .inl hother
  · exact .inl hother

/-- The entries of a directory after something was put into the tree. -/
theorem inside_of_put (h : tree.Holds place) (hnew : ∀ rest, new.find? rest ≠ none → rest = [])
    (hdirectory : ∀ inside, new = directory inside → inside = []) {other : Location}
    {inside : List (Text × Tree)}
    (hother : (tree.put place new).find? other = some (directory inside)) :
    inside = [] ∨ tree.find? other = some (directory inside) ∨
      ∃ old name sub, tree.find? other = some (directory old) ∧ name ∈ place ∧
        inside = setIn name sub old := by
  rw [tree.find?_put new place other h] at hother
  split_ifs at hother with hbelow habove
  · obtain ⟨rest, rfl⟩ := hbelow
    rw [List.drop_left] at hother
    have hrest := hnew rest (by rw [hother]; exact Option.some_ne_none _)
    rw [hrest] at hother
    exact .inl (hdirectory inside (Option.some.inj hother))
  · obtain ⟨old, hold⟩ := tree.hasDirectory_of_prefix place h habove hbelow
    rw [hold, Option.map_some, Option.some.injEq] at hother
    obtain ⟨name, rest, rfl⟩ := exists_cons_of_prefix habove hbelow
    rw [List.drop_left, put, directory.injEq] at hother
    exact .inr (.inr ⟨old, name, _, hold, by simp, hother.symm⟩)
  · exact .inr (.inl hother)

theorem regular_put (h : tree.Holds place) (htree : tree.Regular)
    (hnames : ∀ name ∈ place, IsEntryName name) (hlinks : new.LinkFree) (hdevice : new ≠ null)
    (hnew : ∀ rest, new.find? rest ≠ none → rest = [])
    (hdirectory : ∀ inside, new = directory inside → inside = []) :
    (tree.put place new).Regular where
  linkFree := tree.linkFree_put new place h htree.linkFree hlinks
  no_device other := by
    intro hfound
    have hother : ¬ (tree.put place new).HasDirectory other := by
      rintro ⟨inside, hinside⟩
      rw [hfound] at hinside
      cases hinside
    rcases tree.find?_put_cases new place h hother with ⟨rest, heq⟩ | heq
    · rw [heq] at hfound
      have hrest := hnew rest (by rw [hfound]; exact Option.some_ne_none _)
      rw [hrest] at hfound
      exact hdevice (Option.some.inj hfound)
    · exact htree.no_device other (heq.symm.trans hfound)
  distinct other inside hother := by
    rcases tree.inside_of_put new place h hnew hdirectory hother with
      rfl | hsame | ⟨old, name, sub, hold, -, rfl⟩
    · exact List.nodup_nil
    · exact htree.distinct other inside hsame
    · exact nodup_names_setIn name sub old (htree.distinct other old hold)
  named other inside hother e he := by
    rcases tree.inside_of_put new place h hnew hdirectory hother with
      rfl | hsame | ⟨old, name, sub, hold, hname, rfl⟩
    · cases he
    · exact htree.named other inside hsame e he
    · rcases mem_setIn name sub old he with rfl | he
      · exact hnames name hname
      · exact htree.named other old hold e he

end Put

/-- A node below which nothing is: a file or an empty directory. -/
inductive IsSingle : Tree → Prop
  | file (bytes : Bytes) : IsSingle (file bytes)
  | empty : IsSingle empty

theorem IsSingle.find? {new : Tree} (h : new.IsSingle) {rest : Location}
    (hrest : rest ≠ []) : new.find? rest = none := by
  obtain ⟨name, rest, rfl⟩ := List.exists_cons_of_ne_nil hrest
  cases h <;> rfl

theorem IsSingle.linkFree {new : Tree} (h : new.IsSingle) : new.LinkFree := by
  intro place target
  by_cases hplace : place = []
  · rw [hplace]
    cases h <;> exact fun hlink => nomatch hlink
  · rw [h.find? hplace]
    exact fun hlink => nomatch hlink

/-- Putting a single node where no directory is writes that location and nothing else. -/
theorem extends_put (tree new : Tree) (place : Location) (h : tree.Holds place)
    (hplace : ¬ tree.HasDirectory place) (hnew : new.IsSingle) :
    Extends (· = place) tree (tree.put place new) where
  directories above habove := by
    refine tree.hasDirectory_put new place h (fun hbelow => hplace ?_) habove
    obtain ⟨rest, rfl⟩ := hbelow
    exact habove.append
  leaves other hother :=
    tree.leaf?_put_of_ne new place h hplace (fun _ hrest => hnew.find? hrest) hother
  linkFree htree := tree.linkFree_put new place h htree hnew.linkFree

theorem grows_put (tree new : Tree) (place : Location) (h : tree.Holds place)
    (hplace : ¬ tree.HasDirectory place) (hnew : new.IsSingle)
    (hnames : ∀ name ∈ place, IsEntryName name) :
    Grows (· = place) tree (tree.put place new) where
  toExtends := tree.extends_put new place h hplace hnew
  regular htree := by
    apply tree.regular_put new place h htree hnames hnew.linkFree
    · cases hnew <;> exact fun hdevice => nomatch hdevice
    · intro rest hrest
      by_contra hne
      exact hrest (hnew.find? hne)
    · rintro inside rfl
      cases hnew
      rfl
  fresh other hother :=
    (tree.isSome_of_isSome_put new place h (fun _ hrest => hnew.find? hrest) hother).imp_right
      fun heq => ⟨place, rfl, [], by rw [heq, List.append_nil]⟩

/-- A new directory leaves every file what it is. -/
theorem leaf?_put_empty (tree : Tree) (place other : Location) (h : tree.Holds place)
    (hplace : tree.find? place = none) : (tree.put place empty).leaf? other = tree.leaf? other := by
  by_cases hother : other = place
  · rw [hother, leaf?, find?_put_self tree empty place h, leaf?, hplace]
    rfl
  · refine tree.leaf?_put_of_ne empty place h ?_ (fun _ hrest => IsSingle.empty.find? hrest) hother
    rintro ⟨inside, hinside⟩
    rw [hplace] at hinside
    cases hinside

end Tree

end NativeGlue
