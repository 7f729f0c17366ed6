import NativeGlue.Command.Sources
import NativeGlue.Proofs.Files.Walk
import NativeGlue.Proofs.Text.Order

/-!
What lies below a directory. A regular tree lists each location below a directory once, with what
is found there, so the candidates for source files are the locations with such a name, in order.
-/

namespace NativeGlue

open Text

namespace Tree

section Entries

variable {name : Text} {rest : Location} {inside : List (Text × Tree)} {found : Tree}

theorem mem_names_of_find? (h : (directory inside).find? (name :: rest) = some found) :
    name ∈ inside.map (·.1) := by
  obtain ⟨sub, hsub, -⟩ := Option.bind_eq_some_iff.mp h
  obtain ⟨before, later, rfl, -⟩ := List.lookup_eq_some_iff.mp hsub
  simp

theorem find?_cons_self (name : Text) (tree : Tree) (inside : List (Text × Tree))
    (rest : Location) :
    (directory ((name, tree) :: inside)).find? (name :: rest) = tree.find? rest := by
  rw [find?, List.lookup_cons_self]
  rfl

/-- What has another name than the first entry is found among the others. -/
theorem find?_cons_of_mem {e : Text × Tree} (h : ((e :: inside).map (·.1)).Nodup)
    (hname : name ∈ inside.map (·.1)) (rest : Location) :
    (directory (e :: inside)).find? (name :: rest) = (directory inside).find? (name :: rest) := by
  have hne : name ≠ e.1 := by
    rintro rfl
    exact (List.nodup_cons.mp h).1 hname
  rw [find?, find?, List.lookup_cons, beq_eq_false_iff_ne.mpr hne]

end Entries

theorem HasDistinctNames.names {inside : List (Text × Tree)}
    (h : (directory inside).HasDistinctNames) : (inside.map (·.1)).Nodup := h [] inside rfl

theorem HasDistinctNames.rest {e : Text × Tree} {rest : List (Text × Tree)}
    (h : (directory (e :: rest)).HasDistinctNames) : (directory rest).HasDistinctNames := by
  rintro (_ | ⟨name, place⟩) inside hinside
  · cases hinside
    exact (List.nodup_cons.mp h.names).2
  · refine h (name :: place) inside ?_
    rw [find?_cons_of_mem h.names (mem_names_of_find? hinside)]
    exact hinside

theorem HasDistinctNames.first {name : Text} {tree : Tree} {rest : List (Text × Tree)}
    (h : (directory ((name, tree) :: rest)).HasDistinctNames) : tree.HasDistinctNames := by
  intro place inside hinside
  refine h (name :: place) inside ?_
  rw [find?_cons_self]
  exact hinside

theorem HasDistinctNames.of_find? {tree found : Tree} {place : Location}
    (h : tree.HasDistinctNames) (hfound : tree.find? place = some found) :
    found.HasDistinctNames := by
  intro below inside hinside
  refine h (place ++ below) inside ?_
  rw [find?_append, hfound]
  exact hinside

section Listed

theorem mem_entriesIn {inside : List (Text × Tree)} {name : Text} {tree : Tree}
    (here : Location) (h : (name, tree) ∈ inside) :
    (here ++ [name], tree) ∈ entriesIn here inside ∧
      ∀ e ∈ entriesFrom (here ++ [name]) tree, e ∈ entriesIn here inside := by
  induction inside with
  | nil => cases h
  | cons first inside ih =>
    obtain ⟨label, sub⟩ := first
    rw [entriesIn]
    rcases List.mem_cons.mp h with heq | h
    · cases heq
      exact ⟨List.mem_cons_self, fun e he => List.mem_cons_of_mem _ (List.mem_append_left _ he)⟩
    · obtain ⟨hself, hbelow⟩ := ih h
      exact ⟨List.mem_append_right _ hself, fun e he => List.mem_append_right _ (hbelow e he)⟩

/-- What is found below a directory is listed. -/
theorem mem_entriesFrom {tree found : Tree} {below : Location} (here : Location)
    (hbelow : below ≠ []) (h : tree.find? below = some found) :
    (here ++ below, found) ∈ entriesFrom here tree := by
  induction below generalizing tree here with
  | nil => exact absurd rfl hbelow
  | cons name below ih =>
    have hsplit : tree.find? ([] ++ name :: below) = some found := h
    obtain ⟨inside, hinside⟩ := hasDirectory_of_append hbelow hsplit
    obtain rfl := Option.some.inj hinside
    obtain ⟨sub, hsub, hfound⟩ := Option.bind_eq_some_iff.mp h
    obtain ⟨before, later, rfl, -⟩ := List.lookup_eq_some_iff.mp hsub
    have hmem : (name, sub) ∈ before ++ (name, sub) :: later := by simp
    obtain ⟨hself, hall⟩ := mem_entriesIn here hmem
    rw [entriesFrom]
    cases below with
    | nil =>
      cases hfound
      exact hself
    | cons next below =>
      have hlisted := ih (here ++ [name]) (List.cons_ne_nil next below) hfound
      rw [List.append_assoc, List.singleton_append] at hlisted
      exact hall _ hlisted

mutual

/-- What is listed is found below the directory. -/
theorem find?_of_mem_entriesFrom (here : Location) (tree : Tree) (h : tree.HasDistinctNames)
    (e : Location × Tree) (he : e ∈ entriesFrom here tree) :
    ∃ below, below ≠ [] ∧ e.1 = here ++ below ∧ tree.find? below = some e.2 := by
  cases tree with
  | directory inside =>
    rw [entriesFrom] at he
    obtain ⟨name, rest, hplace, hfound⟩ := find?_of_mem_entriesIn here inside h e he
    exact ⟨name :: rest, List.cons_ne_nil name rest, hplace, hfound⟩
  | _ => cases he

theorem find?_of_mem_entriesIn (here : Location) (inside : List (Text × Tree))
    (h : (directory inside).HasDistinctNames) (e : Location × Tree)
    (he : e ∈ entriesIn here inside) :
    ∃ name rest, e.1 = here ++ name :: rest ∧
      (directory inside).find? (name :: rest) = some e.2 := by
  cases inside with
  | nil => cases he
  | cons first inside =>
    obtain ⟨label, sub⟩ := first
    rw [entriesIn, List.cons_append, List.mem_cons, List.mem_append] at he
    rcases he with rfl | he | he
    · exact ⟨label, [], rfl, find?_cons_self label sub inside []⟩
    · obtain ⟨below, -, hplace, hfound⟩ :=
        find?_of_mem_entriesFrom (here ++ [label]) sub h.first e he
      refine ⟨label, below, by rw [hplace, List.append_assoc, List.singleton_append], ?_⟩
      rw [find?_cons_self]
      exact hfound
    · obtain ⟨name, rest, hplace, hfound⟩ := find?_of_mem_entriesIn here inside h.rest e he
      refine ⟨name, rest, hplace, ?_⟩
      rw [find?_cons_of_mem h.names (mem_names_of_find? hfound)]
      exact hfound

end

mutual

/-- Each location is listed once. -/
theorem nodup_entriesFrom (here : Location) (tree : Tree) (h : tree.HasDistinctNames) :
    ((entriesFrom here tree).map (·.1)).Nodup := by
  cases tree with
  | directory inside => exact nodup_entriesIn here inside h
  | _ => exact List.nodup_nil

theorem nodup_entriesIn (here : Location) (inside : List (Text × Tree))
    (h : (directory inside).HasDistinctNames) : ((entriesIn here inside).map (·.1)).Nodup := by
  cases inside with
  | nil => exact List.nodup_nil
  | cons first inside =>
    obtain ⟨label, sub⟩ := first
    rw [entriesIn, List.cons_append, List.map_cons, List.map_append, List.nodup_cons,
      List.mem_append, List.nodup_append]
    -- what is listed for the other entries starts with another name
    have hother : ∀ rest, here ++ label :: rest ∉ (entriesIn here inside).map (·.1) := by
      intro rest hmem
      obtain ⟨e, he, hplace⟩ := List.mem_map.mp hmem
      obtain ⟨name, later, hlater, hfound⟩ := find?_of_mem_entriesIn here inside h.rest e he
      rw [hlater, List.append_right_inj, List.cons.injEq] at hplace
      exact (List.nodup_cons.mp h.names).1 (hplace.1 ▸ mem_names_of_find? hfound)
    refine ⟨?_, nodup_entriesFrom (here ++ [label]) sub h.first, nodup_entriesIn here inside h.rest,
      ?_⟩
    · rintro (hbelow | hmem)
      · obtain ⟨e, he, hplace⟩ := List.mem_map.mp hbelow
        obtain ⟨below, hne, hbelow, -⟩ :=
          find?_of_mem_entriesFrom (here ++ [label]) sub h.first e he
        rw [hbelow] at hplace
        exact hne (by simpa using hplace)
      · exact hother [] hmem
    · intro place hbelow other hmem heq
      obtain ⟨e, he, hplace⟩ := List.mem_map.mp hbelow
      obtain ⟨below, -, hbelow, -⟩ := find?_of_mem_entriesFrom (here ++ [label]) sub h.first e he
      rw [hbelow, List.append_assoc, List.singleton_append] at hplace
      exact hother below (hplace.trans heq ▸ hmem)

end

end Listed

variable {tree : Tree} {place : Location}

theorem mem_treesBelow_iff (h : tree.HasDistinctNames) (other : Location) (found : Tree) :
    (other, found) ∈ tree.treesBelow place ↔
      ∃ below, below ≠ [] ∧ other = place ++ below ∧ tree.find? other = some found := by
  unfold treesBelow
  cases hplace : tree.find? place with
  | none =>
    constructor
    · intro hmem
      cases hmem
    · rintro ⟨below, -, rfl, hfound⟩
      rw [find?_eq_none_of_append below hplace] at hfound
      cases hfound
  | some sub =>
    rw [Option.elim_some]
    constructor
    · intro hmem
      obtain ⟨below, hne, hother, hfound⟩ :=
        find?_of_mem_entriesFrom place sub (h.of_find? hplace) _ hmem
      dsimp only at hother hfound
      refine ⟨below, hne, hother, ?_⟩
      rw [hother, find?_append, hplace]
      exact hfound
    · rintro ⟨below, hne, rfl, hfound⟩
      rw [find?_append, hplace] at hfound
      exact mem_entriesFrom place hne hfound

theorem nodup_treesBelow (h : tree.HasDistinctNames) :
    ((tree.treesBelow place).map (·.1)).Nodup := by
  unfold treesBelow
  cases hplace : tree.find? place with
  | none => exact List.nodup_nil
  | some sub => exact nodup_entriesFrom place sub (h.of_find? hplace)

/-- Whether one node may stand in a regular tree. -/
def isRegularNode : Tree → Bool
  | file _ => true
  | program _ => true
  | null => false
  | link _ => false
  | directory inside =>
    decide (inside.map (·.1)).Nodup && inside.all fun e => decide (IsEntryName e.1)

/-- A tree is regular if its nodes are. -/
theorem regular_of_nodes (tree : Tree)
    (h : ((([], tree) :: tree.treesBelow []).all fun e => e.2.isRegularNode) = true) :
    tree.Regular := by
  have hnode (place : Location) (found : Tree) (hfound : tree.find? place = some found) :
      found.isRegularNode = true := by
    rw [List.all_eq_true] at h
    by_cases hplace : place = []
    · rw [hplace] at hfound
      cases hfound
      exact h ([], tree) List.mem_cons_self
    · have hlisted := mem_entriesFrom [] hplace hfound
      exact h _ (List.mem_cons_of_mem _ hlisted)
  have hinside (place : Location) (inside : List (Text × Tree))
      (hfound : tree.find? place = some (directory inside)) :
      (inside.map (·.1)).Nodup ∧ ∀ e ∈ inside, IsEntryName e.1 := by
    have hboth := hnode place _ hfound
    rw [isRegularNode, Bool.and_eq_true, decide_eq_true_eq, List.all_eq_true] at hboth
    exact ⟨hboth.1, fun e he => of_decide_eq_true (hboth.2 e he)⟩
  exact {
    linkFree := fun place target hlink => nomatch hnode place _ hlink
    no_device := fun place hnull => nomatch hnode place _ hnull
    distinct := fun place inside hfound => (hinside place inside hfound).1
    named := fun place inside hfound => (hinside place inside hfound).2 }

end Tree

namespace Sources

variable {tree : Tree} (place : Location)

theorem ne_nil_of_isSourceName {parts : List Text} (h : isSourceName parts = true) :
    parts ≠ [] := by
  rintro rfl
  cases h

theorem mem_candidates_iff (h : tree.HasDistinctNames) (parts : List Text) :
    parts ∈ candidates tree place ↔
      isSourceName parts = true ∧ (tree.find? (place ++ parts)).isSome := by
  unfold candidates
  rw [List.mem_mergeSort, List.mem_filter, List.mem_map, and_comm]
  refine and_congr_right fun hname => ?_
  constructor
  · rintro ⟨⟨other, found⟩, hmem, rfl⟩
    obtain ⟨below, -, rfl, hfound⟩ := (Tree.mem_treesBelow_iff h other found).mp hmem
    rw [List.drop_left, hfound]
    rfl
  · intro hsome
    obtain ⟨found, hfound⟩ := Option.isSome_iff_exists.mp hsome
    refine ⟨(place ++ parts, found), (Tree.mem_treesBelow_iff h _ _).mpr ?_, List.drop_left⟩
    exact ⟨parts, ne_nil_of_isSourceName hname, rfl, hfound⟩

theorem nodup_candidates (h : tree.HasDistinctNames) : (candidates tree place).Nodup := by
  unfold candidates
  rw [(List.mergeSort_perm _ _).nodup_iff]
  refine List.Nodup.filter _ ?_
  have hplaces : ((tree.treesBelow place).map (·.1)).Nodup := Tree.nodup_treesBelow h
  have hdrop : (tree.treesBelow place).map (fun e => e.1.drop place.length) =
      ((tree.treesBelow place).map (·.1)).map fun other => other.drop place.length := by
    rw [List.map_map]
    rfl
  rw [hdrop]
  -- the place itself stands before all that is listed, so nothing is lost with it
  refine (List.nodup_map_iff_inj_on hplaces).mpr fun other hother another hanother heq => ?_
  obtain ⟨e, he, rfl⟩ := List.mem_map.mp hother
  obtain ⟨e', he', rfl⟩ := List.mem_map.mp hanother
  obtain ⟨below, -, hbelow, -⟩ := (Tree.mem_treesBelow_iff h e.1 e.2).mp he
  obtain ⟨below', -, hbelow', -⟩ := (Tree.mem_treesBelow_iff h e'.1 e'.2).mp he'
  rw [hbelow, hbelow', List.drop_left, List.drop_left] at heq
  rw [hbelow, hbelow', heq]

theorem pairwise_candidates (tree : Tree) :
    (candidates tree place).Pairwise fun a b => Path.partsLe a b = true :=
  isTotalOrder_parts.pairwise_mergeSort _

end Sources

end NativeGlue
