import Mathlib.Data.List.Basic
import NativeGlue.Files.Tree

/-!
Looking things up in file trees, and what is found after a tree was put at a location. Below the
location there is what was put, above it stand the directories that stood there before, and
elsewhere nothing changes.
-/

namespace NativeGlue

open Text

namespace Tree

/-- What is at a location and is no directory. -/
def leaf? (tree : Tree) (place : Location) : Option Tree :=
  (tree.find? place).filter fun found => !found.isDirectory

/-- What can be read at a location. -/
def contents? (tree : Tree) (place : Location) : Option Bytes :=
  (tree.find? place).bind bytes?

def HasDirectory (tree : Tree) (place : Location) : Prop :=
  ∃ inside, tree.find? place = some (directory inside)

/-- Whether something can be put at a location: the directory for it is there. -/
def Holds (tree : Tree) (place : Location) : Prop :=
  place = [] ∨ tree.HasDirectory place.dropLast

/-- No symbolic link is anywhere in the tree. -/
def LinkFree (tree : Tree) : Prop := ∀ place target, tree.find? place ≠ some (link target)

/-- In no directory of the tree do two entries have the same name. -/
def HasDistinctNames (tree : Tree) : Prop :=
  ∀ place inside, tree.find? place = some (directory inside) → (inside.map (·.1)).Nodup

theorem find?_append (tree : Tree) (above below : Location) :
    tree.find? (above ++ below) = (tree.find? above).bind fun found => found.find? below := by
  induction above generalizing tree with
  | nil => rfl
  | cons name above ih =>
    cases tree with
    | directory inside =>
      rw [List.cons_append, find?, find?]
      cases inside.lookup name with
      | none => rfl
      | some found => exact ih found
    | _ => rfl

theorem find?_eq_none_of_append {tree : Tree} {above : Location} (below : Location)
    (h : tree.find? above = none) : tree.find? (above ++ below) = none := by
  rw [find?_append, h]
  rfl

/-- Only a directory has something below it. -/
theorem hasDirectory_of_append {tree found : Tree} {above below : Location} (hbelow : below ≠ [])
    (h : tree.find? (above ++ below) = some found) : tree.HasDirectory above := by
  obtain ⟨name, rest, rfl⟩ := List.exists_cons_of_ne_nil hbelow
  rw [find?_append] at h
  obtain ⟨top, htop, hrest⟩ := Option.bind_eq_some_iff.mp h
  cases top with
  | directory inside => exact ⟨inside, htop⟩
  | _ => cases hrest

theorem HasDirectory.append {tree : Tree} {above below : Location}
    (h : tree.HasDirectory (above ++ below)) : tree.HasDirectory above := by
  cases below with
  | nil => rwa [List.append_nil] at h
  | cons name rest =>
    obtain ⟨inside, hinside⟩ := h
    exact hasDirectory_of_append (List.cons_ne_nil name rest) hinside

theorem HasDirectory.dropLast {tree : Tree} {place : Location} (h : tree.HasDirectory place) :
    tree.HasDirectory place.dropLast := by
  rcases List.eq_nil_or_concat place with rfl | ⟨above, name, rfl⟩
  · exact h
  · rw [List.concat_eq_append, List.dropLast_concat]
    rw [List.concat_eq_append] at h
    exact h.append

theorem HasDirectory.holds {tree : Tree} {place : Location} (h : tree.HasDirectory place) :
    tree.Holds place := .inr h.dropLast

theorem holds_concat_iff (tree : Tree) (place : Location) (name : Text) :
    tree.Holds (place ++ [name]) ↔ tree.HasDirectory place := by
  unfold Holds
  rw [List.dropLast_concat]
  simp

theorem leaf?_eq_none_of_hasDirectory {tree : Tree} {place : Location}
    (h : tree.HasDirectory place) : tree.leaf? place = none := by
  obtain ⟨inside, hinside⟩ := h
  rw [leaf?, hinside]
  rfl

theorem leaf?_eq_some_iff (tree : Tree) (place : Location) (found : Tree) :
    tree.leaf? place = some found ↔ tree.find? place = some found ∧ found.isDirectory = false := by
  rw [leaf?, Option.filter_eq_some_iff, Bool.not_eq_true']

theorem contents?_eq (tree : Tree) (place : Location) :
    tree.contents? place = (tree.leaf? place).bind bytes? := by
  unfold contents? leaf?
  cases tree.find? place with
  | none => rfl
  | some found => cases found <;> rfl

section Entries

variable (name other : Text) (tree : Tree) (inside : List (Text × Tree))

theorem lookup_setIn :
    (setIn name tree inside).lookup other =
      if other = name then some tree else inside.lookup other := by
  have hlookup (t : Tree) (others : List (Text × Tree)) :
      ((name, t) :: others).lookup other =
        if other = name then some t else others.lookup other := by
    by_cases h : other = name
    · rw [if_pos h, h, List.lookup_cons_self]
    · rw [if_neg h, List.lookup_cons, beq_eq_false_iff_ne.mpr h]
  induction inside with
  | nil => exact hlookup tree []
  | cons first inside ih =>
    obtain ⟨label, found⟩ := first
    by_cases hlabel : label = name
    · subst hlabel
      rw [setIn, if_pos rfl, hlookup, hlookup]
      by_cases h : other = label <;> simp only [h, if_true, if_false]
    · rw [setIn, if_neg hlabel]
      by_cases h : other = label
      · subst h
        rw [List.lookup_cons_self, List.lookup_cons_self, if_neg hlabel]
      · rw [List.lookup_cons, List.lookup_cons, beq_eq_false_iff_ne.mpr h]
        exact ih

theorem mem_setIn {e : Text × Tree} (h : e ∈ setIn name tree inside) :
    e = (name, tree) ∨ e ∈ inside := by
  induction inside with
  | nil => exact .inl (List.mem_singleton.mp h)
  | cons first inside ih =>
    by_cases hfirst : first.1 = name
    · rw [setIn, if_pos hfirst, List.mem_cons] at h
      exact h.imp_right (List.mem_cons_of_mem first)
    · rw [setIn, if_neg hfirst, List.mem_cons] at h
      rcases h with rfl | h
      · exact .inr List.mem_cons_self
      · exact (ih h).imp_right (List.mem_cons_of_mem first)

theorem nodup_names_setIn (h : (inside.map (·.1)).Nodup) :
    ((setIn name tree inside).map (·.1)).Nodup := by
  induction inside with
  | nil => simp [setIn]
  | cons first inside ih =>
    rw [List.map_cons, List.nodup_cons] at h
    by_cases hfirst : first.1 = name
    · rw [setIn, if_pos hfirst, List.map_cons, List.nodup_cons]
      rw [hfirst] at h
      exact h
    · rw [setIn, if_neg hfirst, List.map_cons, List.nodup_cons]
      refine ⟨fun hin => ?_, ih h.2⟩
      obtain ⟨e, he, hname⟩ := List.mem_map.mp hin
      rcases mem_setIn name tree inside he with rfl | he
      · exact hfirst hname.symm
      · exact h.1 (List.mem_map.mpr ⟨e, he, hname⟩)

end Entries

/-- On the way to a location that something can be put at, every name is that of an entry. -/
theorem Holds.exists_lookup {inside : List (Text × Tree)} {first second : Text} {rest : Location}
    (h : (directory inside).Holds (first :: second :: rest)) :
    ∃ sub, inside.lookup first = some sub ∧ sub.Holds (second :: rest) := by
  obtain ⟨found, hfound⟩ := h.resolve_left (List.cons_ne_nil _ _)
  rw [List.dropLast_cons_cons, find?] at hfound
  obtain ⟨sub, hsub, hrest⟩ := Option.bind_eq_some_iff.mp hfound
  exact ⟨sub, hsub, .inr ⟨found, hrest⟩⟩

/-- What is put below an entry can be put there, also where the entry is new. -/
theorem Holds.getD_lookup {inside : List (Text × Tree)} {name : Text} {rest : Location}
    (h : (directory inside).Holds (name :: rest)) :
    ((inside.lookup name).getD empty).Holds rest := by
  cases rest with
  | nil => exact .inl rfl
  | cons second rest =>
    obtain ⟨sub, hsub, hrest⟩ := h.exists_lookup
    rw [hsub]
    exact hrest

/-- Only the last name of such a location can be new. -/
theorem Holds.eq_nil_of_lookup {inside : List (Text × Tree)} {name : Text} {rest : Location}
    (h : (directory inside).Holds (name :: rest)) (hnone : inside.lookup name = none) :
    rest = [] := by
  cases rest with
  | nil => rfl
  | cons second rest =>
    obtain ⟨sub, hsub, -⟩ := h.exists_lookup
    rw [hnone] at hsub
    cases hsub

/-- What is found after a tree was put at a location: what was put at it and below it, on the way
to it the directories with the tree put further down, and elsewhere what was there. -/
theorem find?_put (tree new : Tree) (place other : Location) (h : tree.Holds place) :
    (tree.put place new).find? other =
      if place <+: other then new.find? (other.drop place.length)
      else if other <+: place then
        (tree.find? other).map fun found => found.put (place.drop other.length) new
      else tree.find? other := by
  induction place generalizing tree other with
  | nil => simp [put]
  | cons name rest ih =>
    -- the directory for the location is there, so the tree is a directory
    obtain ⟨inside, rfl⟩ : ∃ inside, tree = directory inside := by
      have htop : tree.HasDirectory ([] ++ (name :: rest).dropLast) :=
        h.resolve_left (List.cons_ne_nil name rest)
      obtain ⟨inside, hinside⟩ := htop.append
      exact ⟨inside, Option.some.inj hinside⟩
    cases other with
    | nil => simp [find?, put]
    | cons first others =>
      rw [put, find?, lookup_setIn]
      by_cases hfirst : first = name
      · subst hfirst
        rw [if_pos rfl, Option.bind_some, ih _ _ h.getD_lookup]
        simp only [List.cons_prefix_cons, true_and, List.length_cons, List.drop_succ_cons]
        by_cases hbelow : rest <+: others
        · simp only [if_pos hbelow]
        · simp only [if_neg hbelow]
          -- something lies between, so the entry is there already
          cases hsub : inside.lookup first with
          | some sub => simp [find?, hsub]
          | none => exact absurd (h.eq_nil_of_lookup hsub ▸ List.nil_prefix) hbelow
      · have hprefix : ¬ name :: rest <+: first :: others := fun hp =>
          hfirst (List.cons_prefix_cons.mp hp).1.symm
        have hsuffix : ¬ first :: others <+: name :: rest := fun hp =>
          hfirst (List.cons_prefix_cons.mp hp).1
        rw [if_neg hfirst, if_neg hprefix, if_neg hsuffix, find?]

end Tree

end NativeGlue
