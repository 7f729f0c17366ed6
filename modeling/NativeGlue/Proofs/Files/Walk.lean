import NativeGlue.Proofs.Files.Growth

/-!
Walking through a tree. A walk without links that succeeds ends where the names lead one by one,
and something can be put there. Names that lead to something are walked to it unless one of them
is too long, and a walk to nothing fails for another reason than that. A walk through links also
ends where something can be put, and leads to the same place as long as the directories and the
links are what they were.
-/

namespace NativeGlue

open Text

theorem IsEntryName.isEmpty_eq {name : Text} (h : IsEntryName name) : name.isEmpty = false := by
  rw [List.isEmpty_eq_false_iff]
  exact h.ne_nil

namespace Path

/-- Where the names of a path lead from the root, taken one by one. -/
def place (p : Path) : Location := p.parts.foldl lexicalStep []

theorem lexicalStep_of_isEntryName {name : Text} (here : Location) (h : IsEntryName name) :
    lexicalStep here name = here ++ [name] := by
  simp only [lexicalStep, h.isEmpty_eq, h.ne_here, h.ne_above, decide_false, Bool.or_self,
    Bool.false_eq_true, if_false]

theorem foldl_lexicalStep (here : Location) (names : List Text)
    (h : ∀ name ∈ names, IsEntryName name) : names.foldl lexicalStep here = here ++ names := by
  induction names generalizing here with
  | nil => rw [List.foldl_nil, List.append_nil]
  | cons name names ih =>
    rw [List.foldl_cons, lexicalStep_of_isEntryName here (h name List.mem_cons_self),
      ih _ fun n hn => h n (List.mem_cons_of_mem name hn), List.append_assoc,
      List.singleton_append]

theorem place_eq (p : Path) (h : ∀ name ∈ p.parts, IsEntryName name) : p.place = p.parts :=
  foldl_lexicalStep [] p.parts h

end Path

namespace Tree

variable {tree : Tree}

section Steps

variable {follow : Location → List Text → Except FileFault Location} {here : Location}
  {name : Text} {names : List Text}

theorem walkBy_of_step_error {fault : FileFault} (h : tree.step here name = .error fault) :
    tree.walkBy follow here (name :: names) = .error fault := by
  rw [walkBy, h]
  rfl

theorem walkBy_of_step_place {next : Location} (h : tree.step here name = .ok (.place next)) :
    tree.walkBy follow here (name :: names) = tree.walkBy follow next names := by
  rw [walkBy, h]
  rfl

theorem walkBy_of_step_link {base : Location} {target : Text}
    (h : tree.step here name = .ok (.link base target)) :
    tree.walkBy follow here (name :: names) = follow base (Path.splitSlashes target ++ names) := by
  rw [walkBy, h]
  rfl

end Steps

/-- A step through a tree without links leads on by name, from a directory to a location where
something can be put. -/
theorem LinkFree.step_eq_ok (h : tree.LinkFree) {here : Location} {name : Text}
    {landing : Landing} (hstep : tree.step here name = .ok landing) :
    landing = .place (Path.lexicalStep here name) ∧ tree.HasDirectory here ∧
      tree.Holds (Path.lexicalStep here name) ∧ (IsEntryName name → isTooLong name = false) := by
  unfold step at hstep
  unfold Path.lexicalStep
  cases hhere : tree.find? here with
  | none => simp [hhere] at hstep
  | some found =>
    cases found with
    | directory inside =>
      have hdirectory : tree.HasDirectory here := ⟨inside, hhere⟩
      simp only [hhere] at hstep
      split_ifs at hstep ⊢ with hstay habove hlong
      · refine ⟨(Except.ok.inj hstep).symm, hdirectory, hdirectory.holds, fun hname => ?_⟩
        simp [hname.ne_nil, hname.ne_here] at hstay
      · refine ⟨(Except.ok.inj hstep).symm, hdirectory, hdirectory.dropLast.holds, fun hname => ?_⟩
        exact absurd habove hname.ne_above
      · refine ⟨?_, hdirectory, (tree.holds_concat_iff here name).mpr hdirectory,
          fun _ => eq_false_of_ne_true hlong⟩
        -- an entry that is a link would be found at the next location
        split at hstep
        · next target hlookup =>
          refine absurd ?_ (h (here ++ [name]) target)
          rw [find?_append, hhere]
          simp [find?, hlookup]
        · exact (Except.ok.inj hstep).symm
    | _ => simp [hhere] at hstep

theorem LinkFree.walkBy_eq_ok (h : tree.LinkFree)
    (follow : Location → List Text → Except FileFault Location) {here : Location}
    {names : List Text} {place : Location} (hwalk : tree.walkBy follow here names = .ok place) :
    place = names.foldl Path.lexicalStep here ∧ (names ≠ [] → tree.Holds place) ∧
      ∀ name ∈ names, IsEntryName name → isTooLong name = false := by
  induction names generalizing here with
  | nil =>
    rw [walkBy, Except.ok.injEq] at hwalk
    exact ⟨hwalk.symm, fun hne => absurd rfl hne, by simp⟩
  | cons name names ih =>
    cases hstep : tree.step here name with
    | error fault =>
      rw [walkBy_of_step_error hstep] at hwalk
      cases hwalk
    | ok landing =>
      obtain ⟨rfl, -, hholds, hshort⟩ := h.step_eq_ok hstep
      rw [walkBy_of_step_place hstep] at hwalk
      obtain ⟨hplace, hlast, hall⟩ := ih hwalk
      refine ⟨hplace, fun _ => ?_, ?_⟩
      · cases names with
        | nil => exact hplace ▸ hholds
        | cons next names => exact hlast (List.cons_ne_nil next names)
      · rintro n (_ | ⟨_, hn⟩)
        · exact hshort
        · exact hall n hn

theorem LinkFree.walk_eq_ok (h : tree.LinkFree) {here : Location} {names : List Text}
    {place : Location} (hwalk : tree.walk here names = .ok place) :
    place = names.foldl Path.lexicalStep here ∧ (names ≠ [] → tree.Holds place) ∧
      ∀ name ∈ names, IsEntryName name → isTooLong name = false :=
  h.walkBy_eq_ok _ hwalk

/-- Names that lead to something, none of them too long, are walked along. -/
theorem LinkFree.walkBy_of_find? (h : tree.LinkFree)
    (follow : Location → List Text → Except FileFault Location) {here : Location}
    {names : List Text} {found : Tree} (hnames : ∀ name ∈ names, IsEntryName name)
    (hshort : ∀ name ∈ names, isTooLong name = false)
    (hfound : tree.find? (here ++ names) = some found) :
    tree.walkBy follow here names = .ok (here ++ names) := by
  induction names generalizing here with
  | nil => rw [walkBy, List.append_nil]
  | cons name names ih =>
    have hname := hnames name List.mem_cons_self
    have hsplit : here ++ name :: names = (here ++ [name]) ++ names := by simp
    obtain ⟨inside, hinside⟩ := hasDirectory_of_append (List.cons_ne_nil name names) hfound
    -- the step's last case applies, as the entry is no link
    have hlookup : ∀ target, inside.lookup name ≠ some (link target) := by
      intro target hlink
      refine h (here ++ [name]) target ?_
      rw [find?_append, hinside]
      simp [find?, hlink]
    have hstep : tree.step here name = .ok (.place (here ++ [name])) := by
      unfold step
      simp only [hinside, hname.isEmpty_eq, hname.ne_here, hname.ne_above,
        hshort name List.mem_cons_self, Bool.or_self, decide_false, Bool.false_eq_true, if_false]
    rw [walkBy_of_step_place hstep, hsplit]
    rw [hsplit] at hfound
    exact ih (fun n hn => hnames n (List.mem_cons_of_mem name hn))
      (fun n hn => hshort n (List.mem_cons_of_mem name hn)) hfound

theorem LinkFree.walk_of_find? (h : tree.LinkFree) {here : Location} {names : List Text}
    {found : Tree} (hnames : ∀ name ∈ names, IsEntryName name)
    (hshort : ∀ name ∈ names, isTooLong name = false)
    (hfound : tree.find? (here ++ names) = some found) :
    tree.walk here names = .ok (here ++ names) :=
  h.walkBy_of_find? _ hnames hshort hfound

/-- A walk through a tree without links meets none and fails for want of a directory or for a name
that is too long. -/
theorem LinkFree.walkBy_eq_error (h : tree.LinkFree)
    (follow : Location → List Text → Except FileFault Location) {here : Location}
    {names : List Text} {fault : FileFault} (hwalk : tree.walkBy follow here names = .error fault) :
    fault = .missing ∨ fault = .notDirectory ∨
      fault = .nameTooLong ∧ ∃ name ∈ names, isTooLong name = true := by
  induction names generalizing here with
  | nil => simp [walkBy] at hwalk
  | cons name names ih =>
    cases hstep : tree.step here name with
    | error other =>
      rw [walkBy_of_step_error hstep, Except.error.injEq] at hwalk
      subst hwalk
      unfold step at hstep
      split at hstep
      · exact .inl (Except.error.inj hstep).symm
      · split_ifs at hstep with hstay habove hlong
        · refine .inr (.inr ⟨(Except.error.inj hstep).symm, name, List.mem_cons_self, hlong⟩)
        · split at hstep <;> cases hstep
      · exact .inr (.inl (Except.error.inj hstep).symm)
    | ok landing =>
      obtain ⟨rfl, -⟩ := h.step_eq_ok hstep
      rw [walkBy_of_step_place hstep] at hwalk
      rcases ih hwalk with hfault | hfault | ⟨hfault, long, hlong, htoo⟩
      · exact .inl hfault
      · exact .inr (.inl hfault)
      · exact .inr (.inr ⟨hfault, long, List.mem_cons_of_mem name hlong, htoo⟩)

theorem lookup_eq_ok_iff_walk (here : Location) (names : List Text) (found : Tree) :
    tree.lookup here names = .ok found ↔
      ∃ place, tree.walk here names = .ok place ∧ tree.find? place = some found := by
  unfold lookup
  cases hwalk : tree.walk here names with
  | error fault => simp [bind, Except.bind]
  | ok place =>
    cases hfound : tree.find? place with
    | none => simp [bind, Except.bind, hfound]
    | some other => simp [bind, Except.bind, hfound, pure, Except.pure]

/-- What proper names lead to from the root. -/
theorem LinkFree.lookup_eq_ok_iff (h : tree.LinkFree) {names : List Text}
    (hnames : ∀ name ∈ names, IsEntryName name) (found : Tree) :
    tree.lookup [] names = .ok found ↔
      tree.find? names = some found ∧ ∀ name ∈ names, isTooLong name = false := by
  rw [lookup_eq_ok_iff_walk]
  constructor
  · rintro ⟨place, hwalk, hfound⟩
    obtain ⟨rfl, -, hshort⟩ := h.walk_eq_ok hwalk
    rw [Path.foldl_lexicalStep [] names hnames, List.nil_append] at hfound
    exact ⟨hfound, fun name hname => hshort name hname (hnames name hname)⟩
  · rintro ⟨hfound, hshort⟩
    exact ⟨names, h.walk_of_find? hnames hshort hfound, hfound⟩

theorem LinkFree.lookup_eq_error (h : tree.LinkFree) {here : Location} {names : List Text}
    {fault : FileFault} (hlookup : tree.lookup here names = .error fault) :
    fault = .missing ∨ fault = .notDirectory ∨
      fault = .nameTooLong ∧ ∃ name ∈ names, isTooLong name = true := by
  unfold lookup at hlookup
  cases hwalk : tree.walk here names with
  | error other =>
    simp only [hwalk, bind, Except.bind, Except.error.injEq] at hlookup
    subst hlookup
    exact h.walkBy_eq_error _ hwalk
  | ok place =>
    simp only [hwalk, bind, Except.bind] at hlookup
    split at hlookup
    · cases hlookup
    · exact .inl (Except.error.inj hlookup).symm

section Open

/-- Something can be put at a location, and no link is there. -/
structure IsOpen (tree : Tree) (place : Location) : Prop where
  holds : tree.Holds place
  no_link : ∀ target, tree.find? place ≠ some (link target)

theorem HasDirectory.isOpen {place : Location} (h : tree.HasDirectory place) :
    tree.IsOpen place := by
  refine ⟨h.holds, fun target hlink => ?_⟩
  obtain ⟨inside, hinside⟩ := h
  rw [hinside] at hlink
  cases hlink

theorem LinkFree.isOpen_nil (h : tree.LinkFree) : tree.IsOpen [] := ⟨.inl rfl, h []⟩

/-- The entries of a directory are what is found one name further on. -/
theorem find?_concat {here : Location} {inside : List (Text × Tree)} (name : Text)
    (h : tree.find? here = some (directory inside)) :
    tree.find? (here ++ [name]) = inside.lookup name := by
  rw [find?_append, h]
  cases hlookup : inside.lookup name <;> simp [find?, hlookup]

/-- A step is taken from a directory, to a location that is open or to a link, which leads on from
a directory. -/
theorem isOpen_of_step {here : Location} {name : Text} {landing : Landing}
    (hstep : tree.step here name = .ok landing) :
    tree.HasDirectory here ∧
      (∀ next, landing = .place next → tree.IsOpen next) ∧
      ∀ base target, landing = .link base target → tree.IsOpen base := by
  unfold step at hstep
  cases hhere : tree.find? here with
  | none => simp [hhere] at hstep
  | some found =>
    cases found with
    | directory inside =>
      have hdirectory : tree.HasDirectory here := ⟨inside, hhere⟩
      have hroot : tree.HasDirectory [] :=
        (show tree.HasDirectory ([] ++ here) from hdirectory).append
      refine ⟨hdirectory, ?_, ?_⟩
      · rintro next rfl
        simp only [hhere] at hstep
        split_ifs at hstep
        · cases hstep
          exact hdirectory.isOpen
        · cases hstep
          exact hdirectory.dropLast.isOpen
        · split at hstep
          · cases hstep
          · next hother =>
            cases hstep
            refine ⟨(tree.holds_concat_iff here name).mpr hdirectory, fun target hlink => ?_⟩
            exact hother target ((find?_concat name hhere).symm.trans hlink)
      · rintro base target rfl
        simp only [hhere] at hstep
        split_ifs at hstep
        · cases hstep
        · cases hstep
        · split at hstep
          · cases hstep
            unfold linkBase
            split_ifs
            · exact hroot.isOpen
            · exact hdirectory.isOpen
          · cases hstep
    | _ => simp [hhere] at hstep

theorem isOpen_of_walkBy {follow : Location → List Text → Except FileFault Location}
    (hfollow : ∀ base names place, tree.IsOpen base → follow base names = .ok place →
      tree.IsOpen place) {here place : Location} {names : List Text} (hhere : tree.IsOpen here)
    (hwalk : tree.walkBy follow here names = .ok place) : tree.IsOpen place := by
  induction names generalizing here with
  | nil =>
    rw [walkBy, Except.ok.injEq] at hwalk
    exact hwalk ▸ hhere
  | cons name names ih =>
    cases hstep : tree.step here name with
    | error fault =>
      rw [walkBy_of_step_error hstep] at hwalk
      cases hwalk
    | ok landing =>
      obtain ⟨-, hplace, hlink⟩ := isOpen_of_step hstep
      cases landing with
      | place next => exact ih (hplace next rfl) (walkBy_of_step_place hstep ▸ hwalk)
      | link base target =>
        exact hfollow _ _ _ (hlink base target rfl) (walkBy_of_step_link hstep ▸ hwalk)

/-- A walk through links ends at a location that is open if it starts at one. -/
theorem isOpen_of_walk {here place : Location} {names : List Text} (hhere : tree.IsOpen here)
    (hwalk : tree.walk here names = .ok place) : tree.IsOpen place := by
  have hfrom (links : Nat) (base : Location) (rest : List Text) (target : Location)
      (hbase : tree.IsOpen base) (h : tree.walkFrom links base rest = .ok target) :
      tree.IsOpen target := by
    induction links generalizing base rest target with
    | zero =>
      refine isOpen_of_walkBy (fun _ _ _ _ hnone => ?_) hbase h
      cases hnone
    | succ links ih => exact isOpen_of_walkBy ih hbase h
  exact hfrom mostLinks here names place hhere hwalk

end Open

section Mono

variable {before after : Tree}

section Stay

variable (hdirectories : ∀ place, before.HasDirectory place → after.HasDirectory place)
  (hlinks : ∀ place target,
    after.find? place = some (link target) ↔ before.find? place = some (link target))

include hdirectories hlinks

/-- Where all directories and links stay, a step that could be taken leads later where it led. -/
theorem step_mono {here : Location} {name : Text} {landing : Landing}
    (hstep : before.step here name = .ok landing) : after.step here name = .ok landing := by
  obtain ⟨⟨inside, hinside⟩, -⟩ := isOpen_of_step hstep
  obtain ⟨later, hlater⟩ := hdirectories here ⟨inside, hinside⟩
  have hentry (target : Text) :
      later.lookup name = some (link target) ↔ inside.lookup name = some (link target) := by
    rw [← find?_concat name hlater, ← find?_concat name hinside]
    exact hlinks _ target
  unfold step at hstep ⊢
  simp only [hinside] at hstep
  simp only [hlater]
  split_ifs at hstep ⊢
  · exact hstep
  · exact hstep
  · split at hstep
    · next target hlookup =>
      rw [(hentry target).mpr hlookup]
      exact hstep
    · next hother =>
      split
      · next target hlookup => exact absurd ((hentry target).mp hlookup) (hother target)
      · exact hstep

theorem walkBy_mono {follow others : Location → List Text → Except FileFault Location}
    (hfollow : ∀ base names place, follow base names = .ok place → others base names = .ok place)
    {here place : Location} {names : List Text}
    (hwalk : before.walkBy follow here names = .ok place) :
    after.walkBy others here names = .ok place := by
  induction names generalizing here with
  | nil => exact hwalk
  | cons name names ih =>
    cases hstep : before.step here name with
    | error fault =>
      rw [walkBy_of_step_error hstep] at hwalk
      cases hwalk
    | ok landing =>
      have hagain := step_mono hdirectories hlinks hstep
      cases landing with
      | place next =>
        rw [walkBy_of_step_place hstep] at hwalk
        rw [walkBy_of_step_place hagain]
        exact ih hwalk
      | link base target =>
        rw [walkBy_of_step_link hstep] at hwalk
        rw [walkBy_of_step_link hagain]
        exact hfollow _ _ _ hwalk

/-- Where all directories and links stay, a path that could be walked leads where it led. -/
theorem walk_mono {here place : Location} {names : List Text}
    (hwalk : before.walk here names = .ok place) : after.walk here names = .ok place := by
  have hfrom (links : Nat) (base : Location) (rest : List Text) (target : Location)
      (h : before.walkFrom links base rest = .ok target) :
      after.walkFrom links base rest = .ok target := by
    induction links generalizing base rest target with
    | zero =>
      refine walkBy_mono hdirectories hlinks (fun _ _ _ hnone => ?_) h
      cases hnone
    | succ links ih => exact walkBy_mono hdirectories hlinks ih h
  exact hfrom mostLinks here names place hwalk

end Stay

/-- A path to a directory still leads to one. -/
theorem LinkFree.lookup_mono (hbefore : before.LinkFree) (hafter : after.LinkFree)
    (hdirectories : ∀ place, before.HasDirectory place → after.HasDirectory place)
    {here : Location} {names : List Text} {inside : List (Text × Tree)}
    (h : before.lookup here names = .ok (directory inside)) :
    ∃ later, after.lookup here names = .ok (directory later) := by
  obtain ⟨place, hwalk, hfound⟩ := (lookup_eq_ok_iff_walk here names _).mp h
  obtain ⟨later, hlater⟩ := hdirectories place ⟨inside, hfound⟩
  have hlinks (other : Location) (target : Text) :
      after.find? other = some (link target) ↔ before.find? other = some (link target) :=
    iff_of_false (hafter other target) (hbefore other target)
  exact ⟨later, (lookup_eq_ok_iff_walk here names _).mpr
    ⟨place, walk_mono hdirectories hlinks hwalk, hlater⟩⟩

end Mono

end Tree

end NativeGlue
