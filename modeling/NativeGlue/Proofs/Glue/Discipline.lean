import NativeGlue.Proofs.Glue.Calls

/-!
How an exported function holds native pointers. What it acquires it gives back once, after the
code has run, and no other call into the virtual machine is written between the first array
that is acquired and the last that is given back. Code that may return early never runs in a
function that holds a pointer. All of it follows from the order of the stages in which the
lines of the function stand, and from the text of each line.
-/

namespace NativeGlue

open Text

namespace LineRole

theorem function?_eq_none (r : LineRole) (hacquisition : r.acquisition? = none)
    (hrelease : r.release? = none) : r.function? = none := by
  cases r with
  | acquisition p => cases hacquisition
  | release p => cases hrelease
  | _ => rfl

/-- The array that a line acquires, or else gives back. -/
theorem function?_eq_critical (r : LineRole) (f : Text) (h : r.function? = some f)
    (hf : f = getCritical ∨ f = releaseCritical) :
    ∃ p, p.type.isArray = true ∧
      (f = getCritical ∧ r = acquisition p ∨ f = releaseCritical ∧ r = release p) := by
  unfold function? at h
  unfold JavaType.isArray
  split at h
  · next p =>
    refine ⟨p, ?_⟩
    cases hcategory : p.type.category <;> rw [hcategory] at h <;> cases h
    · exact absurd hf (by decide)
    · exact ⟨rfl, .inl ⟨rfl, rfl⟩⟩
    · exact absurd hf (by decide)
  · next p =>
    refine ⟨p, ?_⟩
    cases hcategory : p.type.category <;> rw [hcategory] at h <;> cases h
    · exact absurd hf (by decide)
    · exact ⟨rfl, .inr ⟨rfl, rfl⟩⟩
  · cases h

/-- Array pointers are acquired last and given back first. Lines that neither touch a pointer
nor run the code have no stage. -/
def stage? : LineRole → Option Nat
  | acquisition p => some (if p.type.isArray then 2 else 1)
  | code | wrapperCall => some 3
  | release p => some (if p.type.isArray then 4 else 5)
  | _ => none

/-- Between the stages of acquired and released arrays no other function is called. -/
theorem critical_of_stage (r : LineRole) (f : Text) (h : r.function? = some f)
    (hstage : ∀ i, r.stage? = some i → 2 ≤ i ∧ i ≤ 4) :
    f = getCritical ∨ f = releaseCritical := by
  unfold function? at h
  split at h
  · next p =>
    have hbounds := hstage _ rfl
    unfold JavaType.isArray at hbounds
    cases hcategory : p.type.category <;> rw [hcategory] at h hbounds <;> cases h
    · simp at hbounds
    · exact .inl rfl
    · simp at hbounds
  · next p =>
    have hbounds := hstage _ rfl
    unfold JavaType.isArray at hbounds
    cases hcategory : p.type.category <;> rw [hcategory] at h hbounds <;> cases h
    · simp at hbounds
    · exact .inr rfl
  · cases h

theorem stage?_of_runsCode (r : LineRole) (h : r.runsCode = true) : r.stage? = some 3 := by
  cases r <;> simp [runsCode, stage?] at h ⊢

theorem not_pointer_of_runsCode (r : LineRole) (h : r.runsCode = true) :
    r.acquisition? = none ∧ r.release? = none := by
  cases r with
  | code | wrapperCall => exact ⟨rfl, rfl⟩
  | _ => cases h

end LineRole

theorem filterMap_paragraphRoles {α : Type} (f : LineRole → Option α) (hgap : f .gap = none)
    (roles : List LineRole) : (paragraphRoles roles).filterMap f = roles.filterMap f := by
  unfold paragraphRoles
  cases roles with
  | nil => rfl
  | cons r roles => simp [List.filterMap_append, List.filterMap_cons, hgap]

namespace Linked

theorem filterMap_exportRoles {α : Type} (m : Linked) (f : LineRole → Option α)
    (hhead : f .exportHead = none) (hreturned : f .returned = none)
    (hclosing : f .closing = none) (hgap : f .gap = none) :
    m.exportRoles.filterMap f =
      m.declaration.acquired.filterMap (f ∘ .acquisition) ++ m.coreRoles.filterMap f ++
        m.declaration.released.filterMap (f ∘ .release) := by
  have hreturn : m.returnRoles.filterMap f = [] := by
    unfold returnRoles
    split <;> simp [hreturned]
  simp [exportRoles, Declaration.setupRoles, Declaration.cleanupRoles,
    filterMap_paragraphRoles f hgap, List.filterMap_map, hhead, hreturn, hclosing, hgap]

theorem acquisitions_exportRoles (m : Linked) :
    m.exportRoles.filterMap LineRole.acquisition? = m.declaration.acquired := by
  have hcore : m.coreRoles.filterMap LineRole.acquisition? = [] := by
    unfold coreRoles
    split <;> rfl
  have hacquired : LineRole.acquisition? ∘ LineRole.acquisition = some := rfl
  have hreleased : LineRole.acquisition? ∘ LineRole.release = fun _ => none := rfl
  rw [m.filterMap_exportRoles _ rfl rfl rfl rfl, hcore, hacquired, hreleased]
  simp

theorem releases_exportRoles (m : Linked) :
    m.exportRoles.filterMap LineRole.release? = m.declaration.released := by
  have hcore : m.coreRoles.filterMap LineRole.release? = [] := by
    unfold coreRoles
    split <;> rfl
  have hacquired : LineRole.release? ∘ LineRole.acquisition = fun _ => none := rfl
  have hreleased : LineRole.release? ∘ LineRole.release = some := rfl
  rw [m.filterMap_exportRoles _ rfl rfl rfl rfl, hcore, hacquired, hreleased]
  simp

/-- The code runs in the core of the exported function, and nowhere around it. -/
theorem filter_runsCode_exportRoles (m : Linked) : m.exportRoles.filter LineRole.runsCode =
    [if m.declaration.needsWrapper then .wrapperCall else .code] := by
  have hcore : m.coreRoles.filterMap (Option.guard LineRole.runsCode) =
      [if m.declaration.needsWrapper then .wrapperCall else .code] := by
    unfold coreRoles
    split <;> rfl
  have hacquired : Option.guard LineRole.runsCode ∘ LineRole.acquisition = fun _ => none := rfl
  have hreleased : Option.guard LineRole.runsCode ∘ LineRole.release = fun _ => none := rfl
  rw [← List.filterMap_eq_filter, m.filterMap_exportRoles _ rfl rfl rfl rfl, hcore, hacquired,
    hreleased]
  simp

theorem countP_runsCode_exportRoles (m : Linked) :
    m.exportRoles.countP LineRole.runsCode = 1 := by
  rw [List.countP_eq_length_filter, m.filter_runsCode_exportRoles]
  rfl

theorem mem_exportRoles_iff_of_runsCode (m : Linked) {r : LineRole} (h : r.runsCode = true) :
    r ∈ m.exportRoles ↔ r = if m.declaration.needsWrapper then .wrapperCall else .code := by
  rw [← List.mem_singleton, ← m.filter_runsCode_exportRoles, List.mem_filter, and_iff_left h]

/-- The code stands in the exported function itself just where it needs no wrapper. -/
theorem code_mem_exportRoles_iff (m : Linked) :
    .code ∈ m.exportRoles ↔ m.declaration.needsWrapper = false := by
  rw [m.mem_exportRoles_iff_of_runsCode rfl]
  cases m.declaration.needsWrapper <;> simp

theorem wrapperCall_mem_exportRoles_iff (m : Linked) :
    .wrapperCall ∈ m.exportRoles ↔ m.declaration.needsWrapper = true := by
  rw [m.mem_exportRoles_iff_of_runsCode rfl]
  cases m.declaration.needsWrapper <;> simp

theorem stages_of_forall (ps : List Parameter) (role : Parameter → LineRole) (stage : Nat)
    (h : ∀ p ∈ ps, (role p).stage? = some stage) :
    ps.filterMap (LineRole.stage? ∘ role) = List.replicate ps.length stage := by
  induction ps with
  | nil => rfl
  | cons p ps ih =>
    have hp : (LineRole.stage? ∘ role) p = some stage := h p List.mem_cons_self
    rw [List.filterMap_cons_some hp, ih fun q hq => h q (List.mem_cons_of_mem p hq)]
    rfl

/-- The stages of the exported function's lines never go back. -/
theorem stages_exportRoles (m : Linked) :
    m.exportRoles.Pairwise fun r s =>
      ∀ i, r.stage? = some i → ∀ j, s.stage? = some j → i ≤ j := by
  let d := m.declaration
  have harrays : ∀ p ∈ d.arrays, p.type.isArray = true := by
    intro p hp
    exact (List.mem_filter.mp hp).2
  have hstrings : ∀ p ∈ d.strings, p.type.isArray = false := by
    intro p hp
    have hstring := (List.mem_filter.mp hp).2
    simpa [hstring] using (p.type.kinds_disjoint).2.2
  have hbuffers : ∀ p ∈ d.buffers, p.type.isArray = false := by
    intro p hp
    have hbuffer := (List.mem_filter.mp hp).2
    simpa [hbuffer] using (p.type.kinds_disjoint).2.1
  have hacquired : d.acquired.filterMap (LineRole.stage? ∘ .acquisition) =
      List.replicate d.buffers.length 1 ++ List.replicate d.strings.length 1 ++
        List.replicate d.arrays.length 2 := by
    rw [Declaration.acquired, List.filterMap_append, List.filterMap_append,
      stages_of_forall d.buffers _ 1 fun p hp => by simp [LineRole.stage?, hbuffers p hp],
      stages_of_forall d.strings _ 1 fun p hp => by simp [LineRole.stage?, hstrings p hp],
      stages_of_forall d.arrays _ 2 fun p hp => by simp [LineRole.stage?, harrays p hp]]
  have hreleased : d.released.filterMap (LineRole.stage? ∘ .release) =
      List.replicate d.arrays.length 4 ++ List.replicate d.strings.length 5 := by
    rw [Declaration.released, List.filterMap_append,
      stages_of_forall d.arrays _ 4 fun p hp => by simp [LineRole.stage?, harrays p hp],
      stages_of_forall d.strings _ 5 fun p hp => by simp [LineRole.stage?, hstrings p hp]]
  have hcore : m.coreRoles.filterMap LineRole.stage? = [3] := by
    unfold coreRoles
    split <;> rfl
  rw [← List.pairwise_filterMap (R := fun i j : Nat => i ≤ j),
    m.filterMap_exportRoles _ rfl rfl rfl rfl, hacquired, hcore, hreleased]
  simp only [List.pairwise_append, List.pairwise_replicate, List.mem_append,
    List.mem_replicate, List.mem_singleton, List.pairwise_singleton]
  grind

end Linked

/-- The labelled lines of an exported function that holds the pointers of a declaration. -/
structure HoldsPointers (m : Linked) (ls : List (LineRole × Text)) : Prop where
  acquires : (ls.map Prod.fst).filterMap LineRole.acquisition? = m.declaration.acquired
  acquired_by : ∀ l ∈ ls, ∀ p, l.1.acquisition? = some p → p.AcquiredBy l.2
  releases : (ls.map Prod.fst).filterMap LineRole.release? = m.declaration.released
  released_by : ∀ l ∈ ls, ∀ p, l.1.release? = some p → p.ReleasedBy l.2
  runs_once : ls.countP (·.1.runsCode) = 1
  run_by : ∀ l ∈ ls, l.1.runsCode = true → m.RunBy l.2
  acquires_before_code : ∀ before l after, ls = before ++ l :: after → l.1.runsCode = true →
    ∀ x ∈ after, x.1.acquisition? = none
  releases_after_code : ∀ before l after, ls = before ++ l :: after → l.1.runsCode = true →
    ∀ x ∈ before, x.1.release? = none
  critical : ∀ before x between y after, ls = before ++ x :: (between ++ y :: after) →
    x.1.function? = some LineRole.getCritical → y.1.function? = some LineRole.releaseCritical →
    ∀ l ∈ between, ∀ f, l.1.function? = some f →
      f = LineRole.getCritical ∨ f = LineRole.releaseCritical

/-- The calls in the text of labelled lines, the code left aside. A line makes the call of its role
and no other, the pointers are acquired by the calls before the code and given back by those after
it, and from the first array to the last the calls are those for arrays. -/
structure CallsInOrder (m : Linked) (ls : List (LineRole × Text)) : Prop where
  of_role : ∀ l ∈ ls, l.1 ≠ .code → callsIn l.2 = l.1.function?.toList
  before_code : ∀ before l after, ls = before ++ l :: after → l.1.runsCode = true →
    before.flatMap (callsIn ·.2) =
      m.declaration.acquired.filterMap fun p => (LineRole.acquisition p).function?
  after_code : ∀ before l after, ls = before ++ l :: after → l.1.runsCode = true →
    after.flatMap (callsIn ·.2) =
      m.declaration.released.filterMap fun p => (LineRole.release p).function?
  critical : ∀ before x between y after, ls = before ++ x :: (between ++ y :: after) →
    x.1 ≠ .code → LineRole.getCritical ∈ callsIn x.2 →
    y.1 ≠ .code → LineRole.releaseCritical ∈ callsIn y.2 →
    ∀ l ∈ between, l.1 ≠ .code → ∀ f ∈ callsIn l.2,
      f = LineRole.getCritical ∨ f = LineRole.releaseCritical

/-- The labelled lines of a wrapper. It is defined under the name by which it is called, and nothing
in it but the code touches a pointer or makes a call. -/
structure LeavesPointers (m : Linked) (ls : List (LineRole × Text)) : Prop where
  defined : ∀ l ∈ ls, l.1 = .wrapperHead → ∃ parameters, l.2 = "static inline ".toList ++
    m.signature.returnType ++ " wrapped_".toList ++ m.signature.name ++ "(".toList ++ parameters ++
      ") \x7b".toList
  untouched : ∀ l ∈ ls, l.1.acquisition? = none ∧ l.1.release? = none
  no_calls : m.PlainNames → ∀ l ∈ ls, l.1 ≠ .code → callsIn l.2 = []

namespace Linked

/-- Lines in the order of their stages. -/
def StagesInOrder (ls : List (LineRole × Text)) : Prop :=
  ls.Pairwise fun x y => ∀ i, x.1.stage? = some i → ∀ j, y.1.stage? = some j → i ≤ j

theorem StagesInOrder.le_after {before after : List (LineRole × Text)} {x : LineRole × Text}
    (h : StagesInOrder (before ++ x :: after)) :
    ∀ y ∈ after, ∀ i, x.1.stage? = some i → ∀ j, y.1.stage? = some j → i ≤ j :=
  (List.pairwise_cons.mp (List.pairwise_append.mp h).2.1).1

theorem StagesInOrder.le_before {before after : List (LineRole × Text)} {x : LineRole × Text}
    (h : StagesInOrder (before ++ x :: after)) :
    ∀ y ∈ before, ∀ i, y.1.stage? = some i → ∀ j, x.1.stage? = some j → i ≤ j := by
  intro y hy
  exact (List.pairwise_append.mp h).2.2 y hy x List.mem_cons_self

/-- After the code has run nothing is acquired. -/
theorem StagesInOrder.not_acquisition_after {before after : List (LineRole × Text)}
    {l : LineRole × Text} (h : StagesInOrder (before ++ l :: after))
    (hruns : l.1.runsCode = true) : ∀ x ∈ after, x.1.acquisition? = none := by
  intro x hx
  have horder := h.le_after x hx 3 (l.1.stage?_of_runsCode hruns)
  cases hrole : x.1 <;> simp only [LineRole.acquisition?]
  next p =>
    have hle := horder _ (by rw [hrole]; rfl)
    split at hle <;> omega

/-- Before the code has run nothing is given back. -/
theorem StagesInOrder.not_release_before {before after : List (LineRole × Text)}
    {l : LineRole × Text} (h : StagesInOrder (before ++ l :: after))
    (hruns : l.1.runsCode = true) : ∀ x ∈ before, x.1.release? = none := by
  intro x hx
  cases hrole : x.1 <;> simp only [LineRole.release?]
  next p =>
    have hle := h.le_before x hx _ (by rw [hrole]; rfl) 3 (l.1.stage?_of_runsCode hruns)
    split at hle <;> omega

/-- Between an array that is acquired and one that is given back only arrays are touched. -/
theorem StagesInOrder.critical_between {before between after : List (LineRole × Text)}
    {x y : LineRole × Text} (h : StagesInOrder (before ++ x :: (between ++ y :: after)))
    (hx : x.1.function? = some LineRole.getCritical)
    (hy : y.1.function? = some LineRole.releaseCritical) :
    ∀ l ∈ between, ∀ f, l.1.function? = some f →
      f = LineRole.getCritical ∨ f = LineRole.releaseCritical := by
  intro l hl f hf
  obtain ⟨p, hp, ⟨-, hxrole⟩ | ⟨hne, -⟩⟩ := x.1.function?_eq_critical _ hx (.inl rfl)
  swap
  · exact absurd hne (by decide)
  obtain ⟨q, hq, ⟨hne, -⟩ | ⟨-, hyrole⟩⟩ := y.1.function?_eq_critical _ hy (.inr rfl)
  · exact absurd hne (by decide)
  have hafter : StagesInOrder (between ++ y :: after) :=
    (List.pairwise_cons.mp (List.pairwise_append.mp h).2.1).2
  -- the stage of such a line lies between those of the two arrays
  have hlow := h.le_after l (List.mem_append_left _ hl) 2
    (by simp [hxrole, LineRole.stage?, hp])
  have hhigh := fun i hi => hafter.le_before l hl i hi 4
    (by simp [hyrole, LineRole.stage?, hq])
  exact LineRole.critical_of_stage l.1 f hf fun i hi => ⟨hlow i hi, hhigh i hi⟩

theorem runBy_of_spells (m : Linked) {r : LineRole} {t : Text} (hr : r ∈ m.exportRoles)
    (hruns : r.runsCode = true) (hspells : m.Spells r t) : m.RunBy t := by
  cases r with
  | code =>
    obtain rfl := hspells
    exact .inPlace (m.code_mem_exportRoles_iff.mp hr)
  | wrapperCall =>
    obtain rfl := hspells
    exact m.runBy_callLine (m.wrapperCall_mem_exportRoles_iff.mp hr)
  | _ => cases hruns

/-- Lines that spell the exported function hold the pointers of its declaration. -/
theorem holdsPointers (m : Linked) (ls : List (LineRole × Text))
    (hroles : ls.map Prod.fst = m.exportRoles) (hspells : ∀ l ∈ ls, m.Spells l.1 l.2) :
    HoldsPointers m ls := by
  have hstages : StagesInOrder ls := by
    have hpairs := m.stages_exportRoles
    rw [← hroles] at hpairs
    exact List.pairwise_map.mp hpairs
  constructor
  case acquires => rw [hroles, m.acquisitions_exportRoles]
  case acquired_by =>
    rintro ⟨r, t⟩ hl p hp
    cases r with
    | acquisition q =>
      cases hp
      exact Parameter.acquiredBy_of_acquisition (hspells _ hl)
    | _ => cases hp
  case releases => rw [hroles, m.releases_exportRoles]
  case released_by =>
    rintro ⟨r, t⟩ hl p hp
    cases r with
    | release q =>
      cases hp
      exact Parameter.releasedBy_of_release (hspells _ hl)
    | _ => cases hp
  case runs_once =>
    have hcount := m.countP_runsCode_exportRoles
    rwa [← hroles, List.countP_map] at hcount
  case run_by =>
    intro l hl hruns
    exact m.runBy_of_spells (hroles ▸ List.mem_map_of_mem hl) hruns (hspells l hl)
  case acquires_before_code =>
    intro before l after hsplit
    exact (hsplit ▸ hstages).not_acquisition_after
  case releases_after_code =>
    intro before l after hsplit
    exact (hsplit ▸ hstages).not_release_before
  case critical =>
    intro before x between y after hsplit
    exact (hsplit ▸ hstages).critical_between

end Linked

/-- Where nothing is given back, the calls are those of the acquisitions. -/
theorem filterMap_function?_of_not_release {roles : List LineRole}
    (h : ∀ r ∈ roles, r.release? = none) : roles.filterMap LineRole.function? =
      (roles.filterMap LineRole.acquisition?).filterMap fun p =>
        (LineRole.acquisition p).function? := by
  rw [List.filterMap_filterMap]
  refine List.filterMap_congr fun r hr => ?_
  cases r with
  | release p => cases h _ hr
  | _ => rfl

/-- Where nothing is acquired, the calls are those of the releases. -/
theorem filterMap_function?_of_not_acquisition {roles : List LineRole}
    (h : ∀ r ∈ roles, r.acquisition? = none) : roles.filterMap LineRole.function? =
      (roles.filterMap LineRole.release?).filterMap fun p =>
        (LineRole.release p).function? := by
  rw [List.filterMap_filterMap]
  refine List.filterMap_congr fun r hr => ?_
  cases r with
  | acquisition p => cases h _ hr
  | _ => rfl

/-- Lines of which none runs the code call what their roles call. -/
theorem flatMap_callsIn_eq {ls : List (LineRole × Text)}
    (hcalls : ∀ l ∈ ls, l.1 ≠ .code → callsIn l.2 = l.1.function?.toList)
    (hruns : ls.countP (·.1.runsCode) = 0) :
    ls.flatMap (callsIn ·.2) = (ls.map Prod.fst).filterMap LineRole.function? := by
  rw [List.filterMap_map, List.filterMap_eq_flatMap_toList]
  refine List.flatMap_congr fun l hl => hcalls l hl fun hcode => ?_
  have hnot := List.countP_eq_zero.mp hruns l hl
  rw [hcode] at hnot
  exact hnot rfl

namespace HoldsPointers

variable {m : Linked} {ls before after : List (LineRole × Text)} {l : LineRole × Text}

/-- The line that runs the code is the only one to do so. -/
theorem not_runs (h : HoldsPointers m (before ++ l :: after)) (hruns : l.1.runsCode = true) :
    before.countP (·.1.runsCode) = 0 ∧ after.countP (·.1.runsCode) = 0 := by
  have honce := h.runs_once
  rw [List.countP_append, List.countP_cons, if_pos hruns] at honce
  omega

theorem calls_before (h : HoldsPointers m (before ++ l :: after)) (hruns : l.1.runsCode = true)
    (hcalls : ∀ x ∈ before, x.1 ≠ .code → callsIn x.2 = x.1.function?.toList) :
    before.flatMap (callsIn ·.2) =
      m.declaration.acquired.filterMap fun p => (LineRole.acquisition p).function? := by
  have hreleases : ∀ r ∈ before.map Prod.fst, r.release? = none :=
    List.forall_mem_map.mpr (h.releases_after_code before l after rfl hruns)
  have hbehind : (after.map Prod.fst).filterMap LineRole.acquisition? = [] :=
    List.filterMap_eq_nil_iff.mpr
      (List.forall_mem_map.mpr (h.acquires_before_code before l after rfl hruns))
  have hacquired : (before.map Prod.fst).filterMap LineRole.acquisition? =
      m.declaration.acquired := by
    have hall := h.acquires
    rw [List.map_append, List.map_cons, List.filterMap_append,
      List.filterMap_cons_none (l.1.not_pointer_of_runsCode hruns).1, hbehind,
      List.append_nil] at hall
    exact hall
  rw [flatMap_callsIn_eq hcalls (h.not_runs hruns).1,
    filterMap_function?_of_not_release hreleases, hacquired]

theorem calls_after (h : HoldsPointers m (before ++ l :: after)) (hruns : l.1.runsCode = true)
    (hcalls : ∀ x ∈ after, x.1 ≠ .code → callsIn x.2 = x.1.function?.toList) :
    after.flatMap (callsIn ·.2) =
      m.declaration.released.filterMap fun p => (LineRole.release p).function? := by
  have hacquired : ∀ r ∈ after.map Prod.fst, r.acquisition? = none :=
    List.forall_mem_map.mpr (h.acquires_before_code before l after rfl hruns)
  have hbefore : (before.map Prod.fst).filterMap LineRole.release? = [] :=
    List.filterMap_eq_nil_iff.mpr
      (List.forall_mem_map.mpr (h.releases_after_code before l after rfl hruns))
  have hreleased : (after.map Prod.fst).filterMap LineRole.release? =
      m.declaration.released := by
    have hall := h.releases
    rw [List.map_append, List.map_cons, List.filterMap_append,
      List.filterMap_cons_none (l.1.not_pointer_of_runsCode hruns).2, hbefore,
      List.nil_append] at hall
    exact hall
  rw [flatMap_callsIn_eq hcalls (h.not_runs hruns).2,
    filterMap_function?_of_not_acquisition hacquired, hreleased]

/-- The text of the lines tells the same once each makes the call of its role. -/
theorem callsInOrder (h : HoldsPointers m ls)
    (hcalls : ∀ x ∈ ls, x.1 ≠ .code → callsIn x.2 = x.1.function?.toList) :
    CallsInOrder m ls := by
  constructor
  case of_role => exact hcalls
  case before_code =>
    rintro before l after rfl hruns
    exact h.calls_before hruns fun x hx => hcalls x (List.mem_append_left _ hx)
  case after_code =>
    rintro before l after rfl hruns
    exact h.calls_after hruns fun x hx =>
      hcalls x (List.mem_append_right _ (List.mem_cons_of_mem l hx))
  case critical =>
    rintro before x between y after rfl hx hget hy hrelease l hl hcode f hf
    have hxmem : x ∈ before ++ x :: (between ++ y :: after) := by simp
    have hymem : y ∈ before ++ x :: (between ++ y :: after) := by simp
    have hlmem : l ∈ before ++ x :: (between ++ y :: after) := by simp [hl]
    rw [hcalls x hxmem hx, Option.mem_toList] at hget
    rw [hcalls y hymem hy, Option.mem_toList] at hrelease
    rw [hcalls l hlmem hcode, Option.mem_toList] at hf
    exact h.critical before x between y after rfl hget hrelease l hl f hf

end HoldsPointers

namespace Linked

theorem hasAcquired_of_acquisition_mem (m : Linked) (p : Parameter)
    (h : .acquisition p ∈ m.exportRoles) : m.declaration.hasAcquired = true := by
  have hp : p ∈ m.declaration.acquired := by
    rw [← m.acquisitions_exportRoles]
    exact List.mem_filterMap.mpr ⟨_, h, rfl⟩
  have hfilter := m.declaration.acquired_perm.mem_iff.mp hp
  exact List.any_eq_true.mpr ⟨p, (List.mem_filter.mp hfilter).1, (List.mem_filter.mp hfilter).2⟩

/-- Texts labelled with the roles that they spell. -/
theorem zip_of_spells (m : Linked) {roles : List LineRole} {texts : List Text}
    (h : List.Forall₂ m.Spells roles texts) :
    (roles.zip texts).map Prod.fst = roles ∧ (roles.zip texts).map Prod.snd = texts ∧
      ∀ l ∈ roles.zip texts, m.Spells l.1 l.2 := by
  refine ⟨List.map_fst_zip (Nat.le_of_eq h.length_eq),
    List.map_snd_zip (Nat.le_of_eq h.length_eq.symm), ?_⟩
  rintro ⟨r, t⟩ hl
  exact (List.forall₂_iff_zip.mp h).2 hl

theorem needsWrapper_of_mem_wrapperRoles (m : Linked) {r : LineRole} (h : r ∈ m.wrapperRoles) :
    m.declaration.needsWrapper = true := by
  unfold wrapperRoles at h
  split at h
  · assumption
  · cases h

/-- No line of the wrapper touches a pointer. -/
theorem not_pointer_of_mem_wrapperRoles (m : Linked) (r : LineRole) (h : r ∈ m.wrapperRoles) :
    r.acquisition? = none ∧ r.release? = none := by
  unfold wrapperRoles at h
  split at h
  · simp only [List.mem_cons, List.not_mem_nil, or_false] at h
    rcases h with rfl | rfl | rfl | rfl | rfl <;> exact ⟨rfl, rfl⟩
  · simp at h

/-- The exported function calls what the roles of its lines say. -/
theorem callsIn_exported (m : Linked) (h : m.Balanced) (hnames : m.PlainNames)
    {l : LineRole × Text} (hl : l.1 ∈ m.exportRoles) (hspells : m.Spells l.1 l.2)
    (hcode : l.1 ≠ .code) : callsIn l.2 = l.1.function?.toList := by
  obtain ⟨handles, hhandles⟩ := m.exists_handleParameters h
  refine m.callsIn_of_spells hnames handles hhandles (fun p hp => ?_) (fun p hp => ?_)
    (fun hcall => m.wrapperCall_mem_exportRoles_iff.mp (hcall ▸ hl)) hcode hspells
  · rw [← m.acquisitions_exportRoles]
    exact List.mem_filterMap.mpr ⟨l.1, hl, hp⟩
  · rw [← m.releases_exportRoles]
    exact List.mem_filterMap.mpr ⟨l.1, hl, hp⟩

/-- Lines that spell the wrapper leave the pointers of the declaration alone. -/
theorem leavesPointers (m : Linked) (h : m.Balanced) (ls : List (LineRole × Text))
    (hroles : ls.map Prod.fst = m.wrapperRoles) (hspells : ∀ l ∈ ls, m.Spells l.1 l.2) :
    LeavesPointers m ls := by
  have hmem : ∀ l ∈ ls, l.1 ∈ m.wrapperRoles := fun l hl => hroles ▸ List.mem_map_of_mem hl
  constructor
  case defined =>
    intro l hl hhead
    have htext := hspells l hl
    rw [hhead] at htext
    obtain ⟨parameters, -, htext⟩ := htext
    refine ⟨parameters, htext.trans ?_⟩
    unfold wrapperName opening
    simp only [List.append_assoc, List.cons_append]
    rfl
  case untouched => exact fun l hl => m.not_pointer_of_mem_wrapperRoles l.1 (hmem l hl)
  case no_calls =>
    intro hnames l hl hcode
    obtain ⟨handles, hhandles⟩ := m.exists_handleParameters h
    obtain ⟨hacquisition, hrelease⟩ := m.not_pointer_of_mem_wrapperRoles l.1 (hmem l hl)
    have hcalls := m.callsIn_of_spells hnames handles hhandles (by simp [hacquisition])
      (by simp [hrelease]) (fun _ => m.needsWrapper_of_mem_wrapperRoles (hmem l hl)) hcode
      (hspells l hl)
    rw [hcalls, l.1.function?_eq_none hacquisition hrelease]
    rfl

/-- The discipline of the generated functions. The pointers are acquired and given back in their
order; the lines of the exported function hold them, and their text makes the calls for it and no
others; and where any is held, code with the word `return` in it stands in the wrapper, which
touches no pointer. -/
theorem exported_holds_pointers (m : Linked) (h : m.Balanced) :
    m.declaration.OrderedPointers ∧
    ∃ inner outer : List (LineRole × Text),
      m.lines = .ok (lineMarker m.declaration.startLine :: inner.map Prod.snd ++
        outer.map Prod.snd) ∧
      inner.map Prod.fst = m.wrapperRoles ∧ outer.map Prod.fst = m.exportRoles ∧
      (∀ l ∈ inner ++ outer, m.Spells l.1 l.2) ∧
      HoldsPointers m outer ∧ (m.PlainNames → CallsInOrder m outer) ∧
      LeavesPointers m inner ∧
      ((∃ l ∈ outer, ∃ p, l.1 = .acquisition p) →
        (∀ l ∈ outer, l.1 = .code → l.2 = m.declaration.code ∧
          occursIn "return".toList l.2 = false) ∧
        (occursIn "return".toList m.declaration.code = true →
          ∃ l ∈ inner, l.1 = .code ∧ l.2 = m.declaration.code)) := by
  obtain ⟨inner, outer, hlines, hinner, houter⟩ := m.exists_lines h
  obtain ⟨hinner₁, hinner₂, hinnerSpells⟩ := m.zip_of_spells hinner
  obtain ⟨houter₁, houter₂, houterSpells⟩ := m.zip_of_spells houter
  have hholds := m.holdsPointers _ houter₁ houterSpells
  refine ⟨m.declaration.orderedPointers, m.wrapperRoles.zip inner, m.exportRoles.zip outer,
    ?_, hinner₁, houter₁, ?_, hholds, ?_, m.leavesPointers h _ hinner₁ hinnerSpells, ?_⟩
  · rw [hinner₂, houter₂, hlines]
  · intro l hl
    rcases List.mem_append.mp hl with hl | hl
    · exact hinnerSpells l hl
    · exact houterSpells l hl
  · intro hnames
    exact hholds.callsInOrder fun l hl hcode =>
      m.callsIn_exported h hnames (List.of_mem_zip hl).1 (houterSpells l hl) hcode
  · rintro ⟨⟨r, t⟩, hl, p, rfl⟩
    have hacquired : m.declaration.hasAcquired = true :=
      m.hasAcquired_of_acquisition_mem p (List.of_mem_zip hl).1
    constructor
    · rintro ⟨r, t⟩ hl rfl
      obtain rfl : t = m.declaration.code := houterSpells _ hl
      have hneeds := m.code_mem_exportRoles_iff.mp (List.of_mem_zip hl).1
      exact ⟨rfl, by simpa [Declaration.needsWrapper, hacquired] using hneeds⟩
    · intro hreturn
      have hneeds : m.declaration.needsWrapper = true := by
        rw [Declaration.needsWrapper, hacquired, hreturn]
        rfl
      have hcode : .code ∈ (m.wrapperRoles.zip inner).map Prod.fst := by
        rw [hinner₁, wrapperRoles, if_pos hneeds]
        simp
      obtain ⟨l, hl, hrole⟩ := List.mem_map.mp hcode
      have hspells := hinnerSpells l hl
      rw [hrole] at hspells
      exact ⟨l, hl, hrole, hspells⟩

/-- A method with a pointer of each kind and code that returns early. -/
def fillMethod : Linked where
  declaration :=
    { className := "Pixels".toList
      methodName := "fill".toList
      isStatic := true
      parameters :=
        [⟨"xs".toList, .read "float[]".toList⟩, ⟨"name".toList, .read "String".toList⟩,
          ⟨"out".toList, .read "java.nio.ByteBuffer".toList⟩, ⟨"n".toList, .read "int".toList⟩]
      code := " return n; ".toList
      startLine := 4
      endLine := 4
      signatureLine := 3 }
  signature :=
    { head := "JNIEXPORT jint JNICALL Java_Pixels_fill".toList
      name := "Java_Pixels_fill".toList
      parameterTypes := ["JNIEnv*".toList, "jclass".toList, "jfloatArray".toList,
        "jstring".toList, "jobject".toList, "jint".toList]
      returnType := "jint".toList
      line := 8 }

theorem fillMethod_holds_pointers : fillMethod.Balanced ∧ fillMethod.PlainNames ∧
    ∃ inner outer : List (LineRole × Text),
      fillMethod.lines = .ok (lineMarker 4 :: inner.map Prod.snd ++ outer.map Prod.snd) ∧
      HoldsPointers fillMethod outer ∧ CallsInOrder fillMethod outer ∧
      LeavesPointers fillMethod inner ∧
      fillMethod.declaration.acquired.map (·.name) =
        ["out".toList, "name".toList, "xs".toList] ∧
      "\tenv->ReleasePrimitiveArrayCritical(obj_xs, xs, 0);".toList ∈ outer.map Prod.snd := by
  have hnames : fillMethod.PlainNames := by decide
  obtain ⟨-, inner, outer, hlines, -, -, -, hholds, hcalls, hleaves, -⟩ :=
    exported_holds_pointers fillMethod (by decide)
  have hreleased : (⟨"xs".toList, .read "float[]".toList⟩ : Parameter) ∈
      (outer.map Prod.fst).filterMap LineRole.release? := by
    rw [hholds.releases]
    decide
  obtain ⟨r, hr, hrelease⟩ := List.mem_filterMap.mp hreleased
  obtain ⟨l, hl, rfl⟩ := List.mem_map.mp hr
  have hline : ∀ t, Parameter.ReleasedBy ⟨"xs".toList, .read "float[]".toList⟩ t →
      t = "\tenv->ReleasePrimitiveArrayCritical(obj_xs, xs, 0);".toList := by
    intro t ht
    cases ht with
    | array => rfl
    | string hcategory => exact absurd hcategory (by decide)
  exact ⟨by decide, hnames, inner, outer, hlines, hholds, hcalls hnames, hleaves, by decide,
    List.mem_map.mpr ⟨l, hl, hline l.2 (hholds.released_by l hl _ hrelease)⟩⟩

end Linked

end NativeGlue
