import NativeGlue.Proofs.Glue.Discipline
import NativeGlue.Proofs.Glue.Variables
import NativeGlue.Text.Word

/-!
Names in the generated functions. The names of a method's parameters share a scope with those of
the environment, the receiver and the returned value, and with the handles that leave their own
names to pointers. Up to their order these are all the names of a function, so they are distinct
just when no parameter bears one of the others.
-/

namespace NativeGlue

open Text

/-- The name of the handle beside a pointer. -/
def Parameter.handleName (p : Parameter) : Text := "obj_".toList ++ p.name

/-- A parameter has its name, and the name of its handle too where there is a pointer. -/
theorem handles_append_pointers_perm (ps : List Parameter) :
    (ps.map Parameter.handle ++ (ps.filter (·.type.isAcquired)).map (·.name)).Perm
      (ps.map (·.name) ++ (ps.filter (·.type.isAcquired)).map Parameter.handleName) := by
  induction ps with
  | nil => exact .nil
  | cons p ps ih =>
    cases hacquired : p.type.isAcquired with
    | false =>
      have hhandle : p.handle = p.name := by simp [Parameter.handle, hacquired]
      rw [List.filter_cons_of_neg (by simp [hacquired]), List.map_cons, List.map_cons, hhandle]
      exact ih.cons p.name
    | true =>
      have hhandle : p.handle = p.handleName := by
        simp [Parameter.handle, Parameter.handleName, hacquired]
      have hfilter : (p :: ps).filter (·.type.isAcquired) =
          p :: ps.filter (·.type.isAcquired) := List.filter_cons_of_pos hacquired
      rw [hfilter, List.map_cons, List.map_cons, List.map_cons, List.map_cons, hhandle]
      -- the two names of the parameter change places at the front
      have hswapped := (List.Perm.swap p.name p.handleName _).trans ((ih.cons _).cons _)
      exact ((List.perm_middle.cons _).trans hswapped).trans (List.perm_middle.symm.cons _)

/-- Names of parameters and handles beside fixed names, none of which looks like a handle. -/
theorem nodup_append_names_iff (fixed : List Text) (ps : List Parameter)
    (hfixed : fixed.Nodup) (hforeign : ∀ t ∈ fixed, ¬ "obj_".toList <+: t)
    (hnames : (ps.map (·.name)).Nodup) :
    (fixed ++ (ps.map (·.name) ++
        (ps.filter (·.type.isAcquired)).map Parameter.handleName)).Nodup ↔
      (∀ p ∈ ps, p.name ∉ fixed) ∧
        ∀ p ∈ ps, ∀ q ∈ ps, q.type.isAcquired = true → p.name ≠ q.handleName := by
  have hhandles : ((ps.filter (·.type.isAcquired)).map Parameter.handleName).Nodup := by
    have hacquired : ((ps.filter (·.type.isAcquired)).map (·.name)).Nodup :=
      (List.filter_sublist.map _).nodup hnames
    have hmap : (ps.filter (·.type.isAcquired)).map Parameter.handleName =
        ((ps.filter (·.type.isAcquired)).map (·.name)).map ("obj_".toList ++ ·) := by
      rw [List.map_map]
      rfl
    rw [hmap]
    exact hacquired.map (List.append_right_injective _)
  simp only [List.nodup_append, hfixed, hnames, hhandles, true_and, List.mem_append,
    List.mem_map, List.mem_filter]
  constructor
  · rintro ⟨hapart, hfree⟩
    constructor
    · intro p hp hmem
      exact hfree p.name hmem p.name (.inl ⟨p, hp, rfl⟩) rfl
    · intro p hp q hq hacquired
      exact hapart p.name ⟨p, hp, rfl⟩ q.handleName ⟨q, ⟨hq, hacquired⟩, rfl⟩
  · rintro ⟨hfree, hapart⟩
    constructor
    · rintro _ ⟨p, hp, rfl⟩ _ ⟨q, ⟨hq, hacquired⟩, rfl⟩
      exact hapart p hp q hq hacquired
    · rintro t ht _ (⟨p, hp, rfl⟩ | ⟨q, -, rfl⟩)
      · rintro rfl
        exact hfree p hp ht
      · rintro rfl
        exact hforeign _ ht (List.prefix_append _ _)

theorem flatMap_paragraphRoles {α : Type} (f : LineRole → List α) (hgap : f .gap = [])
    (roles : List LineRole) : (paragraphRoles roles).flatMap f = roles.flatMap f := by
  unfold paragraphRoles
  cases roles with
  | nil => rfl
  | cons r roles => simp [hgap]

namespace Linked

/-- The names that labelled lines declare. -/
def declaredNames (m : Linked) (ls : List (LineRole × Text)) : List Text :=
  (ls.flatMap fun l => m.declared l.1).map Variable.name

/-- No parameter bears a name that the method's functions have for something else. -/
structure FreeNames (m : Linked) : Prop where
  environment : ∀ p ∈ m.declaration.parameters, p.name ≠ "env".toList
  receiver : ∀ p ∈ m.declaration.parameters,
    p.name ≠ if m.declaration.isStatic then "clazz".toList else "object".toList
  handles : ∀ p ∈ m.declaration.parameters, ∀ q ∈ m.declaration.parameters,
    q.type.isAcquired = true → p.name ≠ "obj_".toList ++ q.name

theorem declared_exportRoles (m : Linked) :
    m.exportRoles.flatMap m.declared = m.exportParameters ++ m.pointerVariables ++
      (if m.declaration.needsWrapper then m.callVariables else []) := by
  have hsetup : m.declaration.setupRoles.flatMap m.declared = m.pointerVariables := by
    rw [Declaration.setupRoles, flatMap_paragraphRoles _ rfl, List.flatMap_map]
    exact List.flatMap_pure_eq_map _ _
  have hcleanup : m.declaration.cleanupRoles.flatMap m.declared = [] := by
    rw [Declaration.cleanupRoles, flatMap_paragraphRoles _ rfl, List.flatMap_map]
    simp [declared]
  have hcore : m.coreRoles.flatMap m.declared =
      if m.declaration.needsWrapper then m.callVariables else [] := by
    unfold coreRoles
    split <;> simp [declared]
  have hreturn : m.returnRoles.flatMap m.declared = [] := by
    unfold returnRoles
    split <;> simp [declared]
  simp [exportRoles, hsetup, hcleanup, hcore, hreturn, declared]

theorem declared_wrapperRoles (m : Linked) : m.wrapperRoles.flatMap m.declared =
    if m.declaration.needsWrapper then m.wrapperParameters else [] := by
  unfold wrapperRoles
  split <;> simp [declared]

theorem names_handleVariables (m : Linked) (handles : List Text)
    (h : m.handleParameters = .ok handles) :
    m.handleVariables.map Variable.name = m.declaration.parameters.map Parameter.handle := by
  have hlength := m.length_handleVariables (m.length_le_of_handles handles h)
  apply List.ext_getElem
  · rw [List.length_map, List.length_map, hlength]
  · intro i _ _
    simp [handleVariables]

/-- The names of a wrapper's parameters, up to their order. -/
theorem names_wrapperParameters_perm (m : Linked) (handles : List Text)
    (h : m.handleParameters = .ok handles) :
    (m.wrapperParameters.map Variable.name).Perm
      (["env".toList, m.declaration.receiver] ++ (m.declaration.parameters.map (·.name) ++
        (m.declaration.parameters.filter (·.type.isAcquired)).map Parameter.handleName)) := by
  have hpointers : m.pointerVariables.map Variable.name =
      m.declaration.acquired.map (·.name) := List.map_map
  rw [wrapperParameters, exportParameters, List.map_append, List.map_append,
    m.names_handleVariables handles h, hpointers, List.append_assoc]
  refine List.Perm.append_left _ ?_
  refine ((m.declaration.acquired_perm.map _).append_left _).trans ?_
  exact handles_append_pointers_perm m.declaration.parameters

theorem receiver_eq (m : Linked) : m.declaration.receiver =
    if m.declaration.isStatic then "clazz".toList else "object".toList := rfl

/-- The fixed names of the functions are distinct, and none looks like the name of a handle. -/
theorem fixedNames_distinct (m : Linked) :
    ["env".toList, m.declaration.receiver, returnVariable].Nodup ∧
      ∀ t ∈ ["env".toList, m.declaration.receiver, returnVariable], ¬ "obj_".toList <+: t := by
  rw [receiver_eq]
  split <;> decide

/-- A method without the names of others, in a function that returns no value itself. -/
theorem freeNames_iff (m : Linked) : m.FreeNames ↔
    (∀ p ∈ m.declaration.parameters, p.name ∉ ["env".toList, m.declaration.receiver]) ∧
      ∀ p ∈ m.declaration.parameters, ∀ q ∈ m.declaration.parameters,
        q.type.isAcquired = true → p.name ≠ q.handleName := by
  simp only [List.mem_cons, List.not_mem_nil, or_false, not_or]
  constructor
  · intro h
    exact ⟨fun p hp => ⟨h.environment p hp, h.receiver p hp⟩, h.handles⟩
  · rintro ⟨hfixed, hhandles⟩
    exact ⟨fun p hp => (hfixed p hp).1, fun p hp => (hfixed p hp).2, hhandles⟩

theorem nodup_wrapperParameters_iff (m : Linked) (handles : List Text)
    (h : m.handleParameters = .ok handles)
    (hnames : (m.declaration.parameters.map (·.name)).Nodup) :
    (m.wrapperParameters.map Variable.name).Nodup ↔ m.FreeNames := by
  obtain ⟨hfixed, hforeign⟩ := m.fixedNames_distinct
  rw [(m.names_wrapperParameters_perm handles h).nodup_iff, freeNames_iff]
  apply nodup_append_names_iff _ _ _ _ hnames
  · exact hfixed.sublist (List.sublist_append_left _ [returnVariable])
  · intro t ht
    exact hforeign t (List.mem_append_left [returnVariable] ht)

/-- With the returned value there is one more name to avoid. -/
theorem nodup_wrapperParameters_append_iff (m : Linked) (handles : List Text)
    (h : m.handleParameters = .ok handles)
    (hnames : (m.declaration.parameters.map (·.name)).Nodup) :
    (m.wrapperParameters.map Variable.name ++ [returnVariable]).Nodup ↔
      m.FreeNames ∧ ∀ p ∈ m.declaration.parameters, p.name ≠ returnVariable := by
  obtain ⟨hfixed, hforeign⟩ := m.fixedNames_distinct
  have hperm : (m.wrapperParameters.map Variable.name ++ [returnVariable]).Perm
      (["env".toList, m.declaration.receiver, returnVariable] ++
        (m.declaration.parameters.map (·.name) ++
          (m.declaration.parameters.filter (·.type.isAcquired)).map Parameter.handleName)) := by
    refine ((m.names_wrapperParameters_perm handles h).append_right _).trans ?_
    rw [List.append_assoc]
    exact List.perm_append_comm.append_left ["env".toList, m.declaration.receiver]
  rw [hperm.nodup_iff, nodup_append_names_iff _ _ hfixed hforeign hnames, freeNames_iff]
  simp only [List.mem_cons, List.not_mem_nil, or_false, not_or]
  constructor
  · rintro ⟨hfree, hhandles⟩
    exact ⟨⟨fun p hp => ⟨(hfree p hp).1, (hfree p hp).2.1⟩, hhandles⟩,
      fun p hp => (hfree p hp).2.2⟩
  · rintro ⟨⟨hfree, hhandles⟩, hreturn⟩
    exact ⟨fun p hp => ⟨(hfree p hp).1, (hfree p hp).2, hreturn p hp⟩, hhandles⟩

theorem declaredNames_eq (m : Linked) (ls : List (LineRole × Text)) :
    m.declaredNames ls = ((ls.map Prod.fst).flatMap m.declared).map Variable.name := by
  rw [declaredNames, List.flatMap_map]

theorem nodup_exportNames_iff (m : Linked) (handles : List Text)
    (h : m.handleParameters = .ok handles)
    (hnames : (m.declaration.parameters.map (·.name)).Nodup) :
    ((m.exportRoles.flatMap m.declared).map Variable.name).Nodup ↔ m.FreeNames ∧
      (m.declaration.needsWrapper = true → m.returnsValue = true →
        ∀ p ∈ m.declaration.parameters, p.name ≠ returnVariable) := by
  rw [declared_exportRoles, List.map_append]
  change (m.wrapperParameters.map Variable.name ++ _).Nodup ↔ _
  cases hneeds : m.declaration.needsWrapper with
  | false => simpa using m.nodup_wrapperParameters_iff handles h hnames
  | true =>
    cases hreturns : m.returnsValue with
    | false => simpa [callVariables, hreturns] using m.nodup_wrapperParameters_iff handles h hnames
    | true =>
      simpa [callVariables, hreturns] using m.nodup_wrapperParameters_append_iff handles h hnames

/-- The names that the functions of a method declare, line by line. With distinct names for its
parameters those of each function are distinct just when no parameter has the name of the
environment, of the receiver, of the returned value where there is one, or of the handle of a
pointer. -/
theorem declared_names_distinct_iff (m : Linked) (texts : List Text)
    (hlines : m.lines = .ok texts) (hnames : (m.declaration.parameters.map (·.name)).Nodup) :
    ∃ inner outer : List (LineRole × Text),
      texts = lineMarker m.declaration.startLine :: inner.map Prod.snd ++ outer.map Prod.snd ∧
      inner.map Prod.fst = m.wrapperRoles ∧ outer.map Prod.fst = m.exportRoles ∧
      (∀ l ∈ inner ++ outer, m.Spells l.1 l.2 ∧
        (m.declared l.1 ≠ [] → Declares l.2 (m.declared l.1))) ∧
      ((m.declaredNames inner).Nodup ↔ (m.declaration.needsWrapper = true → m.FreeNames)) ∧
      ((m.declaredNames outer).Nodup ↔ m.FreeNames ∧
        (m.declaration.needsWrapper = true → m.returnsValue = true →
          ∀ p ∈ m.declaration.parameters, p.name ≠ "JNI_returnValue".toList)) := by
  obtain ⟨handles, hhandles⟩ := m.exists_handleParameters_of_lines texts hlines
  obtain ⟨inner, outer, hwritten, hinner, houter⟩ := m.exists_lines_of_handles handles hhandles
  obtain ⟨hinner₁, hinner₂, hinnerSpells⟩ := m.zip_of_spells hinner
  obtain ⟨houter₁, houter₂, houterSpells⟩ := m.zip_of_spells houter
  rw [hlines, Except.ok.injEq] at hwritten
  refine ⟨m.wrapperRoles.zip inner, m.exportRoles.zip outer, ?_, hinner₁, houter₁, ?_, ?_, ?_⟩
  · rw [hinner₂, houter₂, hwritten]
  · intro l hl
    have hspells : m.Spells l.1 l.2 := by
      rcases List.mem_append.mp hl with hl | hl
      · exact hinnerSpells l hl
      · exact houterSpells l hl
    exact ⟨hspells, m.declares_of_spells handles hhandles l.1 l.2 hspells⟩
  · rw [declaredNames_eq, hinner₁, declared_wrapperRoles]
    cases m.declaration.needsWrapper with
    | false => simp
    | true => simpa using m.nodup_wrapperParameters_iff handles hhandles hnames
  · rw [declaredNames_eq, houter₁]
    exact m.nodup_exportNames_iff handles hhandles hnames

/-- A method with pointers of every kind, in a wrapper and a function that returns its value. -/
theorem fillMethod_names_distinct : ∃ texts, fillMethod.lines = .ok texts ∧
    (fillMethod.declaration.parameters.map (·.name)).Nodup ∧
    ∃ inner outer : List (LineRole × Text),
      texts = lineMarker 4 :: inner.map Prod.snd ++ outer.map Prod.snd ∧
      (fillMethod.declaredNames inner).Nodup ∧ (fillMethod.declaredNames outer).Nodup := by
  obtain ⟨before, after, hlines, -⟩ := fillMethod.exists_lines (by decide)
  have hnames : (fillMethod.declaration.parameters.map (·.name)).Nodup := by decide
  have hfree : fillMethod.FreeNames := ⟨by decide, by decide, by decide⟩
  obtain ⟨inner, outer, htexts, -, -, -, hinner, houter⟩ :=
    declared_names_distinct_iff fillMethod _ hlines hnames
  exact ⟨_, hlines, hnames, inner, outer, htexts, hinner.mpr fun _ => hfree,
    houter.mpr ⟨hfree, fun _ _ => by decide⟩⟩

/-- A parameter by the name of the environment is declared beside it. -/
theorem parameter_named_env :
    ∃ m, LinksFiles "class A \x7b\nnative void f(int env); /*g();*/\n\x7d".toList
        "JNIEXPORT void JNICALL Java_A_f\n  (JNIEnv *, jobject, jint);".toList [.linked m] ∧
      m.Balanced ∧ (m.declaration.parameters.map (·.name)).Nodup ∧
      (∀ p ∈ m.declaration.parameters, isName p.name = true) ∧
      m.lines = .ok ["//@line:2".toList,
        "JNIEXPORT void JNICALL Java_A_f(JNIEnv* env, jobject object, jint env) \x7b".toList,
        "//@line:2".toList, "g();".toList, "\x7d".toList, []] ∧
      m.exportParameters.map Variable.name =
        ["env".toList, "object".toList, "env".toList] ∧
      ¬ (m.exportParameters.map Variable.name).Nodup := by
  let m : Linked :=
    ⟨⟨['A'], ['f'], false, [⟨"env".toList, ⟨"int".toList, .plain .int⟩⟩], "g();".toList, 2, 2, 2⟩,
      ⟨"JNIEXPORT void JNICALL Java_A_f".toList, "Java_A_f".toList,
        ["JNIEnv*".toList, "jobject".toList, "jint".toList], "void".toList, 1⟩⟩
  refine ⟨m, ⟨⟨[.declared m.declaration], []⟩, ?_, ?_⟩, by decide, by decide, by decide, ?_, rfl,
    by decide⟩
  · exact eq_ok_of_toOption (by decide +kernel)
  · exact eq_ok_of_toOption (by decide +kernel)
  · exact eq_ok_of_toOption (by decide +kernel)

end Linked

end NativeGlue
