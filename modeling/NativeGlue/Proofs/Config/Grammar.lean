import NativeGlue.Config.Target
import NativeGlue.Files.Workspace
import NativeGlue.Proofs.Json.Number
import NativeGlue.Proofs.Text.Occurrence
import NativeGlue.Proofs.Traversal

/-!
The grammar of configurations, and what accepts it. The rules of the shape know of the types of
members but not of their slots, and the reading of targets knows of slots but lets other types and
members pass. A value passes both just if it is a configuration by the grammar.
-/

namespace NativeGlue.Config

open Text Json

section Grammar

def IsFilledText (v : Value) : Prop := ∃ t, v = .str t ∧ t ≠ []

def IsFilledTexts (v : Value) : Prop := ∃ items, v = .arr items ∧ ∀ item ∈ items, IsFilledText item

def IsCommand (v : Value) : Prop :=
  ∃ items, v = .arr items ∧ items ≠ [] ∧ ∀ item ∈ items, IsFilledText item

def IsOne (v : Value) : Prop := v.number? = some 1

/-- A name with a slot for the name of the class. -/
def IsTemplate (v : Value) : Prop := ∃ t, v = .str t ∧ classNameSlot <:+: t

theorem IsTemplate.isFilledText {v : Value} (h : IsTemplate v) : IsFilledText v := by
  obtain ⟨t, rfl, hslot⟩ := h
  refine ⟨t, rfl, ?_⟩
  rintro rfl
  exact absurd (List.infix_nil.mp hslot) (by decide)

variable (members : Members)

/-- A member that has to be there. -/
def Requires (key : String) (P : Value → Prop) : Prop :=
  ∃ v, Value.member? key.toList members = some v ∧ P v

/-- A member that may be left out. -/
def Allows (key : String) (P : Value → Prop) : Prop :=
  ∀ v, Value.member? key.toList members = some v → P v

def targetKeys : List String :=
  ["source_dir", "jni_dir", "class_dir", "includes", "excludes", "header_name", "output_name",
    "header_command"]

structure IsTarget : Prop where
  known : ∀ name ∈ Value.names members, name ∈ targetKeys.map String.toList
  sourceDir : Requires members "source_dir" IsFilledText
  glueDir : Requires members "jni_dir" IsFilledText
  classDir : Allows members "class_dir" IsFilledText
  includes : Allows members "includes" IsFilledTexts
  excludes : Allows members "excludes" IsFilledTexts
  headerName : Allows members "header_name" IsTemplate
  outputName : Allows members "output_name" IsTemplate
  headerCommand : Allows members "header_command" IsCommand
  classDirUsed : ∀ items t, Value.member? "header_command".toList members = some (.arr items) →
    .str t ∈ items → classDirSlot <:+: t → "class_dir".toList ∈ Value.names members

/-- An object of targets, of which there is at least one. -/
def IsTargets (v : Value) : Prop :=
  ∃ found, v = .obj found ∧ found ≠ [] ∧
    ∀ m ∈ found, ∃ members, m.2 = .obj members ∧ IsTarget members

structure IsConfig : Prop where
  known : ∀ name ∈ Value.names members, name ∈ ["schema_version".toList, "targets".toList]
  version : Allows members "schema_version" IsOne
  targets : Requires members "targets" IsTargets

end Grammar

theorem member?_ne_none_iff (name : Text) (members : Members) :
    Value.member? name members ≠ none ↔ name ∈ Value.names members := by
  rw [Value.member?, ne_eq, List.lookup_eq_none_iff, Value.names, List.mem_map]
  simp only [bne_iff_ne, ne_eq, not_forall, not_not, exists_prop]
  constructor
  · rintro ⟨m, hm, rfl⟩
    exact ⟨m, hm, rfl⟩
  · rintro ⟨m, hm, rfl⟩
    exact ⟨m, hm, rfl⟩

section Members

variable {members : Members} {key : String} {P : Value → Prop}

theorem Requires.mem_names (h : Requires members key P) :
    key.toList ∈ Value.names members := by
  obtain ⟨v, hv, -⟩ := h
  rw [← member?_ne_none_iff, hv]
  exact Option.some_ne_none v

theorem Requires.allows (h : Requires members key P) : Allows members key P := by
  obtain ⟨v, hv, hP⟩ := h
  intro w hw
  cases hv.symm.trans hw
  exact hP

end Members

section Shape

/-- The rule finds nothing wrong with just the values of which `P` holds. -/
def Asks (rule : Rule) (P : Value → Prop) : Prop := ∀ place v, rule place v = [] ↔ P v

theorem asks_filledText : Asks filledText IsFilledText := by
  intro place v
  cases v with
  | str t =>
    cases t <;> simp [filledText, IsFilledText]
  | _ => simp [filledText, IsFilledText]

theorem asks_filledTexts : Asks filledTexts IsFilledTexts := by
  intro place v
  cases v with
  | arr items =>
    simp only [filledTexts, IsFilledTexts, List.flatMap_eq_nil_iff, Value.arr.injEq,
      exists_eq_left']
    constructor
    · intro h item hitem
      rw [← List.zipIdx_map_fst 0 items] at hitem
      obtain ⟨⟨found, i⟩, hmem, rfl⟩ := List.mem_map.mp hitem
      exact (asks_filledText _ _).mp (h _ hmem)
    · rintro h ⟨item, i⟩ hmem
      rw [asks_filledText]
      apply h
      rw [← List.zipIdx_map_fst 0 items]
      exact List.mem_map_of_mem hmem
  | _ => simp [filledTexts, IsFilledTexts]

theorem asks_commandTexts : Asks commandTexts IsCommand := by
  intro place v
  unfold commandTexts
  rw [List.append_eq_nil_iff, asks_filledTexts]
  cases v with
  | arr items => cases items <;> simp [IsFilledTexts, IsCommand]
  | _ => simp [IsFilledTexts, IsCommand]

theorem asks_versionOne : Asks versionOne IsOne := by
  intro place v
  have hone : v.toInt? = some 1 ↔ IsOne v := by
    rw [v.toInt?_eq_some_iff, Int.cast_one, IsOne]
  rw [versionOne, ← hone, List.append_eq_nil_iff]
  by_cases h : v.toInt? = some 1
  · simp [h]
  · rw [if_neg h]
    simp only [List.cons_ne_nil, h, and_false]

theorem closedObject_eq_nil_iff (required : List Text) (rules : List (Text × Rule))
    (place : List Step) (v : Value) :
    closedObject required rules place v = [] ↔ ∃ members, v = .obj members ∧
      (∀ name ∈ required, name ∈ Value.names members) ∧
      (∀ name ∈ Value.names members, name ∈ rules.map (·.1)) ∧
      ∀ r ∈ rules, ∀ w, Value.member? r.1 members = some w → r.2 (place ++ [.key r.1]) w = [] := by
  cases v with
  | obj members =>
    have hmissing : missingMembers place required members = [] ↔
        ∀ name ∈ required, name ∈ Value.names members := by
      simp [missingMembers, List.filter_eq_nil_iff]
    have hextra : extraMembers place (rules.map (·.1)) members = [] ↔
        ∀ name ∈ Value.names members, name ∈ rules.map (·.1) := by
      rw [extraMembers]
      simp only [ite_eq_left_iff, List.isEmpty_iff, List.filter_eq_nil_iff]
      simp
    have hrules : memberViolations place rules members = [] ↔ ∀ r ∈ rules, ∀ w,
        Value.member? r.1 members = some w → r.2 (place ++ [.key r.1]) w = [] := by
      rw [memberViolations, List.flatMap_eq_nil_iff]
      refine forall₂_congr fun r _ => ?_
      obtain ⟨name, rule⟩ := r
      cases hfound : Value.member? name members with
      | none => simp [hfound]
      | some w => simp [hfound]
    simp only [closedObject, List.append_eq_nil_iff, hmissing, hextra, hrules, Value.obj.injEq,
      exists_eq_left', and_assoc]
  | _ => simp [closedObject]

theorem targetsShape_eq_nil_iff (place : List Step) (v : Value) :
    targetsShape place v = [] ↔ ∃ found, v = .obj found ∧ found ≠ [] ∧
      ∀ m ∈ found, targetShape (place ++ [.key m.1]) m.2 = [] := by
  cases v with
  | obj found =>
    have hempty : (if found.isEmpty then [⟨place, emptyMessage (.obj found), true⟩] else []) =
        ([] : List Violation) ↔ found ≠ [] := by
      cases found <;> simp
    simp only [targetsShape, List.append_eq_nil_iff, hempty, List.flatMap_eq_nil_iff,
      Value.obj.injEq, exists_eq_left']
  | _ => simp [targetsShape]

/-- What the shape says of a member of a target that may be left out. -/
theorem allows_of_targetShape {place : List Step} {members : Members}
    (h : targetShape place (.obj members) = []) {key : String} {rule : Rule} {P : Value → Prop}
    (hrule : (key.toList, rule) ∈ targetRules) (hasks : Asks rule P) : Allows members key P := by
  obtain ⟨_, heq, -, -, hrules⟩ := (closedObject_eq_nil_iff _ _ _ _).mp h
  cases heq
  exact fun v hv => (hasks _ v).mp (hrules _ hrule v hv)

end Shape

section Reading

variable (label : Text) (members : Members)

theorem textItem?_isSome_iff (v : Value) : (textItem? v).isSome = true ↔ IsFilledText v := by
  cases v with
  | str t => cases t <;> simp [textItem?, IsFilledText]
  | _ => simp [textItem?, IsFilledText]

theorem mapM_textItem?_isSome_iff (items : List Value) :
    (items.mapM textItem?).isSome = true ↔ ∀ item ∈ items, IsFilledText item := by
  induction items with
  | nil => simp
  | cons item items ih =>
    rw [List.forall_mem_cons, ← ih, ← textItem?_isSome_iff, List.mapM_cons]
    cases textItem? item <;> cases items.mapM textItem? <;> simp

theorem exists_requiredText_iff (key : String) :
    (∃ t, requiredText label members key = .ok t) ↔ Requires members key IsFilledText := by
  unfold requiredText Requires member
  cases hfound : Value.member? key.toList members with
  | none => simp [textItem?]
  | some v =>
    simp only [Option.getD_some, Option.some.injEq, exists_eq_left', ← textItem?_isSome_iff]
    cases textItem? v <;> simp

/-- A null stands for an empty list. -/
theorem exists_textList_iff (key : String) :
    (∃ ts, textList label (member key members) = .ok ts) ↔
      Allows members key fun v => v = .null ∨ IsFilledTexts v := by
  unfold Allows member
  cases hfound : Value.member? key.toList members with
  | none => simp [textList]
  | some v =>
    cases v with
    | arr items =>
      simp only [Option.getD_some, textList, IsFilledTexts, Option.some.injEq, forall_eq',
        reduceCtorEq, Value.arr.injEq, exists_eq_left', false_or, ← mapM_textItem?_isSome_iff]
      cases items.mapM textItem? <;> simp
    | _ => simp [textList, IsFilledTexts]

theorem exists_template_iff (key : String) (default : Text) :
    (∃ t, template label members key default = .ok t) ↔ Allows members key IsTemplate := by
  unfold template Allows
  cases hfound : Value.member? key.toList members with
  | none => simp
  | some v =>
    cases v with
    | str t =>
      by_cases hslot : occursIn classNameSlot t = true
      · simp [hslot, IsTemplate, (occursIn_iff _ _).mp hslot]
      · simp [hslot, IsTemplate, ← occursIn_iff]
    | _ => simp [IsTemplate]

/-- The texts that are read from a list are its items. -/
theorem eq_map_of_mapM_textItem? {items : List Value} {texts : List Text}
    (h : items.mapM textItem? = some texts) : items = texts.map .str := by
  induction items generalizing texts with
  | nil =>
    cases h
    rfl
  | cons item items ih =>
    rw [List.mapM_cons] at h
    obtain ⟨t, ht, h⟩ := Option.bind_eq_some_iff.mp h
    obtain ⟨rest, hrest, h⟩ := Option.bind_eq_some_iff.mp h
    cases h
    have hitem : item = .str t := by
      unfold textItem? at ht
      split at ht
      · split_ifs at ht
        cases ht
        rfl
      · cases ht
    rw [hitem, ih hrest, List.map_cons]

variable {members}

theorem classDirectory?_isSome_iff (h : Allows members "class_dir" IsFilledText) :
    (classDirectory? members).isSome = true ↔ "class_dir".toList ∈ Value.names members := by
  rw [← member?_ne_none_iff]
  unfold classDirectory? member
  cases hfound : Value.member? "class_dir".toList members with
  | none => simp
  | some v =>
    obtain ⟨t, rfl, -⟩ := h v hfound
    simp

theorem headerCommand_of_absent
    (h : Value.member? "header_command".toList members = none) :
    headerCommand label members = .ok none := by
  unfold headerCommand member
  rw [h]
  rfl

/-- A command of texts is read if no class directory that it uses is left out. -/
theorem headerCommand_of_texts {items : List Value} {texts : List Text}
    (hfound : Value.member? "header_command".toList members = some (.arr items))
    (htexts : items.mapM textItem? = some texts) (hne : texts ≠ []) :
    headerCommand label members =
      if texts.any (occursIn classDirSlot) && (classDirectory? members).isNone then
        .error (.noClassDirectory label)
      else .ok (some texts) := by
  obtain ⟨first, rest, rfl⟩ := List.exists_cons_of_ne_nil hne
  unfold headerCommand member
  rw [hfound]
  simp only [Option.getD_some, textList, htexts]

/-- A command is refused only for the class directory that it uses. -/
theorem exists_headerCommand_iff (hcommand : Allows members "header_command" IsCommand)
    (hdirectory : Allows members "class_dir" IsFilledText) :
    (∃ c, headerCommand label members = .ok c) ↔ ∀ items t,
      Value.member? "header_command".toList members = some (.arr items) → .str t ∈ items →
        classDirSlot <:+: t → "class_dir".toList ∈ Value.names members := by
  rw [← classDirectory?_isSome_iff hdirectory]
  cases hfound : Value.member? "header_command".toList members with
  | none =>
    exact ⟨fun _ _ _ h => (by cases h), fun _ => ⟨none, headerCommand_of_absent label hfound⟩⟩
  | some v =>
    obtain ⟨items, rfl, hne, hitems⟩ := hcommand v hfound
    obtain ⟨texts, htexts⟩ :=
      Option.isSome_iff_exists.mp ((mapM_textItem?_isSome_iff items).mpr hitems)
    have hitemsEq := eq_map_of_mapM_textItem? htexts
    have hne' : texts ≠ [] := by
      rintro rfl
      exact hne hitemsEq
    have huses : texts.any (occursIn classDirSlot) = true ↔ ∃ t ∈ texts, classDirSlot <:+: t := by
      simp only [List.any_eq_true, occursIn_iff]
    rw [headerCommand_of_texts label hfound htexts hne']
    subst hitemsEq
    by_cases hdir : (classDirectory? members).isSome = true
    · simp [hdir, Option.isNone_eq_false_iff.mpr hdir]
    · have hnone : (classDirectory? members).isNone = true := by simpa using hdir
      rw [hnone, Bool.and_true]
      by_cases hused : texts.any (occursIn classDirSlot) = true
      · rw [if_pos hused]
        obtain ⟨t, ht, hslot⟩ := huses.mp hused
        refine ⟨nofun, fun h => absurd ?_ hdir⟩
        exact h _ t rfl (List.mem_map_of_mem ht) hslot
      · rw [if_neg hused]
        refine ⟨fun _ items t heq ht hslot => absurd ?_ hused, fun _ => ⟨_, rfl⟩⟩
        cases heq
        obtain ⟨u, hu, heq⟩ := List.mem_map.mp ht
        cases heq
        exact huses.mpr ⟨t, hu, hslot⟩

theorem exists_readTarget_iff (name : Text) :
    (∃ t, readTarget name members = .ok t) ↔
      Requires members "source_dir" IsFilledText ∧ Requires members "jni_dir" IsFilledText ∧
      Allows members "includes" (fun v => v = .null ∨ IsFilledTexts v) ∧
      Allows members "excludes" (fun v => v = .null ∨ IsFilledTexts v) ∧
      Allows members "header_name" IsTemplate ∧ Allows members "output_name" IsTemplate ∧
      ∃ c, headerCommand ("target ".toList ++ inQuotes name) members = .ok c := by
  unfold readTarget
  simp only [exists_bind_eq_ok_iff, pure, Except.pure, Except.ok.injEq, exists_eq', and_true,
    exists_and_right, exists_requiredText_iff, exists_textList_iff, exists_template_iff]

theorem checkTarget_eq_ok_iff (name : Text) (v : Value) :
    checkTarget name v = .ok () ↔ ∃ members, v = .obj members ∧
      ∃ t, readTarget name members = .ok t := by
  cases v with
  | obj members =>
    rw [checkTarget]
    cases hread : readTarget name members <;> simp [Except.map, hread]
  | _ => simp [checkTarget]

end Reading

/-- A target passes the shape and the reading just if it is one. -/
theorem target_iff (place : List Step) (name : Text) (v : Value) :
    targetShape place v = [] ∧ checkTarget name v = .ok () ↔
      ∃ members, v = .obj members ∧ IsTarget members := by
  rw [checkTarget_eq_ok_iff]
  constructor
  · rintro ⟨hshape, members, rfl, hread⟩
    obtain ⟨_, heq, -, hknown, -⟩ := (closedObject_eq_nil_iff _ _ _ _).mp hshape
    cases heq
    rw [exists_readTarget_iff] at hread
    obtain ⟨hsource, hglue, -, -, hheader, houtput, hread⟩ := hread
    have hdirectory : Allows members "class_dir" IsFilledText :=
      allows_of_targetShape hshape (by simp [targetRules]) asks_filledText
    have hcommand : Allows members "header_command" IsCommand :=
      allows_of_targetShape hshape (by simp [targetRules]) asks_commandTexts
    exact ⟨members, rfl, {
      known := hknown
      sourceDir := hsource
      glueDir := hglue
      classDir := hdirectory
      includes := allows_of_targetShape hshape (by simp [targetRules]) asks_filledTexts
      excludes := allows_of_targetShape hshape (by simp [targetRules]) asks_filledTexts
      headerName := hheader
      outputName := houtput
      headerCommand := hcommand
      classDirUsed := (exists_headerCommand_iff _ hcommand hdirectory).mp hread }⟩
  · rintro ⟨members, rfl, h⟩
    have hfilled {key : String} (hkey : Allows members key IsTemplate) :
        Allows members key IsFilledText := fun v hv => (hkey v hv).isFilledText
    refine ⟨?_, members, rfl, ?_⟩
    · refine (closedObject_eq_nil_iff _ _ _ _).mpr ⟨members, rfl, ?_, h.known, ?_⟩
      · simp only [List.forall_mem_cons, List.not_mem_nil, false_imp_iff, implies_true, and_true]
        exact ⟨h.sourceDir.mem_names, h.glueDir.mem_names⟩
      · simp only [targetRules, List.forall_mem_cons, List.not_mem_nil, false_imp_iff,
          implies_true, and_true, asks_filledText _ _, asks_filledTexts _ _, asks_commandTexts _ _]
        exact ⟨h.sourceDir.allows, h.glueDir.allows, h.classDir, h.includes, h.excludes,
          hfilled h.headerName, hfilled h.outputName, h.headerCommand⟩
    · refine (exists_readTarget_iff name).mpr ⟨h.sourceDir, h.glueDir, ?_, ?_, h.headerName,
        h.outputName, (exists_headerCommand_iff _ h.headerCommand h.classDir).mpr h.classDirUsed⟩
      · exact fun v hv => .inr (h.includes v hv)
      · exact fun v hv => .inr (h.excludes v hv)

theorem mostRelevant?_eq_none_iff (violations : List Violation) :
    mostRelevant? violations = none ↔ violations = [] := by
  cases violations <;> simp [mostRelevant?]

theorem checkShape_eq_ok_iff (v : Value) : checkShape v = .ok () ↔ configShape [] v = [] := by
  rw [← mostRelevant?_eq_none_iff, checkShape]
  cases mostRelevant? (configShape [] v) <;> simp

theorem targets_eq_ok_iff (config found : Members) :
    targets config = .ok found ↔
      Value.member? "targets".toList config = some (.obj found) ∧ found ≠ [] := by
  unfold targets member
  cases hmember : Value.member? "targets".toList config with
  | none => simp
  | some v =>
    cases v with
    | obj members => cases members <;> simp +contextual [eq_comm]
    | _ => simp

theorem configShape_eq_nil_iff (members : Members) :
    configShape [] (.obj members) = [] ↔
      (∀ name ∈ Value.names members, name ∈ ["schema_version".toList, "targets".toList]) ∧
      Allows members "schema_version" IsOne ∧
      Requires members "targets" fun v => targetsShape [.key "targets".toList] v = [] := by
  unfold configShape
  rw [closedObject_eq_nil_iff]
  simp only [Value.obj.injEq, exists_eq_left', List.forall_mem_singleton, List.forall_mem_cons,
    asks_versionOne _ _]
  constructor
  · rintro ⟨hname, hknown, hversion, htargets⟩
    obtain ⟨v, hv⟩ := Option.ne_none_iff_exists'.mp ((member?_ne_none_iff _ _).mpr hname)
    exact ⟨hknown, hversion, v, hv, htargets v hv⟩
  · rintro ⟨hknown, hversion, htargets⟩
    exact ⟨htargets.mem_names, hknown, hversion, htargets.allows⟩

theorem check_eq_ok_iff (v : Value) (members : Members) :
    check v = .ok members ↔ v = .obj members ∧ IsConfig members := by
  cases v with
  | obj config =>
    simp only [check, bind_eq_ok_iff, Value.obj.injEq]
    constructor
    · rintro ⟨⟨⟩, hshape, found, hfound, ⟨⟩, hchecked, heq⟩
      cases heq
      rw [checkShape_eq_ok_iff, configShape_eq_nil_iff] at hshape
      rw [targets_eq_ok_iff] at hfound
      rw [forM_eq_ok_iff] at hchecked
      obtain ⟨hknown, hversion, v, hv, hshape⟩ := hshape
      cases hv.symm.trans hfound.1
      obtain ⟨_, heq, -, hshapes⟩ := (targetsShape_eq_nil_iff _ _).mp hshape
      cases heq
      refine ⟨rfl, hknown, hversion, _, hfound.1, found, rfl, hfound.2, fun m hm => ?_⟩
      exact (target_iff _ m.1 m.2).mp ⟨hshapes m hm, hchecked m hm⟩
    · rintro ⟨rfl, hknown, hversion, _, hmember, found, rfl, hne, htargets⟩
      have hpasses (place : List Step) (m : Text × Value) (hm : m ∈ found) :=
        (target_iff place m.1 m.2).mpr (htargets m hm)
      refine ⟨(), ?_, found, (targets_eq_ok_iff _ _).mpr ⟨hmember, hne⟩, (), ?_, rfl⟩
      · refine (checkShape_eq_ok_iff _).mpr ((configShape_eq_nil_iff config).mpr ?_)
        refine ⟨hknown, hversion, _, hmember, (targetsShape_eq_nil_iff _ _).mpr ?_⟩
        exact ⟨found, rfl, hne, fun m hm => (hpasses _ m hm).1⟩
      · exact (forM_eq_ok_iff _ _).mpr fun m hm => (hpasses [] m hm).2
  | _ => simp [check]

/-- A configuration is accepted as it stands. Any other value is refused with a message to the
user, and nothing is changed. -/
theorem check_outcomes (v : Value) (w : Workspace) :
    (∃ members, v = .obj members ∧ IsConfig members ∧ check v = .ok members) ∨
      ((∀ members, v = .obj members → ¬ IsConfig members) ∧ ∃ fault, check v = .error fault ∧
        (Action.liftConfig (check v)).perform w = (.error (.reported (.config fault)), w)) := by
  cases hcheck : check v with
  | ok members =>
    obtain ⟨rfl, hconfig⟩ := (check_eq_ok_iff _ _).mp hcheck
    exact .inl ⟨members, rfl, hconfig, rfl⟩
  | error fault =>
    refine .inr ⟨fun members hv hconfig => ?_, fault, rfl, rfl⟩
    rw [(check_eq_ok_iff v members).mpr ⟨hv, hconfig⟩] at hcheck
    cases hcheck

end NativeGlue.Config
