import NativeGlue.Proofs.Glue.Naming

/-!
The call of a wrapper. The exported function passes a value for each parameter of the wrapper and
in their order: its own parameters first, then the pointers that its prologue has declared. Each
value has the name and the type of the parameter, and what the wrapper returns is returned in turn
unless the prototype is of type `void`.
-/

namespace NativeGlue

open Text

namespace Linked

/-- The line that returns the value of the wrapper. -/
def returnLine : Text := "\treturn JNI_returnValue;".toList

/-- The values that are passed to the wrapper are the names of its parameters. -/
theorem callArguments_eq (m : Linked) (handles : List Text) (h : m.handleParameters = .ok handles) :
    m.declaration.callArguments =
      join ", ".toList (m.wrapperParameters.map Variable.name) := by
  have hpointers : m.pointerVariables.map Variable.name =
      m.declaration.acquired.map (·.name) := List.map_map
  rw [wrapperParameters, exportParameters, List.map_append, List.map_append,
    m.names_handleVariables handles h, hpointers]
  rfl

/-- A parameter whose pointer is acquired has a type for it, and the line that acquires it gives
the variable of that type its value. -/
theorem exists_pointer_of_acquisition (p : Parameter) (t : Text) (h : p.acquisition = .ok t) :
    (∃ pointer, p.type.category.pointer? = some pointer ∧ p.pointerVariable = ⟨pointer, p.name⟩) ∧
      ∃ value, t = p.pointerVariable.assignment value := by
  refine ⟨?_, exists_assignment_of_acquisition p t h⟩
  unfold Parameter.acquisition at h
  cases hpointer : p.type.category.pointer? with
  | none => simp [hpointer] at h
  | some pointer => exact ⟨pointer, rfl, by simp [Parameter.pointerVariable, hpointer]⟩

/-- The lines of the two functions, where there are two. -/
theorem exists_calling_lines (m : Linked) (h : m.Balanced)
    (hneeds : m.declaration.needsWrapper = true) :
    ∃ prologue epilogue,
      List.Forall₂ (fun p t => p.acquisition = .ok t) m.declaration.acquired prologue ∧
      List.Forall₂ (fun p t => p.release = .ok t) m.declaration.released epilogue ∧
      m.lines = .ok (lineMarker m.declaration.startLine ::
        (Variable.functionHead ("static inline ".toList ++ m.signature.returnType ++
            ' ' :: m.wrapperName) m.wrapperParameters :: m.declaration.body ++ closing) ++
        (Variable.functionHead m.signature.head m.exportParameters :: paragraph prologue ++
          m.callLine :: [] :: paragraph epilogue ++ m.returnLines ++ closing)) := by
  obtain ⟨handles, hhandles⟩ := m.exists_handleParameters h
  obtain ⟨prologue, hprologue, -⟩ := m.exists_prologue
  obtain ⟨epilogue, hepilogue, -⟩ := m.exists_epilogue
  refine ⟨prologue, epilogue, (mapM_eq_ok_iff _ _ _).mp hprologue,
    (mapM_eq_ok_iff _ _ _).mp hepilogue, ?_⟩
  have hwrapper := m.wrapperParameterList_eq handles hhandles
  have hexport := m.parameterList_eq handles hhandles
  simp only [lines, wrapperLines, hprologue, hepilogue, hwrapper, hexport, hneeds, bind,
    Except.bind, pure, Except.pure, if_true]
  simp [Variable.functionHead, exportHead]

/-- A line that ends with a call returns nothing. -/
theorem ne_returnLine_of_call {t : Text} (h : ");".toList <:+ t) : t ≠ returnLine := by
  rintro rfl
  revert h
  decide

theorem call_suffix_append (front closing : Text) (h : ");".toList <:+ closing) :
    ");".toList <:+ front ++ closing := h.trans (List.suffix_append front closing)

theorem call_suffix_of_acquisition (p : Parameter) (t : Text) (h : p.acquisition = .ok t) :
    ");".toList <:+ t := by
  unfold Parameter.acquisition Parameter.setupLine at h
  split at h
  · cases h
    exact call_suffix_append _ _ (by decide)
  · cases h
    exact call_suffix_append _ _ (by decide)
  · cases h
    exact call_suffix_append _ _ (by decide)
  · cases h

theorem call_suffix_of_release (p : Parameter) (t : Text) (h : p.release = .ok t) :
    ");".toList <:+ t := by
  unfold Parameter.release at h
  split at h
  · cases h
    exact call_suffix_append _ _ (by decide)
  · cases h
    exact call_suffix_append _ _ (by decide)
  · cases h

theorem call_suffix_callLine (m : Linked) : ");".toList <:+ m.callLine := by
  have hcall : ");".toList <:+ m.wrapperCall := List.suffix_append _ _
  unfold callLine
  split
  · exact call_suffix_append _ _ hcall
  · exact hcall.trans (List.suffix_cons _ _)

theorem functionHead_ne_returnLine (front : Text) (parameters : List Variable) :
    Variable.functionHead front parameters ≠ returnLine := by
  intro h
  have hlast : (Variable.functionHead front parameters).getLast? = some '\x7b' := by
    have hopening : opening = [')', ' ', '\x7b'] := rfl
    rw [Variable.functionHead, hopening, List.getLast?_append]
    rfl
  rw [h] at hlast
  exact absurd hlast (by decide)

theorem mem_paragraph_iff (texts : List Text) (t : Text) (ht : t ≠ []) :
    t ∈ paragraph texts ↔ t ∈ texts := by
  unfold paragraph
  cases texts with
  | nil => rfl
  | cons first rest => simp [ht]

/-- The exported function returns a value just when its prototype has one. -/
theorem returnLine_mem_iff (m : Linked) (prologue epilogue : List Text)
    (hprologue : List.Forall₂ (fun p t => p.acquisition = .ok t) m.declaration.acquired prologue)
    (hepilogue : List.Forall₂ (fun p t => p.release = .ok t) m.declaration.released epilogue) :
    returnLine ∈ Variable.functionHead m.signature.head m.exportParameters ::
        paragraph prologue ++ m.callLine :: [] :: paragraph epilogue ++ m.returnLines ++ closing ↔
      m.signature.returnType ≠ "void".toList := by
  have hsetup : returnLine ∉ paragraph prologue := by
    rw [mem_paragraph_iff _ _ (by decide)]
    intro hmem
    obtain ⟨p, -, hp⟩ := exists_of_forall₂ hprologue hmem
    exact ne_returnLine_of_call (call_suffix_of_acquisition p _ hp) rfl
  have hcleanup : returnLine ∉ paragraph epilogue := by
    rw [mem_paragraph_iff _ _ (by decide)]
    intro hmem
    obtain ⟨p, -, hp⟩ := exists_of_forall₂ hepilogue hmem
    exact ne_returnLine_of_call (call_suffix_of_release p _ hp) rfl
  have hhead := (functionHead_ne_returnLine m.signature.head m.exportParameters).symm
  have hcall := (ne_returnLine_of_call m.call_suffix_callLine).symm
  have hgap : returnLine ≠ [] := by decide
  have hclosing : returnLine ∉ closing := by decide
  have hreturn : returnLine ∈ m.returnLines ↔ m.returnsValue = true := by
    unfold returnLines
    cases m.returnsValue with
    | false => simp
    | true => exact iff_of_true (List.mem_singleton.mpr rfl) rfl
  simp only [List.mem_append, List.mem_cons, hsetup, hcleanup, hhead, hcall, hgap, hclosing,
    hreturn, or_false, false_or]
  exact bne_iff_ne

/-- A wrapper and its call agree. The wrapper takes the parameters of the exported function and then
the pointers; it is called with their names in this order. The pointers are declared, in the same
order and with their types, by the lines that acquire them, and the value of the call is kept and
returned just when the prototype is not of type `void`. -/
theorem wrapper_call_agrees (m : Linked) (h : m.Balanced)
    (hneeds : m.declaration.needsWrapper = true) :
    ∃ prologue epilogue exported,
      exported = Variable.functionHead m.signature.head m.exportParameters :: paragraph prologue ++
        m.callLine :: [] :: paragraph epilogue ++ m.returnLines ++ closing ∧
      m.lines = .ok (lineMarker m.declaration.startLine ::
        (Variable.functionHead ("static inline ".toList ++ m.signature.returnType ++
            ' ' :: m.wrapperName) (m.exportParameters ++ m.pointerVariables) ::
          m.declaration.body ++ closing) ++ exported) ∧
      m.wrapperCall = m.wrapperName ++ '(' :: join ", ".toList
        ((m.exportParameters ++ m.pointerVariables).map Variable.name) ++ ");".toList ∧
      List.Forall₂ (fun p v => ∃ pointer, p.type.category.pointer? = some pointer ∧
        v = ⟨pointer, p.name⟩) m.declaration.acquired m.pointerVariables ∧
      List.Forall₂ (fun v t => ∃ value, t = Variable.assignment v value)
        m.pointerVariables prologue ∧
      (m.signature.returnType ≠ "void".toList →
        m.callLine = Variable.assignment ⟨m.signature.returnType, returnVariable⟩ m.wrapperCall ∧
          m.returnLines = [returnLine]) ∧
      (m.signature.returnType = "void".toList →
        m.callLine = '\t' :: m.wrapperCall ∧ m.returnLines = []) ∧
      (returnLine ∈ exported ↔ m.signature.returnType ≠ "void".toList) := by
  obtain ⟨handles, hhandles⟩ := m.exists_handleParameters h
  obtain ⟨prologue, epilogue, hprologue, hepilogue, hlines⟩ := m.exists_calling_lines h hneeds
  refine ⟨prologue, epilogue, _, rfl, hlines, ?_, ?_, ?_, ?_, ?_,
    m.returnLine_mem_iff prologue epilogue hprologue hepilogue⟩
  · rw [wrapperCall, m.callArguments_eq handles hhandles]
    rfl
  · rw [pointerVariables, List.forall₂_map_right_iff, List.forall₂_same]
    intro p hp
    obtain ⟨t, ht⟩ := p.exists_acquisition (m.declaration.isAcquired_of_mem_acquired p hp)
    exact (exists_pointer_of_acquisition p t ht).1
  · rw [pointerVariables, List.forall₂_map_left_iff]
    exact hprologue.imp fun p t ht => (exists_pointer_of_acquisition p t ht).2
  · intro hvalue
    have hreturns : m.returnsValue = true := bne_iff_ne.mpr hvalue
    rw [callLine, returnLines, if_pos hreturns, if_pos hreturns]
    exact ⟨rfl, rfl⟩
  · intro hvoid
    have hreturns : m.returnsValue = false := by rw [returnsValue, hvoid]; rfl
    rw [callLine, returnLines, hreturns]
    exact ⟨rfl, rfl⟩

theorem fillMethod_call_agrees : fillMethod.Balanced ∧
    fillMethod.declaration.needsWrapper = true ∧
    fillMethod.pointerVariables = [⟨"char*".toList, "out".toList⟩,
      ⟨"char*".toList, "name".toList⟩, ⟨"float*".toList, "xs".toList⟩] ∧
    fillMethod.wrapperCall = ("wrapped_Java_Pixels_fill(env, clazz, obj_xs, obj_name, obj_out, " ++
      "n, out, name, xs);").toList ∧
    ∃ prologue epilogue exported, fillMethod.lines = .ok (lineMarker 4 ::
        (Variable.functionHead ("static inline jint wrapped_Java_Pixels_fill").toList
          (fillMethod.exportParameters ++ fillMethod.pointerVariables) ::
            fillMethod.declaration.body ++ closing) ++ exported) ∧
      List.Forall₂ (fun v t => ∃ value, t = Variable.assignment v value)
        fillMethod.pointerVariables prologue ∧
      exported = Variable.functionHead fillMethod.signature.head fillMethod.exportParameters ::
        paragraph prologue ++ fillMethod.callLine :: [] :: paragraph epilogue ++ [returnLine] ++
          closing := by
  have hbalanced : fillMethod.Balanced := by decide
  have hneeds : fillMethod.declaration.needsWrapper = true := by decide +kernel
  obtain ⟨prologue, epilogue, exported, hexported, hlines, hcall, -, hdeclared, -⟩ :=
    wrapper_call_agrees fillMethod hbalanced hneeds
  exact ⟨hbalanced, hneeds, by decide, hcall, prologue, epilogue, exported, hlines, hdeclared,
    hexported⟩

end Linked

end NativeGlue
