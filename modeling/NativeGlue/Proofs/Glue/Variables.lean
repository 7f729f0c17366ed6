import NativeGlue.Proofs.Glue.Layout
import NativeGlue.Proofs.Linking

/-!
The variables of the generated functions: the parameters of their heads, and what their lines
give a value. Each is a name with a native type. The exported function takes the name of its
prototype and the types from the third on; the first two types are those of the environment and
of the method's receiver, whatever the prototype has in their place.
-/

namespace NativeGlue

open Text

structure Variable where
  type : Text
  name : Text
  deriving DecidableEq, Repr

namespace Variable

def text (v : Variable) : Text := v.type ++ ' ' :: v.name

/-- The head of a function with the given parameters. -/
def functionHead (front : Text) (parameters : List Variable) : Text :=
  front ++ '(' :: join ", ".toList (parameters.map text) ++ Linked.opening

/-- A line that gives a variable its value. -/
def assignment (v : Variable) (value : Text) : Text := '\t' :: v.text ++ " = ".toList ++ value

end Variable

/-- What a line declares: the parameters of a head, or a variable with its value. -/
inductive Declares : Text → List Variable → Prop
  | head (front : Text) (parameters : List Variable) :
      Declares (Variable.functionHead front parameters) parameters
  | value (v : Variable) (value : Text) : Declares (v.assignment value) [v]

/-- The pointer under the name of the parameter. -/
def Parameter.pointerVariable (p : Parameter) : Variable :=
  ⟨(p.type.category.pointer?).getD [], p.name⟩

namespace Linked

def receiverVariables (m : Linked) : List Variable :=
  [⟨"JNIEnv*".toList, "env".toList⟩, ⟨m.declaration.receiverType, m.declaration.receiver⟩]

/-- The handles with the types of the signature, which begin behind those of the environment and
the receiver. -/
def handleVariables (m : Linked) : List Variable :=
  List.zipWith Variable.mk (m.signature.parameterTypes.drop 2)
    (m.declaration.parameters.map Parameter.handle)

def pointerVariables (m : Linked) : List Variable :=
  m.declaration.acquired.map Parameter.pointerVariable

def exportParameters (m : Linked) : List Variable := m.receiverVariables ++ m.handleVariables

def wrapperParameters (m : Linked) : List Variable := m.exportParameters ++ m.pointerVariables

def callVariables (m : Linked) : List Variable :=
  if m.returnsValue then [⟨m.signature.returnType, returnVariable⟩] else []

/-- The variables that a line with the given role declares. -/
def declared (m : Linked) : LineRole → List Variable
  | .exportHead => m.exportParameters
  | .wrapperHead => m.wrapperParameters
  | .acquisition p => [p.pointerVariable]
  | .wrapperCall => m.callVariables
  | _ => []

theorem length_handles (m : Linked) (handles : List Text) (h : m.handleParameters = .ok handles) :
    handles.length = m.declaration.parameters.length := by
  have hlength := ((mapM_eq_ok_iff _ _ _).mp h).length_eq
  rw [List.length_zipIdx] at hlength
  exact hlength.symm

/-- A handle is written with the type of its place. -/
theorem getElem?_handles (m : Linked) (handles : List Text) (h : m.handleParameters = .ok handles)
    (i : Nat) (hi : i < m.declaration.parameters.length) :
    ∃ type, m.signature.parameterTypes[i + 2]? = some type ∧
      handles[i]? = some (type ++ ' ' :: m.declaration.parameters[i].handle) := by
  have hhandles : i < handles.length := by rwa [m.length_handles handles h]
  have hread := ((mapM_eq_ok_iff _ _ _).mp h).get (i := i) (by rwa [List.length_zipIdx]) hhandles
  simp only [List.get_eq_getElem, List.getElem_zipIdx, Nat.zero_add, handleParameter] at hread
  cases htype : m.signature.parameterTypes[i + 2]? with
  | none => simp [htype] at hread
  | some type =>
    simp only [htype, Except.ok.injEq] at hread
    exact ⟨type, rfl, by rw [List.getElem?_eq_getElem hhandles, hread]⟩

/-- Where the handles can be written there is a type for each of them. -/
theorem length_le_of_handles (m : Linked) (handles : List Text)
    (h : m.handleParameters = .ok handles) :
    m.declaration.parameters.length ≤ m.signature.parameterTypes.length - 2 := by
  by_contra hshort
  obtain ⟨type, htype, -⟩ := m.getElem?_handles handles h
    (m.signature.parameterTypes.length - 2) (Nat.not_le.mp hshort)
  have hbound := (List.getElem?_eq_some_iff.mp htype).1
  omega

theorem length_handleVariables (m : Linked)
    (h : m.declaration.parameters.length ≤ m.signature.parameterTypes.length - 2) :
    m.handleVariables.length = m.declaration.parameters.length := by
  rw [handleVariables, List.length_zipWith, List.length_map, List.length_drop]
  omega

/-- The handles as they are written are their variables. -/
theorem handles_eq (m : Linked) (handles : List Text) (h : m.handleParameters = .ok handles) :
    handles = m.handleVariables.map Variable.text := by
  have hcount := m.length_handles handles h
  have hvariables := m.length_handleVariables (m.length_le_of_handles handles h)
  apply List.ext_getElem
  · rw [List.length_map, hvariables, hcount]
  · intro i hi _
    obtain ⟨type, htype, hhandle⟩ := m.getElem?_handles handles h i (by omega)
    obtain ⟨hbound, rfl⟩ := List.getElem?_eq_some_iff.mp htype
    rw [List.getElem?_eq_getElem hi, Option.some.injEq] at hhandle
    simp [handleVariables, Variable.text, hhandle, Nat.add_comm 2 i]

theorem exists_handleParameters_of_parameterList (m : Linked) (parameters : Text)
    (h : m.parameterList = .ok parameters) : ∃ handles, m.handleParameters = .ok handles := by
  cases hhandles : m.handleParameters with
  | error fault => simp [parameterList, hhandles, bind, Except.bind] at h
  | ok handles => exact ⟨handles, rfl⟩

theorem exists_handleParameters_of_lines (m : Linked) (texts : List Text)
    (h : m.lines = .ok texts) : ∃ handles, m.handleParameters = .ok handles := by
  obtain ⟨prologue, hprologue, -⟩ := m.exists_prologue
  obtain ⟨epilogue, hepilogue, -⟩ := m.exists_epilogue
  cases hparameters : m.parameterList with
  | error fault => simp [lines, hprologue, hepilogue, hparameters, bind, Except.bind] at h
  | ok parameters => exact m.exists_handleParameters_of_parameterList parameters hparameters

/-- The list of parameters is written variable by variable. -/
theorem parameterList_eq (m : Linked) (handles : List Text)
    (h : m.handleParameters = .ok handles) :
    m.parameterList = .ok (join ", ".toList (m.exportParameters.map Variable.text)) := by
  have hhandles := m.handles_eq handles h
  simp only [parameterList, h, bind, Except.bind, pure, Except.pure, exportParameters,
    List.map_append, ← hhandles]
  rfl

theorem wrapperParameterList_eq (m : Linked) (handles : List Text)
    (h : m.handleParameters = .ok handles) :
    m.wrapperParameterList = .ok (join ", ".toList (m.wrapperParameters.map Variable.text)) := by
  have hhandles := m.handles_eq handles h
  have hpointers : m.pointerVariables.map Variable.text =
      m.declaration.acquired.map pointerParameter := List.map_map
  simp only [wrapperParameterList, h, bind, Except.bind, pure, Except.pure, wrapperParameters,
    exportParameters, List.map_append, ← hhandles, hpointers]
  rfl

theorem exportHead_eq (m : Linked) (handles : List Text) (h : m.handleParameters = .ok handles)
    (t : Text) (hspells : m.Spells .exportHead t) :
    t = Variable.functionHead m.signature.head m.exportParameters := by
  obtain ⟨parameters, hparameters, rfl⟩ := hspells
  rw [m.parameterList_eq handles h, Except.ok.injEq] at hparameters
  rw [← hparameters]
  rfl

theorem wrapperHead_eq (m : Linked) (handles : List Text) (h : m.handleParameters = .ok handles)
    (t : Text) (hspells : m.Spells .wrapperHead t) :
    t = Variable.functionHead
      ("static inline ".toList ++ m.signature.returnType ++ ' ' :: m.wrapperName)
      m.wrapperParameters := by
  obtain ⟨parameters, hparameters, rfl⟩ := hspells
  rw [m.wrapperParameterList_eq handles h, Except.ok.injEq] at hparameters
  rw [← hparameters, Variable.functionHead]

/-- An acquisition gives the pointer its value. -/
theorem exists_assignment_of_acquisition (p : Parameter) (t : Text) (h : p.acquisition = .ok t) :
    ∃ value, t = p.pointerVariable.assignment value := by
  have hsetup : ∀ pointer call closing : Text, p.type.category.pointer? = some pointer →
      ∃ value, p.setupLine pointer call closing = p.pointerVariable.assignment value := by
    intro pointer call closing hpointer
    refine ⟨'(' :: pointer ++ ")env->".toList ++ call ++ '(' :: p.handle ++ closing, ?_⟩
    have hsign : " = (".toList = " = ".toList ++ ['('] := rfl
    simp only [Parameter.setupLine, Variable.assignment, Variable.text,
      Parameter.pointerVariable, hpointer, Option.getD_some, hsign, List.append_assoc,
      List.cons_append, List.nil_append]
  unfold Parameter.acquisition at h
  split at h
  · cases h
    exact hsetup _ _ _ ‹_›
  · cases h
    exact hsetup _ _ _ ‹_›
  · cases h
    exact hsetup _ _ _ ‹_›
  · cases h

/-- A line declares the variables of its role. -/
theorem declares_of_spells (m : Linked) (handles : List Text)
    (h : m.handleParameters = .ok handles) (r : LineRole) (t : Text) (hspells : m.Spells r t)
    (hdeclared : m.declared r ≠ []) : Declares t (m.declared r) := by
  cases r with
  | exportHead =>
    rw [m.exportHead_eq handles h t hspells]
    exact .head _ _
  | wrapperHead =>
    rw [m.wrapperHead_eq handles h t hspells]
    exact .head _ _
  | acquisition p =>
    obtain ⟨value, rfl⟩ := exists_assignment_of_acquisition p t hspells
    exact .value _ _
  | wrapperCall =>
    simp only [declared, callVariables] at hdeclared ⊢
    split at hdeclared
    · next hreturns =>
      rw [if_pos hreturns]
      have hcall : t = m.callLine := hspells
      rw [hcall, callLine, if_pos hreturns]
      exact .value ⟨m.signature.returnType, returnVariable⟩ m.wrapperCall
    · exact absurd rfl hdeclared
  | marker | release p | code | returned | closing | gap => exact absurd rfl hdeclared

end Linked

theorem Linked.balanced_of_mem_link (segments linked : List Segment) (signatures : List Signature)
    (h : link segments signatures = .ok linked) (m : Linked) (hm : .linked m ∈ linked) :
    m.Balanced := by
  obtain ⟨-, -, hfits⟩ := exists_of_mem_link segments linked signatures h m hm
  have hcount := ((m.signature.fits_iff m.declaration).mp hfits).2
  rw [m.balanced_iff]
  omega

namespace Linked

theorem length_exportParameters (m : Linked) (h : m.Balanced) :
    m.exportParameters.length = m.signature.parameterTypes.length := by
  have hcount := m.balanced_iff.mp h
  have hreceiver : m.receiverVariables.length = 2 := rfl
  rw [exportParameters, List.length_append, hreceiver, m.length_handleVariables (by omega), hcount,
    Nat.add_comm]

/-- From the third on the types are those of the signature. -/
theorem types_exportParameters (m : Linked) (h : m.Balanced) :
    m.exportParameters.map Variable.type =
      ["JNIEnv*".toList, m.declaration.receiverType] ++ m.signature.parameterTypes.drop 2 := by
  have htypes : m.handleVariables.map Variable.type = m.signature.parameterTypes.drop 2 := by
    have hcount := m.balanced_iff.mp h
    apply List.ext_getElem
    · rw [List.length_map, m.length_handleVariables (by omega), List.length_drop, hcount,
        Nat.add_sub_cancel]
    · intro i _ _
      simp [handleVariables]
  rw [exportParameters, List.map_append, htypes]
  rfl

/-- The prototype has the types of the environment and of a receiver of the method's kind. -/
def NamesReceiver (m : Linked) : Prop :=
  m.signature.parameterTypes.take 2 =
    ["JNIEnv*".toList, if m.declaration.isStatic then "jclass".toList else "jobject".toList]

instance (m : Linked) : Decidable m.NamesReceiver := inferInstanceAs (Decidable (_ = _))

/-- The exported function and its prototype. The head is that of the prototype, and the types of
the parameters are as many and the same from the third on. All of them are the same just when
the prototype has the receiver that the method calls for. -/
theorem exported_types_agree_iff (source header : Text) (segments : List Segment)
    (h : LinksFiles source header segments) (m : Linked) (hm : .linked m ∈ segments) :
    (∃ contents, Source.read source = .ok contents ∧ m.declaration ∈ contents.declarations) ∧
    m.signature ∈ Header.signatures header ∧
    ∃ inner outer, m.lines = .ok (lineMarker m.declaration.startLine :: inner ++
        Variable.functionHead m.signature.head m.exportParameters :: outer) ∧
      List.Forall₂ m.Spells m.wrapperRoles inner ∧
      List.Forall₂ m.Spells m.exportRoles
        (Variable.functionHead m.signature.head m.exportParameters :: outer) ∧
      m.exportParameters.length = m.signature.parameterTypes.length ∧
      (m.exportParameters.map Variable.type).drop 2 = m.signature.parameterTypes.drop 2 ∧
      (m.exportParameters.map Variable.type = m.signature.parameterTypes ↔ m.NamesReceiver) := by
  obtain ⟨contents, hread, hlink⟩ := h
  obtain ⟨hdeclared, hsignature, -⟩ := exists_of_mem_link _ _ _ hlink m hm
  have hbalanced := balanced_of_mem_link _ _ _ hlink m hm
  have htypes := m.types_exportParameters hbalanced
  refine ⟨⟨contents, hread, List.mem_filterMap.mpr ⟨_, hdeclared, rfl⟩⟩, hsignature, ?_⟩
  obtain ⟨handles, hhandles⟩ := m.exists_handleParameters hbalanced
  obtain ⟨inner, outer, hlines, hinner, houter⟩ := m.exists_lines_of_handles handles hhandles
  cases houter with
  | cons hhead hrest =>
    have heq := m.exportHead_eq handles hhandles _ hhead
    subst heq
    refine ⟨inner, _, hlines, hinner, .cons hhead hrest, m.length_exportParameters hbalanced, ?_, ?_⟩
    · rw [htypes]
      rfl
    · rw [htypes, NamesReceiver]
      constructor
      · intro hagree
        rw [← hagree]
        rfl
      · intro hreceiver
        change ["JNIEnv*".toList, if m.declaration.isStatic then "jclass".toList else
          "jobject".toList] ++ _ = _
        rw [← hreceiver, List.take_append_drop]

/-- A method of a class with code that returns, and its prototype. -/
def staticSource : Text :=
  "class A \x7b\nstatic native int f(String s); /*return 1;*/\n\x7d".toList

def staticHeader : Text :=
  "JNIEXPORT jint JNICALL Java_A_f\n  (JNIEnv *, jclass, jstring);".toList

def staticMethod : Linked where
  declaration := ⟨['A'], ['f'], true, [⟨['s'], ⟨"String".toList, .string⟩⟩], "return 1;".toList,
    2, 2, 2⟩
  signature :=
    { head := "JNIEXPORT jint JNICALL Java_A_f".toList
      name := "Java_A_f".toList
      parameterTypes := ["JNIEnv*".toList, "jclass".toList, "jstring".toList]
      returnType := "jint".toList
      line := 1 }

theorem staticMethod_links : LinksFiles staticSource staticHeader [.linked staticMethod] := by
  have hread : Source.read staticSource = .ok ⟨[.declared staticMethod.declaration], []⟩ :=
    eq_ok_of_toOption (by decide +kernel)
  have hlink : link [.declared staticMethod.declaration] (Header.signatures staticHeader) =
      .ok [.linked staticMethod] := eq_ok_of_toOption (by decide +kernel)
  exact ⟨_, hread, hlink⟩

theorem staticMethod_types_agree :
    LinksFiles staticSource staticHeader [.linked staticMethod] ∧ staticMethod.NamesReceiver ∧
      staticMethod.exportParameters.map Variable.type = staticMethod.signature.parameterTypes ∧
      ∃ inner outer, staticMethod.lines = .ok (lineMarker 2 :: inner ++
        "JNIEXPORT jint JNICALL Java_A_f(JNIEnv* env, jclass clazz, jstring obj_s) \x7b".toList ::
          outer) := by
  have hfiles := staticMethod_links
  have hreceiver : staticMethod.NamesReceiver := by decide
  obtain ⟨-, -, inner, outer, hlines, -, -, -, -, hagree⟩ := exported_types_agree_iff staticSource
    staticHeader _ hfiles staticMethod List.mem_cons_self
  exact ⟨hfiles, hreceiver, hagree.mpr hreceiver, inner, outer, hlines⟩

/-- A prototype that takes an object is linked to a method of the class, and the function written
for it takes the class instead. -/
theorem static_method_meets_object_prototype :
    ∃ m, LinksFiles "class A \x7b\nstatic native void f(); /*g();*/\n\x7d".toList
        "JNIEXPORT void JNICALL Java_A_f\n  (JNIEnv *, jobject);".toList [.linked m] ∧
      m.lines = .ok ["//@line:2".toList,
        "JNIEXPORT void JNICALL Java_A_f(JNIEnv* env, jclass clazz) \x7b".toList,
        "//@line:2".toList, "g();".toList, "\x7d".toList, []] ∧
      m.exportParameters.map Variable.type = ["JNIEnv*".toList, "jclass".toList] ∧
      m.signature.parameterTypes = ["JNIEnv*".toList, "jobject".toList] ∧
      m.exportParameters.map Variable.type ≠ m.signature.parameterTypes := by
  let m : Linked := ⟨⟨['A'], ['f'], true, [], "g();".toList, 2, 2, 2⟩,
    ⟨"JNIEXPORT void JNICALL Java_A_f".toList, "Java_A_f".toList,
      ["JNIEnv*".toList, "jobject".toList], "void".toList, 1⟩⟩
  refine ⟨m, ⟨⟨[.declared m.declaration], []⟩, ?_, ?_⟩, ?_, rfl, rfl, by decide⟩
  · exact eq_ok_of_toOption (by decide +kernel)
  · exact eq_ok_of_toOption (by decide +kernel)
  · exact eq_ok_of_toOption (by decide +kernel)

end Linked

end NativeGlue
