import NativeGlue.Glue.Method
import NativeGlue.Proofs.Traversal

/-!
The lines of a method's functions, each with what it is there for. The layout of a method is
decided by its declaration alone; with a native type for every parameter the functions are
written, and line by line they spell the layout.
-/

namespace NativeGlue

open Text

inductive LineRole where
  | marker
  | wrapperHead
  | exportHead
  | acquisition (p : Parameter)
  | release (p : Parameter)
  | code
  | wrapperCall
  | returned
  | closing
  | gap
  deriving DecidableEq, Repr

namespace LineRole

def acquisition? : LineRole → Option Parameter
  | acquisition p => some p
  | _ => none

def release? : LineRole → Option Parameter
  | release p => some p
  | _ => none

/-- The line at which the code of the method runs. -/
def runsCode : LineRole → Bool
  | code | wrapperCall => true
  | _ => false

end LineRole

/-- Lines that are followed by a gap, unless there are none. -/
def paragraphRoles (roles : List LineRole) : List LineRole :=
  if roles.isEmpty then [] else roles ++ [.gap]

namespace Declaration

def setupRoles (d : Declaration) : List LineRole :=
  paragraphRoles (d.acquired.map .acquisition)

def cleanupRoles (d : Declaration) : List LineRole :=
  paragraphRoles (d.released.map .release)

end Declaration

namespace Linked

/-- The signature gives a type to the environment, the receiver and each parameter. -/
def Balanced (m : Linked) : Prop :=
  m.signature.ownParameterCount = m.declaration.parameters.length

instance (m : Linked) : Decidable m.Balanced := inferInstanceAs (Decidable (_ = _))

theorem balanced_iff (m : Linked) : m.Balanced ↔
    m.signature.parameterTypes.length = m.declaration.parameters.length + 2 := by
  unfold Balanced Signature.ownParameterCount
  omega

/-- What the exported function holds between its acquisitions and its releases. -/
def coreRoles (m : Linked) : List LineRole :=
  if m.declaration.needsWrapper then [.wrapperCall, .gap] else [.marker, .code]

def returnRoles (m : Linked) : List LineRole :=
  if m.declaration.needsWrapper && m.returnsValue then [.returned] else []

def exportRoles (m : Linked) : List LineRole :=
  .exportHead :: m.declaration.setupRoles ++ m.coreRoles ++ m.declaration.cleanupRoles ++
    m.returnRoles ++ [.closing, .gap]

def wrapperRoles (m : Linked) : List LineRole :=
  if m.declaration.needsWrapper then [.wrapperHead, .marker, .code, .closing, .gap] else []

/-- The text of a line with the given role. -/
def Spells (m : Linked) : LineRole → Text → Prop
  | .marker, t => t = lineMarker m.declaration.startLine
  | .wrapperHead, t => ∃ parameters, m.wrapperParameterList = .ok parameters ∧
      t = "static inline ".toList ++ m.signature.returnType ++ ' ' :: m.wrapperName ++
        '(' :: parameters ++ opening
  | .exportHead, t => ∃ parameters, m.parameterList = .ok parameters ∧ t = m.exportHead parameters
  | .acquisition p, t => p.acquisition = .ok t
  | .release p, t => p.release = .ok t
  | .code, t => t = m.declaration.code
  | .wrapperCall, t => t = m.callLine
  | .returned, t => t = "\treturn ".toList ++ returnVariable ++ [';']
  | .closing, t => t = ['\x7d']
  | .gap, t => t = []

end Linked

theorem Parameter.exists_acquisition (p : Parameter) (h : p.type.isAcquired = true) :
    ∃ line, p.acquisition = .ok line := by
  unfold Parameter.acquisition
  cases hcategory : p.type.category with
  | plain kind => simp [JavaType.isAcquired, JavaType.isPlain, hcategory] at h
  | object => simp [JavaType.isAcquired, JavaType.isObject, hcategory] at h
  | string => exact ⟨_, rfl⟩
  | array element => exact ⟨_, rfl⟩
  | buffer kind => exact ⟨_, rfl⟩

theorem Parameter.exists_release (p : Parameter) (h : p.type.isReleased = true) :
    ∃ line, p.release = .ok line := by
  unfold Parameter.release
  cases hcategory : p.type.category with
  | string => exact ⟨_, rfl⟩
  | array element => exact ⟨_, rfl⟩
  | plain kind | object | buffer kind =>
    simp [JavaType.isReleased, JavaType.isString, JavaType.isArray, hcategory] at h

namespace Declaration

theorem isAcquired_of_mem_acquired (d : Declaration) (p : Parameter) (h : p ∈ d.acquired) :
    p.type.isAcquired = true := by
  simp only [acquired, buffers, strings, arrays, List.mem_append, List.mem_filter] at h
  unfold JavaType.isAcquired JavaType.isPlain JavaType.isObject
  unfold JavaType.isBuffer JavaType.isString JavaType.isArray at h
  cases hcategory : p.type.category <;> simp [hcategory] at h ⊢

theorem isReleased_of_mem_released (d : Declaration) (p : Parameter) (h : p ∈ d.released) :
    p.type.isReleased = true := by
  simp only [released, strings, arrays, List.mem_append, List.mem_filter] at h
  unfold JavaType.isReleased
  rcases h with ⟨-, harray⟩ | ⟨-, hstring⟩
  · rw [harray, Bool.or_true]
  · rw [hstring, Bool.true_or]

end Declaration

namespace Linked

theorem exists_handleParameters (m : Linked) (h : m.Balanced) :
    ∃ handles, m.handleParameters = .ok handles := by
  apply exists_mapM_eq_ok
  rintro ⟨p, index⟩ hmem
  have hindex : index < m.declaration.parameters.length := (List.mem_zipIdx' hmem).1
  have htypes : index + 2 < m.signature.parameterTypes.length := by
    rw [m.balanced_iff.mp h]
    omega
  exact ⟨m.signature.parameterTypes[index + 2] ++ ' ' :: p.handle, by
    simp only [handleParameter, List.getElem?_eq_getElem htypes]⟩

theorem forall₂_spells_paragraph (m : Linked) (ps : List Parameter) (texts : List Text)
    (role : Parameter → LineRole) (h : List.Forall₂ (fun p t => m.Spells (role p) t) ps texts) :
    List.Forall₂ m.Spells (paragraphRoles (ps.map role)) (paragraph texts) := by
  cases h with
  | nil => exact .nil
  | cons hhead htail =>
    have hlines : List.Forall₂ m.Spells (List.map role (_ :: _)) (_ :: _) :=
      List.forall₂_map_left_iff.mpr (.cons hhead htail)
    exact List.rel_append hlines (.cons rfl .nil)

/-- The acquisitions, followed by an empty line, spell their part of the layout. -/
theorem exists_prologue (m : Linked) :
    ∃ texts, m.declaration.prologue = .ok texts ∧
      List.Forall₂ m.Spells m.declaration.setupRoles (paragraph texts) := by
  obtain ⟨texts, htexts⟩ := exists_mapM_eq_ok Parameter.acquisition m.declaration.acquired
    fun p hp => p.exists_acquisition (m.declaration.isAcquired_of_mem_acquired p hp)
  refine ⟨texts, htexts, ?_⟩
  exact m.forall₂_spells_paragraph _ _ .acquisition ((mapM_eq_ok_iff _ _ _).mp htexts)

theorem exists_epilogue (m : Linked) :
    ∃ texts, m.declaration.epilogue = .ok texts ∧
      List.Forall₂ m.Spells m.declaration.cleanupRoles (paragraph texts) := by
  obtain ⟨texts, htexts⟩ := exists_mapM_eq_ok Parameter.release m.declaration.released
    fun p hp => p.exists_release (m.declaration.isReleased_of_mem_released p hp)
  refine ⟨texts, htexts, ?_⟩
  exact m.forall₂_spells_paragraph _ _ .release ((mapM_eq_ok_iff _ _ _).mp htexts)

theorem spells_closing (m : Linked) : List.Forall₂ m.Spells [.closing, .gap] closing :=
  .cons rfl (.cons rfl .nil)

theorem exists_exportHead (m : Linked) (handles : List Text)
    (hhandles : m.handleParameters = .ok handles) :
    ∃ parameters, m.parameterList = .ok parameters ∧
      m.Spells .exportHead (m.exportHead parameters) := by
  have hparameters : m.parameterList =
      .ok (join ", ".toList (m.receiverParameters ++ handles)) := by
    simp only [parameterList, hhandles, bind, Except.bind, pure, Except.pure]
  exact ⟨_, hparameters, _, hparameters, rfl⟩

/-- The wrapper's lines, in which nothing is acquired or released. -/
theorem exists_wrapperLines (m : Linked) (handles : List Text)
    (hhandles : m.handleParameters = .ok handles) :
    ∃ texts, m.wrapperLines = .ok texts ∧
      List.Forall₂ m.Spells [.wrapperHead, .marker, .code, .closing, .gap] texts := by
  let parameters := join ", ".toList
    (m.receiverParameters ++ handles ++ m.declaration.acquired.map pointerParameter)
  have hparameters : m.wrapperParameterList = .ok parameters := by
    simp only [parameters, wrapperParameterList, hhandles, bind, Except.bind, pure, Except.pure]
  have hlines : m.wrapperLines = .ok (("static inline ".toList ++ m.signature.returnType ++
      ' ' :: m.wrapperName ++ '(' :: parameters ++ opening) :: m.declaration.body ++ closing) := by
    simp only [wrapperLines, hparameters, bind, Except.bind, pure, Except.pure]
  exact ⟨_, hlines, .cons ⟨_, hparameters, rfl⟩ (.cons rfl (.cons rfl m.spells_closing))⟩

theorem spells_returnLines (m : Linked) (hneeds : m.declaration.needsWrapper = true) :
    List.Forall₂ m.Spells m.returnRoles m.returnLines := by
  unfold returnRoles returnLines
  cases m.returnsValue with
  | false => simp
  | true =>
    rw [hneeds]
    exact .cons rfl .nil

/-- Once every handle has its native type the functions are written: the marker, the lines of
the wrapper and those of the exported function. -/
theorem exists_lines_of_handles (m : Linked) (handles : List Text)
    (hhandles : m.handleParameters = .ok handles) :
    ∃ inner outer, m.lines = .ok (lineMarker m.declaration.startLine :: inner ++ outer) ∧
      List.Forall₂ m.Spells m.wrapperRoles inner ∧
      List.Forall₂ m.Spells m.exportRoles outer := by
  obtain ⟨prologue, hprologue, hsetup⟩ := m.exists_prologue
  obtain ⟨epilogue, hepilogue, hcleanup⟩ := m.exists_epilogue
  obtain ⟨parameters, hparameters, hhead⟩ := m.exists_exportHead handles hhandles
  have hopened : List.Forall₂ m.Spells (.exportHead :: m.declaration.setupRoles)
      (m.exportHead parameters :: paragraph prologue) := .cons hhead hsetup
  cases hneeds : m.declaration.needsWrapper with
  | false =>
    have hcore : List.Forall₂ m.Spells m.coreRoles m.declaration.body := by
      rw [coreRoles, hneeds]
      exact .cons rfl (.cons rfl .nil)
    refine ⟨[], m.exportHead parameters :: paragraph prologue ++ m.declaration.body ++
      paragraph epilogue ++ closing, ?_, ?_, ?_⟩
    · simp [lines, hprologue, hepilogue, hparameters, hneeds, bind, Except.bind, pure,
        Except.pure]
    · simp [wrapperRoles, hneeds]
    · have hreturn : m.returnRoles = [] := by simp [returnRoles, hneeds]
      rw [exportRoles, hreturn, List.append_nil]
      exact List.rel_append (List.rel_append (List.rel_append hopened hcore) hcleanup)
        m.spells_closing
  | true =>
    obtain ⟨inner, hinner, hwrapper⟩ := m.exists_wrapperLines handles hhandles
    have hcore : List.Forall₂ m.Spells m.coreRoles [m.callLine, []] := by
      rw [coreRoles, hneeds]
      exact .cons rfl (.cons rfl .nil)
    refine ⟨inner, m.exportHead parameters :: paragraph prologue ++ [m.callLine, []] ++
      paragraph epilogue ++ m.returnLines ++ closing, ?_, ?_, ?_⟩
    · simp [lines, hinner, hprologue, hepilogue, hparameters, hneeds, bind, Except.bind, pure,
        Except.pure]
    · rw [wrapperRoles, hneeds]
      exact hwrapper
    · exact List.rel_append (List.rel_append (List.rel_append (List.rel_append hopened hcore)
        hcleanup) (m.spells_returnLines hneeds)) m.spells_closing

/-- A signature with a type for every parameter is enough. -/
theorem exists_lines (m : Linked) (h : m.Balanced) :
    ∃ inner outer, m.lines = .ok (lineMarker m.declaration.startLine :: inner ++ outer) ∧
      List.Forall₂ m.Spells m.wrapperRoles inner ∧
      List.Forall₂ m.Spells m.exportRoles outer := by
  obtain ⟨handles, hhandles⟩ := m.exists_handleParameters h
  exact m.exists_lines_of_handles handles hhandles

end Linked

end NativeGlue
