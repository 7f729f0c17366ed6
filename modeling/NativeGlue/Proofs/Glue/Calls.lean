import NativeGlue.Proofs.Glue.Pointers
import NativeGlue.Proofs.Glue.Variables
import NativeGlue.Proofs.JavaType
import NativeGlue.Proofs.Text.Occurrence

/-!
Calls through the environment, as they are read off the text of the generated lines. The line that
acquires a pointer makes one call, on the handle, and so does the line that gives it back, with the
handle and the pointer. No other line makes a call, as far as the names in it are free of calls and
the code of the method is left aside.
-/

namespace NativeGlue

open Text

/-- What a call through the environment starts with. -/
def callSign : Text := "env->".toList

/-- The functions that a text calls through the environment, in their order. A name ends at the
bracket behind it. -/
def callsIn : Text → List Text
  | [] => []
  | c :: rest =>
    match dropStart? callSign (c :: rest) with
    | some after => after.takeWhile (· != '(') :: callsIn rest
    | none => callsIn rest

theorem callsIn_eq_nil_iff (t : Text) : callsIn t = [] ↔ ¬ callSign <:+: t := by
  induction t with
  | nil => exact iff_of_true rfl (by decide)
  | cons c rest ih =>
    rw [List.infix_cons_iff, not_or, ← ih, ← dropStart?_eq_none_iff, callsIn]
    cases dropStart? callSign (c :: rest) <;> simp

theorem callsIn_of_not_prefix {c : Char} {rest : Text} (h : ¬ callSign <+: c :: rest) :
    callsIn (c :: rest) = callsIn rest := by
  rw [callsIn, (dropStart?_eq_none_iff _ _).mpr h]

theorem callsIn_cons {c : Char} (rest : Text) (hc : c ∉ callSign) :
    callsIn (c :: rest) = callsIn rest := by
  refine callsIn_of_not_prefix fun h => hc ?_
  have hfirst : 'e' = c := (List.cons_prefix_cons.mp h).1
  exact hfirst ▸ List.mem_cons_self

/-- What holds no call is passed over, up to a character that no call holds. -/
theorem callsIn_append_cons {c : Char} (front rest : Text) (hfront : callsIn front = [])
    (hc : c ∉ callSign) : callsIn (front ++ c :: rest) = callsIn rest := by
  rw [callsIn_eq_nil_iff] at hfront
  induction front with
  | nil => exact callsIn_cons rest hc
  | cons d front ih =>
    have hfar : ¬ callSign <+: d :: (front ++ c :: rest) := by
      intro h
      exact hfront (prefix_of_prefix_append_cons (t := d :: front) hc h).isInfix
    rw [List.cons_append, callsIn_of_not_prefix hfar]
    exact ih fun h => hfront (List.infix_cons h)

/-- A call is read, and what stands behind its bracket is read on. -/
theorem callsIn_call {f : Text} (rest : Text) (hbracket : '(' ∉ f)
    (hplain : callsIn ("nv->".toList ++ f) = []) :
    callsIn (callSign ++ (f ++ '(' :: rest)) = f :: callsIn rest := by
  have hname : (f ++ '(' :: rest).takeWhile (· != '(') = f := by
    rw [List.takeWhile_append_of_pos]
    · simp
    · intro c hc
      have hne : c ≠ '(' := by
        rintro rfl
        exact hbracket hc
      simpa using hne
  have hbehind : callsIn ("nv->".toList ++ (f ++ '(' :: rest)) = callsIn rest := by
    rw [← List.append_assoc]
    exact callsIn_append_cons _ rest hplain (by decide)
  have hsign : callSign ++ (f ++ '(' :: rest) =
      'e' :: ("nv->".toList ++ (f ++ '(' :: rest)) := rfl
  rw [hsign, callsIn, ← hsign, dropStart?_append, hbehind]
  exact congrArg (· :: callsIn rest) hname

/-- The marker of a line holds only its sign and the digits of a number. -/
theorem notMem_lineMarker {c : Char} (line : Int) (hfixed : c ∉ "//@line:-".toList)
    (hdigit : c.isDigit = false) : c ∉ lineMarker line := by
  have hdigits (n : Nat) : c ∉ Nat.toDigits 10 n := by
    intro hmem
    rw [Nat.isDigit_of_mem_toDigits (by decide) (by decide) hmem] at hdigit
    cases hdigit
  have hword : c ∉ "//@line:".toList := fun hmem => hfixed (List.mem_append_left ['-'] hmem)
  have hsign : c ≠ '-' := by
    rintro rfl
    exact hfixed (by decide)
  unfold lineMarker ofInt ofNat
  cases line with
  | ofNat n => exact List.mem_append.not.mpr (not_or.mpr ⟨hword, hdigits n⟩)
  | negSucc n =>
    refine List.mem_append.not.mpr (not_or.mpr ⟨hword, ?_⟩)
    exact List.mem_cons.not.mpr (not_or.mpr ⟨hsign, hdigits (n + 1)⟩)

theorem callsIn_lineMarker (line : Int) : callsIn (lineMarker line) = [] := by
  rw [callsIn_eq_nil_iff]
  intro h
  exact notMem_lineMarker line (by decide) (by decide) (h.subset (by decide : '>' ∈ callSign))

/-- Joined texts hold no call if none of them does. -/
theorem callsIn_join (pieces : List Text) (h : ∀ t ∈ pieces, callsIn t = []) :
    callsIn (join ", ".toList pieces) = [] := by
  rw [callsIn_eq_nil_iff]
  intro hin
  obtain ⟨t, ht, hcall⟩ :=
    infix_of_infix_join (by decide) (by decide) (by simp [callSign]) pieces hin
  exact (callsIn_eq_nil_iff t).mp (h t ht) hcall

namespace LineRole

def getCritical : Text := "GetPrimitiveArrayCritical".toList

def releaseCritical : Text := "ReleasePrimitiveArrayCritical".toList

/-- The function of the environment that a line calls. -/
def function? : LineRole → Option Text
  | acquisition p =>
    match p.type.category with
    | .buffer _ => some "GetDirectBufferAddress".toList
    | .string => some "GetStringUTFChars".toList
    | .array _ => some getCritical
    | _ => none
  | release p =>
    match p.type.category with
    | .array _ => some releaseCritical
    | .string => some "ReleaseStringUTFChars".toList
    | _ => none
  | _ => none

end LineRole

namespace Parameter

/-- The line that declares the pointer of a parameter and obtains it from the handle. The handle
has the name of the parameter behind `obj_`, and the pointer has the name itself. -/
inductive AcquiredBy (p : Parameter) : Text → Prop
  | buffer (kind : BufferKind) (pointer : Text) (hcategory : p.type.category = .buffer kind)
    (hpointer : p.type.category.pointer? = some pointer) :
    p.AcquiredBy ("\t".toList ++ pointer ++ " ".toList ++ p.name ++ " = (".toList ++ pointer ++
      ")env->GetDirectBufferAddress(obj_".toList ++ p.name ++ ");".toList)
  | string (pointer : Text) (hcategory : p.type.category = .string)
    (hpointer : p.type.category.pointer? = some pointer) :
    p.AcquiredBy ("\t".toList ++ pointer ++ " ".toList ++ p.name ++ " = (".toList ++ pointer ++
      ")env->GetStringUTFChars(obj_".toList ++ p.name ++ ", 0);".toList)
  | array (element : Primitive) (pointer : Text) (hcategory : p.type.category = .array element)
    (hpointer : p.type.category.pointer? = some pointer) :
    p.AcquiredBy ("\t".toList ++ pointer ++ " ".toList ++ p.name ++ " = (".toList ++ pointer ++
      ")env->GetPrimitiveArrayCritical(obj_".toList ++ p.name ++ ", 0);".toList)

/-- The line that gives the pointer of a parameter back, to the handle that it came from. -/
inductive ReleasedBy (p : Parameter) : Text → Prop
  | string (hcategory : p.type.category = .string) :
    p.ReleasedBy ("\tenv->ReleaseStringUTFChars(obj_".toList ++ p.name ++ ", ".toList ++
      p.name ++ ");".toList)
  | array (element : Primitive) (hcategory : p.type.category = .array element) :
    p.ReleasedBy ("\tenv->ReleasePrimitiveArrayCritical(obj_".toList ++ p.name ++
      ", ".toList ++ p.name ++ ", 0);".toList)

/-- A parameter with a pointer arrives under a name of its own. -/
theorem handle_eq (p : Parameter) (pointer : Text)
    (h : p.type.category.pointer? = some pointer) : p.handle = "obj_".toList ++ p.name := by
  refine if_pos ?_
  rw [← JavaType.isSome_pointer?_iff, h]
  rfl

theorem setupLine_eq (p : Parameter) (pointer call closing : Text)
    (h : p.type.category.pointer? = some pointer) :
    p.setupLine pointer call closing = "\t".toList ++ pointer ++ " ".toList ++ p.name ++
      " = (".toList ++ pointer ++ (")env->".toList ++ call ++ "(obj_".toList) ++ p.name ++
        closing := by
  have hopen : "(obj_".toList = '(' :: "obj_".toList := rfl
  rw [setupLine, p.handle_eq pointer h, hopen]
  simp only [List.append_assoc, List.cons_append]
  rfl

theorem acquiredBy_of_acquisition {p : Parameter} {t : Text} (h : p.acquisition = .ok t) :
    p.AcquiredBy t := by
  unfold acquisition at h
  split at h
  · next pointer kind hpointer hcategory =>
    cases h
    rw [p.setupLine_eq pointer _ _ hpointer]
    exact .buffer kind pointer hcategory hpointer
  · next pointer hpointer hcategory =>
    cases h
    rw [p.setupLine_eq pointer _ _ hpointer]
    exact .string pointer hcategory hpointer
  · next pointer element hpointer hcategory =>
    cases h
    rw [p.setupLine_eq pointer _ _ hpointer]
    exact .array element pointer hcategory hpointer
  · cases h

theorem releasedBy_of_release {p : Parameter} {t : Text} (h : p.release = .ok t) :
    p.ReleasedBy t := by
  unfold release at h
  split at h
  · next element hcategory =>
    cases h
    have hline : "\tenv->ReleasePrimitiveArrayCritical(obj_".toList =
        "\tenv->ReleasePrimitiveArrayCritical(".toList ++ "obj_".toList := rfl
    rw [p.handle_eq _ (congrArg Category.pointer? hcategory), ← List.append_assoc, ← hline]
    exact .array element hcategory
  · next hcategory =>
    cases h
    have hline : "\tenv->ReleaseStringUTFChars(obj_".toList =
        "\tenv->ReleaseStringUTFChars(".toList ++ "obj_".toList := rfl
    rw [p.handle_eq _ (congrArg Category.pointer? hcategory), ← List.append_assoc, ← hline]
    exact .string hcategory
  · cases h

/-- What ends the lines of calls. -/
theorem callsIn_append_closing {name closing : Text} (hname : callsIn name = [])
    (hclosing : closing = ");".toList ∨ closing = ", 0);".toList) :
    callsIn (name ++ closing) = [] := by
  rcases hclosing with rfl | rfl
  · exact callsIn_append_cons _ _ hname (by decide)
  · exact callsIn_append_cons _ _ hname (by decide)

/-- A handle and the rest of its line hold no call. -/
theorem callsIn_obj_append {rest : Text} (h : callsIn rest = []) :
    callsIn ("obj_".toList ++ rest) = [] :=
  (callsIn_append_cons "obj".toList rest (by decide) (by decide)).trans h

theorem callsIn_setup {pointer name f closing : Text} (hpointer : callsIn pointer = [])
    (hname : callsIn name = []) (hbracket : '(' ∉ f) (hplain : callsIn ("nv->".toList ++ f) = [])
    (hclosing : closing = ");".toList ∨ closing = ", 0);".toList) :
    callsIn ("\t".toList ++ pointer ++ " ".toList ++ name ++ " = (".toList ++ pointer ++
      (")env->".toList ++ f ++ "(obj_".toList) ++ name ++ closing) = [f] := by
  have hline : "\t".toList ++ pointer ++ " ".toList ++ name ++ " = (".toList ++ pointer ++
      (")env->".toList ++ f ++ "(obj_".toList) ++ name ++ closing =
        '\t' :: (pointer ++ ' ' :: (name ++ ' ' :: ("= (".toList ++ (pointer ++
          ')' :: (callSign ++ (f ++ '(' :: ("obj_".toList ++ (name ++ closing)))))))) := by
    simp only [List.append_assoc]
    rfl
  have hcast : callsIn ("= (".toList ++ (pointer ++ ')' :: (callSign ++ (f ++ '(' ::
      ("obj_".toList ++ (name ++ closing)))))) = callsIn (pointer ++ ')' :: (callSign ++ (f ++
        '(' :: ("obj_".toList ++ (name ++ closing))))) :=
    callsIn_append_cons "= ".toList _ (by decide) (by decide)
  rw [hline, callsIn_cons _ (by decide), callsIn_append_cons _ _ hpointer (by decide),
    callsIn_append_cons _ _ hname (by decide), hcast,
    callsIn_append_cons _ _ hpointer (by decide), callsIn_call _ hbracket hplain,
    callsIn_obj_append (callsIn_append_closing hname hclosing)]

theorem callsIn_pointer {c : Category} {pointer : Text} (h : c.pointer? = some pointer) :
    callsIn pointer = [] := by
  cases c with
  | plain kind | object => cases h
  | string =>
    cases h
    decide
  | array element =>
    cases h
    cases element <;> rfl
  | buffer kind =>
    cases h
    cases kind <;> rfl

theorem AcquiredBy.callsIn_eq {p : Parameter} {t : Text} (h : p.AcquiredBy t)
    (hname : callsIn p.name = []) : callsIn t = (LineRole.acquisition p).function?.toList := by
  cases h with
  | buffer kind pointer hcategory hpointer =>
    have hcall : ")env->GetDirectBufferAddress(obj_".toList =
        ")env->".toList ++ "GetDirectBufferAddress".toList ++ "(obj_".toList := rfl
    have hfunction : (LineRole.acquisition p).function? = some "GetDirectBufferAddress".toList := by
      simp only [LineRole.function?, hcategory]
    rw [hfunction, hcall]
    exact callsIn_setup (callsIn_pointer hpointer) hname (by decide) (by decide) (.inl rfl)
  | string pointer hcategory hpointer =>
    have hcall : ")env->GetStringUTFChars(obj_".toList =
        ")env->".toList ++ "GetStringUTFChars".toList ++ "(obj_".toList := rfl
    have hfunction : (LineRole.acquisition p).function? = some "GetStringUTFChars".toList := by
      simp only [LineRole.function?, hcategory]
    rw [hfunction, hcall]
    exact callsIn_setup (callsIn_pointer hpointer) hname (by decide) (by decide) (.inr rfl)
  | array element pointer hcategory hpointer =>
    have hcall : ")env->GetPrimitiveArrayCritical(obj_".toList =
        ")env->".toList ++ LineRole.getCritical ++ "(obj_".toList := rfl
    have hfunction : (LineRole.acquisition p).function? = some LineRole.getCritical := by
      simp only [LineRole.function?, hcategory]
    rw [hfunction, hcall]
    exact callsIn_setup (callsIn_pointer hpointer) hname (by decide) (by decide) (.inr rfl)

theorem callsIn_cleanup {name f closing : Text} (hname : callsIn name = []) (hbracket : '(' ∉ f)
    (hplain : callsIn ("nv->".toList ++ f) = [])
    (hclosing : closing = ");".toList ∨ closing = ", 0);".toList) :
    callsIn ("\tenv->".toList ++ f ++ "(obj_".toList ++ name ++ ", ".toList ++ name ++ closing) =
      [f] := by
  have hline : "\tenv->".toList ++ f ++ "(obj_".toList ++ name ++ ", ".toList ++ name ++ closing =
      '\t' :: (callSign ++ (f ++ '(' :: ("obj_".toList ++ (name ++ ',' :: ' ' ::
        (name ++ closing))))) := by
    simp only [List.append_assoc]
    rfl
  have hpointer : callsIn (name ++ ',' :: ' ' :: (name ++ closing)) = [] := by
    rw [callsIn_append_cons _ _ hname (by decide), callsIn_cons _ (by decide),
      callsIn_append_closing hname hclosing]
  rw [hline, callsIn_cons _ (by decide), callsIn_call _ hbracket hplain,
    callsIn_obj_append hpointer]

theorem ReleasedBy.callsIn_eq {p : Parameter} {t : Text} (h : p.ReleasedBy t)
    (hname : callsIn p.name = []) : callsIn t = (LineRole.release p).function?.toList := by
  cases h with
  | string hcategory =>
    have hcall : "\tenv->ReleaseStringUTFChars(obj_".toList =
        "\tenv->".toList ++ "ReleaseStringUTFChars".toList ++ "(obj_".toList := rfl
    have hfunction : (LineRole.release p).function? = some "ReleaseStringUTFChars".toList := by
      simp only [LineRole.function?, hcategory]
    rw [hfunction, hcall]
    exact callsIn_cleanup hname (by decide) (by decide) (.inl rfl)
  | array element hcategory =>
    have hcall : "\tenv->ReleasePrimitiveArrayCritical(obj_".toList =
        "\tenv->".toList ++ LineRole.releaseCritical ++ "(obj_".toList := rfl
    have hfunction : (LineRole.release p).function? = some LineRole.releaseCritical := by
      simp only [LineRole.function?, hcategory]
    rw [hfunction, hcall]
    exact callsIn_cleanup hname (by decide) (by decide) (.inr rfl)

end Parameter

namespace Linked

/-- The names that are passed to the wrapper: those of the environment, the receiver and the
handles, and then those of the pointers. -/
def passedNames (m : Linked) : List Text :=
  ["env".toList, if m.declaration.isStatic then "clazz".toList else "object".toList] ++
    m.declaration.parameters.map Parameter.handle ++ m.declaration.acquired.map (·.name)

/-- The line at which the exported function runs the code of its method. It is the code as it was
given, or it calls the wrapper by its name and keeps the value, if there is one. -/
inductive RunBy (m : Linked) : Text → Prop
  | inPlace (hneeds : m.declaration.needsWrapper = false) : m.RunBy m.declaration.code
  | call (hneeds : m.declaration.needsWrapper = true)
    (hvoid : m.signature.returnType = "void".toList) :
    m.RunBy ("\twrapped_".toList ++ m.signature.name ++ "(".toList ++
      join ", ".toList m.passedNames ++ ");".toList)
  | value (hneeds : m.declaration.needsWrapper = true)
    (hvalue : m.signature.returnType ≠ "void".toList) :
    m.RunBy ("\t".toList ++ m.signature.returnType ++ " JNI_returnValue = wrapped_".toList ++
      m.signature.name ++ "(".toList ++ join ", ".toList m.passedNames ++ ");".toList)

theorem callArguments_eq_join (m : Linked) :
    m.declaration.callArguments = join ", ".toList m.passedNames := rfl

theorem runBy_callLine (m : Linked) (h : m.declaration.needsWrapper = true) :
    m.RunBy m.callLine := by
  unfold callLine wrapperCall wrapperName
  rw [m.callArguments_eq_join]
  split
  · next hreturns =>
    have hline : '\t' :: m.signature.returnType ++ ' ' :: returnVariable ++ " = ".toList ++
        ("wrapped_".toList ++ m.signature.name ++ '(' :: join ", ".toList m.passedNames ++
          ");".toList) = "\t".toList ++ m.signature.returnType ++
            " JNI_returnValue = wrapped_".toList ++ m.signature.name ++ "(".toList ++
              join ", ".toList m.passedNames ++ ");".toList := by
      simp only [List.append_assoc, List.cons_append]
      rfl
    rw [hline]
    exact .value h (bne_iff_ne.mp hreturns)
  · next hreturns =>
    have hline : '\t' :: ("wrapped_".toList ++ m.signature.name ++
        '(' :: join ", ".toList m.passedNames ++ ");".toList) = "\twrapped_".toList ++
          m.signature.name ++ "(".toList ++ join ", ".toList m.passedNames ++ ");".toList := by
      simp only [List.append_assoc, List.cons_append]
      rfl
    rw [hline]
    refine .call h ?_
    simpa [returnsValue] using hreturns

/-- No text that the method brings along contains a call, its code apart. -/
def PlainNames (m : Linked) : Prop :=
  ∀ t ∈ m.signature.head :: m.signature.returnType :: m.signature.name ::
    (m.signature.parameterTypes ++ m.declaration.parameters.map (·.name)), callsIn t = []

instance (m : Linked) : Decidable m.PlainNames := inferInstanceAs (Decidable (∀ t ∈ _, _ = _))

namespace PlainNames

variable {m : Linked}

theorem head (h : m.PlainNames) : callsIn m.signature.head = [] := h _ (by simp)

theorem returnType (h : m.PlainNames) : callsIn m.signature.returnType = [] := h _ (by simp)

theorem signatureName (h : m.PlainNames) : callsIn m.signature.name = [] := h _ (by simp)

theorem parameterType (h : m.PlainNames) {t : Text} (ht : t ∈ m.signature.parameterTypes) :
    callsIn t = [] := h _ (by simp [ht])

theorem name (h : m.PlainNames) {p : Parameter} (hp : p ∈ m.declaration.parameters) :
    callsIn p.name = [] :=
  h _ (List.mem_cons_of_mem _ (List.mem_cons_of_mem _ (List.mem_cons_of_mem _
    (List.mem_append_right _ (List.mem_map_of_mem hp)))))

theorem handle (h : m.PlainNames) {p : Parameter} (hp : p ∈ m.declaration.parameters) :
    callsIn p.handle = [] := by
  unfold Parameter.handle
  split
  · exact Parameter.callsIn_obj_append (h.name hp)
  · exact h.name hp

theorem pointerName (h : m.PlainNames) {p : Parameter} (hp : p ∈ m.declaration.acquired) :
    callsIn p.name = [] :=
  h.name (List.mem_filter.mp (m.declaration.acquired_perm.mem_iff.mp hp)).1

theorem passedNames (h : m.PlainNames) : callsIn (join ", ".toList m.passedNames) = [] := by
  refine callsIn_join _ fun t ht => ?_
  simp only [Linked.passedNames, List.mem_append, List.mem_cons, List.mem_map,
    List.not_mem_nil, or_false] at ht
  rcases ht with ((rfl | rfl) | ⟨p, hp, rfl⟩) | ⟨p, hp, rfl⟩
  · decide
  · split <;> decide
  · exact h.handle hp
  · exact h.pointerName hp

/-- The line that runs the wrapper is no call through the environment. -/
theorem runBy (h : m.PlainNames) {t : Text} (ht : m.RunBy t)
    (hneeds : m.declaration.needsWrapper = true) : callsIn t = [] := by
  have hcall : callsIn (m.signature.name ++
      '(' :: (join ", ".toList m.passedNames ++ ");".toList)) = [] := by
    rw [callsIn_append_cons _ _ h.signatureName (by decide)]
    exact Parameter.callsIn_append_closing h.passedNames (.inl rfl)
  cases ht with
  | inPlace hinPlace =>
    rw [hneeds] at hinPlace
    cases hinPlace
  | call =>
    have hline : "\twrapped_".toList ++ m.signature.name ++ "(".toList ++
        join ", ".toList m.passedNames ++ ");".toList = "\twrapped".toList ++
          '_' :: (m.signature.name ++ '(' :: (join ", ".toList m.passedNames ++ ");".toList)) := by
      simp only [List.append_assoc]
      rfl
    rw [hline, callsIn_append_cons _ _ (by decide) (by decide), hcall]
  | value =>
    have hline : "\t".toList ++ m.signature.returnType ++ " JNI_returnValue = wrapped_".toList ++
        m.signature.name ++ "(".toList ++ join ", ".toList m.passedNames ++ ");".toList =
          '\t' :: (m.signature.returnType ++ ' ' :: ("JNI_returnValue = wrapped".toList ++
            '_' :: (m.signature.name ++
              '(' :: (join ", ".toList m.passedNames ++ ");".toList)))) := by
      simp only [List.append_assoc]
      rfl
    rw [hline, callsIn_cons _ (by decide), callsIn_append_cons _ _ h.returnType (by decide),
      callsIn_append_cons _ _ (by decide) (by decide), hcall]

theorem exportParameters (h : m.PlainNames) {v : Variable} (hv : v ∈ m.exportParameters) :
    callsIn v.type = [] ∧ callsIn v.name = [] := by
  rcases List.mem_append.mp hv with hv | hv
  · unfold receiverVariables Declaration.receiverType Declaration.receiver at hv
    rcases List.mem_cons.mp hv with rfl | hv
    · decide
    · rw [List.mem_singleton.mp hv]
      cases m.declaration.isStatic <;> decide
  · unfold handleVariables at hv
    rw [← List.map_uncurry_zip_eq_zipWith] at hv
    obtain ⟨⟨type, name⟩, hpair, rfl⟩ := List.mem_map.mp hv
    obtain ⟨htype, hname⟩ := List.of_mem_zip hpair
    obtain ⟨p, hp, rfl⟩ := List.mem_map.mp hname
    exact ⟨h.parameterType (List.mem_of_mem_drop htype), h.handle hp⟩

theorem pointerVariables (h : m.PlainNames) {v : Variable} (hv : v ∈ m.pointerVariables) :
    callsIn v.type = [] ∧ callsIn v.name = [] := by
  obtain ⟨p, hp, rfl⟩ := List.mem_map.mp hv
  refine ⟨?_, h.pointerName hp⟩
  cases hpointer : p.type.category.pointer? with
  | none => simp [Parameter.pointerVariable, hpointer, callsIn]
  | some pointer =>
    simp [Parameter.pointerVariable, hpointer, Parameter.callsIn_pointer hpointer]

end PlainNames

theorem callsIn_functionHead {front : Text} {parameters : List Variable}
    (hfront : callsIn front = [])
    (h : ∀ v ∈ parameters, callsIn v.type = [] ∧ callsIn v.name = []) :
    callsIn (Variable.functionHead front parameters) = [] := by
  have hlist : callsIn (join ", ".toList (parameters.map Variable.text)) = [] := by
    refine callsIn_join _ fun t ht => ?_
    obtain ⟨v, hv, rfl⟩ := List.mem_map.mp ht
    rw [Variable.text, callsIn_append_cons _ _ (h v hv).1 (by decide), (h v hv).2]
  rw [Variable.functionHead, List.append_assoc, List.cons_append,
    callsIn_append_cons _ _ hfront (by decide)]
  exact (callsIn_append_cons _ " \x7b".toList hlist (by decide)).trans (by decide)

/-- A line calls just what its role says. -/
theorem callsIn_of_spells (m : Linked) (h : m.PlainNames) (handles : List Text)
    (hhandles : m.handleParameters = .ok handles) {r : LineRole} {t : Text}
    (hacquired : ∀ p ∈ r.acquisition?, p ∈ m.declaration.acquired)
    (hreleased : ∀ p ∈ r.release?, p ∈ m.declaration.released)
    (hwrapper : r = .wrapperCall → m.declaration.needsWrapper = true) (hcode : r ≠ .code)
    (hspells : m.Spells r t) : callsIn t = r.function?.toList := by
  cases r with
  | code => exact absurd rfl hcode
  | marker => exact hspells ▸ callsIn_lineMarker _
  | acquisition p =>
    exact (Parameter.acquiredBy_of_acquisition hspells).callsIn_eq
      (h.pointerName (hacquired p rfl))
  | release p =>
    exact (Parameter.releasedBy_of_release hspells).callsIn_eq
      (h.pointerName (m.declaration.mem_acquired_of_mem_released (hreleased p rfl)))
  | exportHead =>
    rw [m.exportHead_eq handles hhandles t hspells]
    exact callsIn_functionHead h.head fun v hv => h.exportParameters hv
  | wrapperHead =>
    rw [m.wrapperHead_eq handles hhandles t hspells]
    refine callsIn_functionHead ?_ fun v hv => ?_
    · have hkind : callsIn ("static inline ".toList ++ m.signature.returnType) = [] :=
        (callsIn_append_cons "static inline".toList _ (by decide) (by decide)).trans h.returnType
      rw [callsIn_append_cons _ _ hkind (by decide)]
      exact (callsIn_append_cons "wrapped".toList _ (by decide) (by decide)).trans h.signatureName
    · rcases List.mem_append.mp hv with hv | hv
      · exact h.exportParameters hv
      · exact h.pointerVariables hv
  | wrapperCall =>
    have hneeds := hwrapper rfl
    exact hspells ▸ h.runBy (m.runBy_callLine hneeds) hneeds
  | returned | closing | gap =>
    obtain rfl := hspells
    decide

end Linked

end NativeGlue
