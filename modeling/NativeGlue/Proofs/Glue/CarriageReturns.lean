import NativeGlue.Proofs.Glue.Discipline
import NativeGlue.Proofs.Glue.Generation
import NativeGlue.Proofs.Header.Prototype
import NativeGlue.Proofs.Source.NativeOutcome
import NativeGlue.Proofs.Source.Slices
import NativeGlue.Proofs.Text.Lines
import NativeGlue.Proofs.Text.Splitting

/-!
Carriage returns in units. Names and types are read from squeezed texts, in which the only blanks
are spaces, so a carriage return comes into a unit only with the code of a method or with the name
of the header.
-/

namespace NativeGlue

open Text

namespace Text

theorem return_notMem_join {separator : Text} {pieces : List Text} (hseparator : '\r' ∉ separator)
    (hpieces : ∀ piece ∈ pieces, '\r' ∉ piece) : '\r' ∉ join separator pieces := by
  have hall : ∀ c ∈ join separator pieces, c ≠ '\r' :=
    forall_mem_join separator pieces (· ≠ '\r') (fun c hc heq => hseparator (heq ▸ hc))
      fun piece hpiece c hc heq => hpieces piece hpiece (heq ▸ hc)
  exact fun h => hall _ h rfl

/-- The only blanks of a squeezed text are spaces. -/
theorem return_notMem_squeeze (t : Text) : '\r' ∉ squeeze t := by
  refine return_notMem_join (by decide) fun word hword hmem => ?_
  have hblank := (forall_mem_words t word hword).2 _ hmem
  cases hblank

theorem mem_of_mem_trim {t : Text} {c : Char} (h : c ∈ trim t) : c ∈ t := by
  unfold trim trimEnd skipBlanks at h
  have hend := List.mem_reverse.mp ((List.dropWhile_sublist _).subset (List.mem_reverse.mp h))
  exact (List.dropWhile_sublist _).subset hend

end Text

namespace Source

theorem mem_of_splitDeclaratorFrom? {before t type name : Text} {pairs : Nat}
    (h : splitDeclaratorFrom? before t = some (type, name, pairs)) : ∀ c ∈ name, c ∈ t := by
  induction t generalizing before with
  | nil => cases h
  | cons d t ih =>
    rw [splitDeclaratorFrom?] at h
    split at h
    · next found pairs' hfound =>
      cases h
      split_ifs at hfound
      unfold declarator? at hfound
      dsimp only at hfound
      split_ifs at hfound
      obtain ⟨n, -, hname⟩ := Option.map_eq_some_iff.mp hfound
      cases hname
      exact fun c hc => List.mem_cons_of_mem d ((List.takeWhile_sublist _).subset hc)
    · exact fun c hc => List.mem_cons_of_mem d (ih h c hc)

theorem return_notMem_of_readParameter {declared : Text} {p : Parameter}
    (h : readParameter declared = .ok p) : '\r' ∉ p.name := by
  unfold readParameter at h
  dsimp only at h
  split_ifs at h
  have hclean := return_notMem_squeeze (eraseFinal (eraseAnnotations declared))
  generalize squeeze (eraseFinal (eraseAnnotations declared)) = t at h hclean
  unfold readDeclarator at h
  split at h
  · next before after hcut =>
    dsimp only at h
    split_ifs at h
    cases h
    rw [eq_append_of_cut? hcut] at hclean
    exact fun hmem => hclean (List.mem_append_right _ (mem_of_mem_trim hmem))
  · split at h
    · next type name pairs hsplit =>
      cases h
      exact fun hmem => hclean (mem_of_splitDeclaratorFrom? hsplit _ hmem)
    · cases h

theorem return_notMem_of_readNativeMethod {owner : Option Text} {line : Int} {statement : Text}
    {m : NativeMethod} (h : readNativeMethod owner line statement = .ok m) :
    ∀ p ∈ m.parameters, '\r' ∉ p.name := by
  obtain ⟨-, -, head, modifiers, -, hparameters⟩ := Scan.readNativeMethod_cases h
  intro p hp
  obtain ⟨declared, -, hread⟩ := exists_of_mem_mapM _ _ _ hparameters p hp
  exact return_notMem_of_readParameter hread

end Source

/-- Neither the names nor the code of a method hold a carriage return. -/
structure Declaration.IsReturnFree (d : Declaration) : Prop where
  names : ∀ p ∈ d.parameters, '\r' ∉ p.name
  code : '\r' ∉ d.code

namespace Source

/-- The methods of a scan are without carriage returns. -/
structure Scan.IsReturnFree (s : Scan) : Prop where
  pending : ∀ m, s.pending = some m → ∀ p ∈ m.parameters, '\r' ∉ p.name
  segments : ∀ d, .declared d ∈ s.segments → d.IsReturnFree

namespace Scan.IsReturnFree

variable {s next : Scan}

theorem start : Scan.start.IsReturnFree where
  pending m hm := by
    cases hm
  segments d hd := by
    cases hd

theorem dropPending (h : s.IsReturnFree) : s.dropPending.IsReturnFree where
  pending m hm := by
    rw [s.dropPending_pending] at hm
    cases hm
  segments := by
    rw [s.dropPending_fields.2.2.2]
    exact h.segments

theorem mark {c : Char} (h : s.IsReturnFree) (hread : s.mark c = .ok next) :
    next.IsReturnFree := by
  rcases mark_cases hread with ⟨-, hend⟩ | ⟨-, rfl⟩ | ⟨-, hclose⟩ | ⟨-, -, -, rfl⟩
  · rcases endStatement_cases hend with ⟨-, rfl⟩ | ⟨-, m, hm, rfl⟩
    · exact ⟨h.pending, h.segments⟩
    · refine ⟨fun n hn => ?_, h.segments⟩
      cases hn
      exact return_notMem_of_readNativeMethod hm
  · exact ⟨h.pending, h.segments⟩
  · obtain ⟨scope, scopes, -, rfl⟩ := closeScope_cases hclose
    exact ⟨h.pending, h.segments⟩
  · exact ⟨h.pending, h.segments⟩

theorem comment {body : Text} (h : s.IsReturnFree) (hbody : '\r' ∉ body) :
    (s.comment body).IsReturnFree where
  pending m hm := by
    rw [s.comment_pending] at hm
    cases hm
  segments d hd := by
    rw [comment_segments, List.mem_append] at hd
    rcases hd with hd | hd
    · exact h.segments d hd
    · rcases mem_segment?_cases (Option.mem_toList.mp hd) with ⟨block, hraw⟩ | ⟨m, hm, hdeclared⟩
      · cases hraw
      · cases hdeclared
        exact ⟨h.pending m hm, hbody⟩

theorem read {l : Lexeme} (h : s.IsReturnFree) (hl : '\r' ∉ l.spelling)
    (hread : s.read l = .ok next) : next.IsReturnFree := by
  cases l with
  | comment body =>
    cases hread
    exact h.comment fun hbody => hl (by simp [Lexeme.spelling, hbody])
  | mark c => exact h.dropPending.mark hread
  | blank c =>
    cases hread
    exact ⟨h.pending, h.segments⟩
  | lineComment body | literal quote body | textBlock body =>
    cases hread
    exact ⟨h.dropPending.pending, h.dropPending.segments⟩

end Scan.IsReturnFree

theorem isReturnFree_of_read {t : Text} {contents : Contents} (ht : '\r' ∉ t)
    (h : Source.read t = .ok contents) :
    ∀ d, .declared d ∈ contents.segments → d.IsReturnFree := by
  obtain ⟨ls, last, hls, hrun, rfl⟩ := (read_eq_ok_iff t contents).mp h
  have hspelling : ∀ l ∈ ls, '\r' ∉ l.spelling := by
    intro l hl hmem
    rw [← hls.spelled_eq] at ht
    exact ht (List.mem_flatMap.mpr ⟨l, hl, hmem⟩)
  have hlast : last.IsReturnFree :=
    Scan.run_induction (fun l hl _ _ hread h => h.read (hspelling l hl) hread) hrun
      Scan.IsReturnFree.start
  rw [Scan.finish_segments]
  exact hlast.segments

end Source

namespace Header

theorem return_notMem_normalizeType (t : Text) : '\r' ∉ normalizeType t := by
  have htight (afterStar : Bool) (u : Text) (hu : '\r' ∉ u) : '\r' ∉ tightenFrom afterStar u := by
    fun_induction tightenFrom afterStar u <;> simp_all
  have hspace (u : Text) (hu : '\r' ∉ u) : '\r' ∉ spaceAfterStars u := by
    fun_induction spaceAfterStars u <;> simp_all
  exact hspace _ (htight false _ (return_notMem_squeeze t))

theorem return_notMem_parameterType (declared : Text) : '\r' ∉ parameterType declared := by
  unfold parameterType
  dsimp only
  split
  · next type name hwords =>
    split_ifs
    · intro hmem
      have hblank := (forall_mem_words _ type (by rw [hwords]; exact List.mem_cons_self)).2 _ hmem
      cases hblank
    · exact return_notMem_normalizeType declared
  · exact return_notMem_normalizeType declared

theorem return_notMem_of_afterCall? {type t : Text} {p : Prototype}
    (h : afterCall? type t = some p) : '\r' ∉ p.name := by
  unfold afterCall? at h
  dsimp only at h
  split at h
  · obtain ⟨found, -, h⟩ := Option.bind_eq_some_iff.mp h
    obtain ⟨parameters, -, rfl⟩ := Option.map_eq_some_iff.mp h
    intro hmem
    have hword : isAsciiWord '\r' = true := List.all_eq_true.mp List.all_takeWhile _ hmem
    cases hword
  · cases h

theorem return_notMem_of_prototype? {t : Text} {p : Prototype} (h : prototype? t = some p) :
    '\r' ∉ p.name := by
  obtain ⟨front, after, result, -, hcall⟩ := exists_afterCall?_of_prototype? h
  exact return_notMem_of_afterCall? hcall

end Header

/-- Neither the head nor the types of a signature hold a carriage return. -/
structure Signature.IsReturnFree (s : Signature) : Prop where
  head : '\r' ∉ s.head
  name : '\r' ∉ s.name
  parameterTypes : ∀ t ∈ s.parameterTypes, '\r' ∉ t
  returnType : '\r' ∉ s.returnType

namespace Header

theorem isReturnFree_of_prototype {p : Prototype} (h : '\r' ∉ p.name) (line : Int) :
    (p.signature line).IsReturnFree where
  head := by
    have hmacro : '\r' ∉ exportMacro := by decide
    have hcall : '\r' ∉ callMacro := by decide
    simp [Prototype.signature, hmacro, hcall, h, return_notMem_normalizeType]
  name := h
  parameterTypes t ht := by
    obtain ⟨declared, -, rfl⟩ := List.mem_map.mp ht
    exact return_notMem_parameterType declared
  returnType := return_notMem_normalizeType _

theorem isReturnFree_of_mem_signatures {header : Text} {s : Signature}
    (h : s ∈ signatures header) : s.IsReturnFree := by
  have hfrom (skip : Nat) (line : Int) (t : Text) (hs : s ∈ signaturesFrom skip line t) :
      s.IsReturnFree := by
    fun_induction signaturesFrom skip line t with
    | case1 => cases hs
    | case2 skip line c rest ih => exact ih hs
    | case3 line c rest p hp ih =>
      rcases List.mem_cons.mp hs with rfl | hs
      · exact isReturnFree_of_prototype (return_notMem_of_prototype? hp) line
      · exact ih hs
    | case4 line c rest hp ih => exact ih hs
  exact hfrom 0 1 _ h

end Header

theorem return_notMem_lineMarker (line : Int) : '\r' ∉ lineMarker line :=
  notMem_lineMarker line (by decide) (by decide)

theorem Category.return_notMem_pointer? (c : Category) : ∀ t ∈ c.pointer?, '\r' ∉ t := by
  intro t ht
  cases c with
  | plain kind | object => cases ht
  | string =>
    cases ht
    decide
  | array element => cases element <;> cases ht <;> decide
  | buffer kind => cases kind <;> cases ht <;> decide

namespace Parameter

variable {p : Parameter} {t : Text}

theorem return_notMem_handle (h : '\r' ∉ p.name) : '\r' ∉ p.handle := by
  unfold handle
  split_ifs
  · simpa using h
  · exact h

theorem return_notMem_of_acquisition (h : '\r' ∉ p.name) (ht : p.acquisition = .ok t) :
    '\r' ∉ t := by
  have hpointer := p.type.category.return_notMem_pointer?
  have hhandle := return_notMem_handle h
  unfold acquisition at ht
  split at ht
  · next pointer kind hp hcategory =>
    cases ht
    simp [setupLine, hpointer pointer hp, h, hhandle]
  · next pointer hp hcategory =>
    cases ht
    simp [setupLine, hpointer pointer hp, h, hhandle]
  · next pointer element hp hcategory =>
    cases ht
    simp [setupLine, hpointer pointer hp, h, hhandle]
  · cases ht

theorem return_notMem_of_release (h : '\r' ∉ p.name) (ht : p.release = .ok t) : '\r' ∉ t := by
  have hhandle := return_notMem_handle h
  unfold release at ht
  split at ht
  · cases ht
    simp [h, hhandle]
  · cases ht
    simp [h, hhandle]
  · cases ht

end Parameter

namespace Linked

/-- Neither the declaration nor the signature holds a carriage return. -/
structure IsReturnFree (m : Linked) : Prop where
  declaration : m.declaration.IsReturnFree
  signature : m.signature.IsReturnFree

namespace IsReturnFree

variable {m : Linked}

theorem handles (h : m.IsReturnFree) {texts : List Text} (htexts : m.handleParameters = .ok texts) :
    ∀ t ∈ texts, '\r' ∉ t := by
  intro t ht
  obtain ⟨⟨p, index⟩, hp, hhandle⟩ := exists_of_mem_mapM _ _ _ htexts t ht
  have hname := h.declaration.names p (List.fst_mem_of_mem_zipIdx hp)
  dsimp only [handleParameter] at hhandle
  split at hhandle
  · next type htype =>
    cases hhandle
    have hclean := h.signature.parameterTypes type (List.mem_of_getElem? htype)
    simp [hclean, Parameter.return_notMem_handle hname]
  · cases hhandle

theorem receiverParameters : ∀ t ∈ m.receiverParameters, '\r' ∉ t := by
  unfold Linked.receiverParameters Declaration.receiverType Declaration.receiver
  cases m.declaration.isStatic <;> decide

theorem acquired_names (h : m.IsReturnFree) : ∀ p ∈ m.declaration.acquired, '\r' ∉ p.name :=
  fun p hp => h.declaration.names p
    (List.mem_filter.mp (m.declaration.acquired_perm.mem_iff.mp hp)).1

theorem released_names (h : m.IsReturnFree) : ∀ p ∈ m.declaration.released, '\r' ∉ p.name :=
  fun p hp => h.acquired_names p
    (List.mem_filter.mp (m.declaration.released_perm.mem_iff.mp hp)).1

theorem parameterList (h : m.IsReturnFree) {t : Text} (ht : m.parameterList = .ok t) :
    '\r' ∉ t := by
  obtain ⟨texts, htexts⟩ := m.exists_handleParameters_of_parameterList t ht
  simp only [Linked.parameterList, htexts, bind, Except.bind, pure, Except.pure,
    Except.ok.injEq] at ht
  subst ht
  refine return_notMem_join (by decide) fun piece hpiece => ?_
  rcases List.mem_append.mp hpiece with hpiece | hpiece
  · exact receiverParameters piece hpiece
  · exact h.handles htexts piece hpiece

theorem pointerParameters (h : m.IsReturnFree) :
    ∀ t ∈ m.declaration.acquired.map pointerParameter, '\r' ∉ t := by
  intro t ht
  obtain ⟨p, hp, rfl⟩ := List.mem_map.mp ht
  have hname := h.acquired_names p hp
  unfold pointerParameter
  cases hpointer : p.type.category.pointer? with
  | none => simp [hname]
  | some pointer => simp [hname, p.type.category.return_notMem_pointer? pointer hpointer]

theorem callLine (h : m.IsReturnFree) : '\r' ∉ m.callLine := by
  have harguments : '\r' ∉ m.declaration.callArguments := by
    refine return_notMem_join (by decide) fun piece hpiece => ?_
    simp only [List.mem_append, List.mem_cons, List.mem_map] at hpiece
    rcases hpiece with (rfl | rfl | ⟨p, hp, rfl⟩) | ⟨p, hp, rfl⟩
    · decide
    · unfold Declaration.receiver
      split <;> decide
    · exact Parameter.return_notMem_handle (h.declaration.names p hp)
    · exact h.acquired_names p hp
  have hcall : '\r' ∉ m.wrapperCall := by
    unfold wrapperCall wrapperName
    simp only [List.mem_append, List.mem_cons, not_or]
    exact ⟨⟨⟨by decide, h.signature.name⟩, by decide, harguments⟩, by decide⟩
  unfold Linked.callLine returnVariable
  split
  · simp [h.signature.returnType, hcall]
  · simp [hcall]

theorem wrapperParameterList (h : m.IsReturnFree) {t : Text}
    (ht : m.wrapperParameterList = .ok t) : '\r' ∉ t := by
  unfold Linked.wrapperParameterList at ht
  cases htexts : m.handleParameters with
  | error fault => simp [htexts, bind, Except.bind] at ht
  | ok texts =>
    simp only [htexts, bind, Except.bind, pure, Except.pure, Except.ok.injEq] at ht
    subst ht
    refine return_notMem_join (by decide) fun piece hpiece => ?_
    rcases List.mem_append.mp hpiece with hpiece | hpiece
    · rcases List.mem_append.mp hpiece with hpiece | hpiece
      · exact receiverParameters piece hpiece
      · exact h.handles htexts piece hpiece
    · exact h.pointerParameters piece hpiece

/-- No line of the method holds a carriage return, whatever it is there for. -/
theorem of_spells (h : m.IsReturnFree) {r : LineRole} {t : Text}
    (hacquired : ∀ p ∈ r.acquisition?, p ∈ m.declaration.acquired)
    (hreleased : ∀ p ∈ r.release?, p ∈ m.declaration.released) (ht : m.Spells r t) :
    '\r' ∉ t := by
  cases r with
  | marker => exact ht ▸ return_notMem_lineMarker _
  | wrapperHead =>
    obtain ⟨parameters, hparameters, rfl⟩ := ht
    have hlist : '\r' ∉ parameters := h.wrapperParameterList hparameters
    unfold wrapperName
    simp only [List.mem_append, List.mem_cons, not_or]
    exact ⟨⟨⟨⟨by decide, h.signature.returnType⟩, by decide, by decide, h.signature.name⟩,
      by decide, hlist⟩, by decide⟩
  | exportHead =>
    obtain ⟨parameters, hparameters, rfl⟩ := ht
    unfold exportHead
    simp only [List.mem_append, List.mem_cons, not_or]
    exact ⟨⟨h.signature.head, by decide, h.parameterList hparameters⟩, by decide⟩
  | acquisition p =>
    exact Parameter.return_notMem_of_acquisition (h.acquired_names p (hacquired p rfl)) ht
  | release p =>
    exact Parameter.return_notMem_of_release (h.released_names p (hreleased p rfl)) ht
  | code => exact ht ▸ h.declaration.code
  | wrapperCall => exact ht ▸ h.callLine
  | returned =>
    obtain rfl := ht
    decide
  | closing =>
    obtain rfl := ht
    decide
  | gap =>
    obtain rfl := ht
    decide

theorem text (h : m.IsReturnFree) (hbalanced : m.Balanced) {t : Text} (ht : m.text = .ok t) :
    '\r' ∉ t := by
  obtain ⟨inner, outer, hlines, hinner, houter⟩ := m.exists_lines hbalanced
  simp only [Linked.text, hlines, bind, Except.bind, pure, Except.pure, Except.ok.injEq] at ht
  subst ht
  have hall : ∀ line ∈ lineMarker m.declaration.startLine :: inner ++ outer, '\r' ∉ line := by
    intro line hline
    simp only [List.cons_append, List.mem_cons, List.mem_append] at hline
    rcases hline with rfl | hline | hline
    · exact return_notMem_lineMarker _
    · obtain ⟨r, hr, hspells⟩ := exists_of_forall₂ hinner hline
      obtain ⟨hacquisition, hrelease⟩ := m.not_pointer_of_mem_wrapperRoles r hr
      exact h.of_spells (by simp [hacquisition]) (by simp [hrelease]) hspells
    · obtain ⟨r, hr, hspells⟩ := exists_of_forall₂ houter hline
      refine h.of_spells (fun p hp => ?_) (fun p hp => ?_) hspells
      · rw [← m.acquisitions_exportRoles]
        exact List.mem_filterMap.mpr ⟨r, hr, hp⟩
      · rw [← m.releases_exportRoles]
        exact List.mem_filterMap.mpr ⟨r, hr, hp⟩
  have hunlines : '\r' ∉ unlines (lineMarker m.declaration.startLine :: inner ++ outer) :=
    return_notMem_join (by decide) hall
  simpa using hunlines

end IsReturnFree

end Linked

theorem RawBlock.return_notMem_text (b : RawBlock) : '\r' ∉ b.text := by
  simp [RawBlock.text, return_notMem_lineMarker]

namespace GlueUnit

variable {source header headerName : Text} {u : GlueUnit}

theorem content_eq (h : generate source header headerName = .ok u) :
    ∃ contents texts, Source.read source = .ok contents ∧
      link contents.segments (Header.signatures header) = .ok u.segments ∧
      u.segments.mapM Segment.text = .ok texts ∧
      u.content = includeLine headerName ++ texts.flatMap ('\n' :: ·) := by
  unfold generate at h
  cases hread : Source.read source with
  | error problem => simp [hread, liftFault, Except.mapError, bind, Except.bind] at h
  | ok contents =>
    cases hlink : link contents.segments (Header.signatures header) with
    | error fault => simp [hread, hlink, liftFault, Except.mapError, bind, Except.bind] at h
    | ok segments =>
      cases htexts : segments.mapM Segment.text with
      | error fault =>
        simp [hread, hlink, unitText, htexts, liftFault, Except.mapError, bind, Except.bind] at h
      | ok texts =>
        simp only [hread, hlink, unitText, htexts, liftFault, Except.mapError, bind, Except.bind,
          pure, Except.pure, Except.ok.injEq] at h
        subst h
        exact ⟨contents, texts, rfl, hlink, htexts, rfl⟩

/-- A unit starts with the line that includes its header. -/
theorem content_ne_nil (h : generate source header headerName = .ok u) : u.content ≠ [] := by
  obtain ⟨contents, texts, -, -, -, hcontent⟩ := content_eq h
  rw [hcontent]
  exact fun hnil => nomatch hnil

/-- A source file without carriage returns gives a unit without them, unless the name of the header
holds one. -/
theorem return_notMem_content (hsource : '\r' ∉ source) (hname : '\r' ∉ headerName)
    (h : generate source header headerName = .ok u) : '\r' ∉ u.content := by
  obtain ⟨contents, texts, hread, hlink, htexts, hcontent⟩ := content_eq h
  have hall : ∀ t ∈ texts, '\r' ∉ t := by
    intro t ht
    obtain ⟨s, hs, htext⟩ := exists_of_mem_mapM _ _ _ htexts t ht
    cases s with
    | raw block =>
      cases htext
      exact block.return_notMem_text
    | declared d => cases htext
    | linked m =>
      obtain ⟨hdeclared, hsignature, -⟩ := exists_of_mem_link _ _ _ hlink m hs
      have hfree : m.IsReturnFree :=
        ⟨Source.isReturnFree_of_read hsource hread _ hdeclared,
          Header.isReturnFree_of_mem_signatures hsignature⟩
      exact hfree.text (Linked.balanced_of_mem_link _ _ _ hlink m hs) htext
  rw [hcontent]
  have hinclude : '\r' ∉ includeLine headerName := by
    unfold includeLine
    simp only [List.mem_append, not_or]
    exact ⟨⟨by decide, hname⟩, by decide⟩
  simp only [List.mem_append, List.mem_flatMap, List.mem_cons, not_or, not_exists, not_and]
  exact ⟨hinclude, fun t ht => ⟨by decide, hall t ht⟩⟩

end GlueUnit

end NativeGlue
