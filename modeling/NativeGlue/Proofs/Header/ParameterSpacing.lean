import NativeGlue.Proofs.Header.TypeSpacing
import NativeGlue.Proofs.Source.ParameterList

/-!
The spacing of parameter lists. A list may be respaced as a type may, and on both sides of a comma
that parts two parameters. Brackets and commas stay where they are, so the parameters do, and each
keeps its normal spelling. A prototype respaced in this way has the signature that it had.
-/

namespace NativeGlue

open Text
open Outline (Blanks)
open Relation (EqvGen)

namespace Text

/-- What was read of an element stands at its front. -/
theorem exists_piecesFrom_piece (b : Brackets) (depth : Nat) (t : Text) :
    ∃ first later, ∀ piece, piecesFrom b depth piece t = (piece ++ first) :: later := by
  induction t generalizing depth with
  | nil => exact ⟨[], [], fun piece => by rw [piecesFrom, List.append_nil]⟩
  | cons c t ih =>
    by_cases hparts : (decide (c = ',') && decide (depth = 0)) = true
    · refine ⟨[], piecesFrom b 0 [] t, fun piece => ?_⟩
      rw [piecesFrom, if_pos hparts, List.append_nil]
    · obtain ⟨first, later, hrest⟩ := ih (b.depthAfter depth c)
      refine ⟨c :: first, later, fun piece => ?_⟩
      rw [piecesFrom, if_neg hparts, hrest, List.append_assoc, List.singleton_append]

/-- The elements that end in the front of a list do not depend on what follows. -/
theorem exists_piecesFrom_front (b : Brackets) (depth : Nat) (piece front : Text) :
    ∃ done depth' piece', ∀ rest,
      piecesFrom b depth piece (front ++ rest) = done ++ piecesFrom b depth' piece' rest := by
  induction front generalizing depth piece with
  | nil => exact ⟨[], depth, piece, fun _ => rfl⟩
  | cons c front ih =>
    by_cases hparts : (decide (c = ',') && decide (depth = 0)) = true
    · obtain ⟨done, depth', piece', hrest⟩ := ih 0 []
      refine ⟨piece :: done, depth', piece', fun rest => ?_⟩
      rw [List.cons_append, piecesFrom, if_pos hparts, hrest, List.cons_append]
    · obtain ⟨done, depth', piece', hrest⟩ := ih (b.depthAfter depth c) (piece ++ [c])
      refine ⟨done, depth', piece', fun rest => ?_⟩
      rw [List.cons_append, piecesFrom, if_neg hparts, hrest]

/-- What holds neither commas nor brackets belongs to one element. -/
theorem exists_piecesFrom_around (b : Brackets) (front rest : Text) :
    ∃ done before after later, ∀ middle : Text,
      (∀ c ∈ middle, c ≠ ',' ∧ b.opens c = false ∧ b.closes c = false) →
      piecesFrom b 0 [] (front ++ (middle ++ rest)) =
        done ++ (before ++ (middle ++ after)) :: later := by
  obtain ⟨done, depth, before, hfront⟩ := exists_piecesFrom_front b 0 [] front
  obtain ⟨after, later, hrest⟩ := exists_piecesFrom_piece b depth rest
  refine ⟨done, before, after, later, fun middle hmiddle => ?_⟩
  rw [hfront, piecesFrom_append b depth before middle rest hmiddle, hrest, List.append_assoc]

theorem foldl_depthAfter_outside (b : Brackets) (depth : Nat) (t : Text)
    (ht : ∀ c ∈ t, b.opens c = false ∧ b.closes c = false) :
    t.foldl b.depthAfter depth = depth := by
  induction t with
  | nil => rfl
  | cons c t ih =>
    obtain ⟨hopen, hclose⟩ := ht c List.mem_cons_self
    have hdepth : b.depthAfter depth c = depth := by simp [Brackets.depthAfter, hopen, hclose]
    rw [List.foldl_cons, hdepth, ih fun d hd => ht d (List.mem_cons_of_mem c hd)]

end Text

namespace Header

/-- One change of the spacing of a parameter list. A comma parts two parameters where the brackets
before it are closed. -/
inductive RespacesList : Text → Text → Prop
  | type {t u : Text} (h : Respaces t u) : RespacesList t u
  | comma {front : Text} (hfront : front.foldl parameterBrackets.depthAfter 0 = 0)
    (before after : Blanks) (rest : Text) :
    RespacesList (front ++ ',' :: rest) (front ++ before.text ++ ',' :: (after.text ++ rest))

/-- Parameter lists that differ in their spacing only. -/
def SameList : Text → Text → Prop := EqvGen RespacesList

theorem SameList.refl (list : Text) : SameList list list := EqvGen.refl list

theorem SameList.of_type {t u : Text} (h : SameType t u) : SameList t u :=
  EqvGen.mono (fun _ _ hstep => .type hstep) t u h

section Void

theorem trim_ne_void {t : Text} {c : Char} (hmem : c ∈ t) (hc : isBlank c = false)
    (hvoid : c ∉ "void".toList) : trim t ≠ "void".toList := by
  intro h
  exact hvoid (h ▸ (mem_trim_iff t hc).mpr hmem)

theorem trim_eq_void_congr {t u : Text} (h : words t = words u) :
    trim t = "void".toList ↔ trim u = "void".toList := by
  have hword : ∀ c ∈ "void".toList, isBlank c = false := isBlank_of_all rfl
  rw [trim_eq_word_iff t _ (by decide) hword, trim_eq_word_iff u _ (by decide) hword, h]

/-- No list loses or gains parameters because it says `void`. -/
theorem RespacesList.trim_eq_void_iff {t u : Text} (h : RespacesList t u) :
    trim t = "void".toList ↔ trim u = "void".toList := by
  have hother {c : Char} (hc : isBlank c = false) (hvoid : c ∉ "void".toList) (ht : c ∈ t)
      (hu : c ∈ u) : trim t = "void".toList ↔ trim u = "void".toList :=
    iff_of_false (trim_ne_void ht hc hvoid) (trim_ne_void hu hc hvoid)
  cases h with
  | type h =>
    cases h with
    | inside front h rest =>
      cases h with
      | beforeStar gap => exact hother (c := '*') rfl (by decide) (by simp) (by simp)
      | afterStar gap => exact hother (c := '*') rfl (by decide) (by simp) (by simp)
      | gap gap other =>
        apply trim_eq_void_congr
        rw [words_gap front gap.text rest gap.nonempty gap.blank,
          words_gap front other.text rest other.nonempty other.blank]
    | ends before after t =>
      apply trim_eq_void_congr
      rw [words_blanks_append before.text _ before.blank, words_append_blanks t _ after.blank]
  | comma hfront before after rest =>
    exact hother (c := ',') rfl (by decide) (by simp) (by simp)

end Void

section Pieces

theorem parameterBrackets_separates {c : Char} (hc : isBlank c = true ∨ c = '*') :
    c ≠ ',' ∧ parameterBrackets.opens c = false ∧ parameterBrackets.closes c = false := by
  refine (HeaderOutline.separates_eq_false c ?_).1
  rcases hc with hblank | rfl
  · exact HeaderOutline.isTypePart_of_isBlank hblank
  · rfl

/-- The elements of a list in their normal spelling. -/
def normalPieces (t : Text) : List Text :=
  (piecesFrom parameterBrackets 0 [] t).map normalizeType

theorem Exchange.forall_mem {old new : Text} (h : Exchange old new) :
    (∀ c ∈ old, isBlank c = true ∨ c = '*') ∧ ∀ c ∈ new, isBlank c = true ∨ c = '*' := by
  cases h with
  | beforeStar gap =>
    exact ⟨List.forall_mem_singleton.mpr (.inr rfl), List.forall_mem_append.mpr
      ⟨fun c hc => .inl (gap.blank c hc), List.forall_mem_singleton.mpr (.inr rfl)⟩⟩
  | afterStar gap =>
    exact ⟨List.forall_mem_singleton.mpr (.inr rfl), List.forall_mem_cons.mpr
      ⟨.inr rfl, fun c hc => .inl (gap.blank c hc)⟩⟩
  | gap gap other => exact ⟨fun c hc => .inl (gap.blank c hc), fun c hc => .inl (other.blank c hc)⟩

theorem normalPieces_exchange {old new : Text} (h : Exchange old new) (front rest : Text) :
    normalPieces (front ++ (old ++ rest)) = normalPieces (front ++ (new ++ rest)) := by
  obtain ⟨done, before, after, later, hpieces⟩ :=
    exists_piecesFrom_around parameterBrackets front rest
  have hmiddle := (sameType_exchange h before after).normalizeType_eq
  rw [normalPieces, normalPieces,
    hpieces old fun c hc => parameterBrackets_separates (h.forall_mem.1 c hc),
    hpieces new fun c hc => parameterBrackets_separates (h.forall_mem.2 c hc), List.map_append,
    List.map_append, List.map_cons, List.map_cons, hmiddle]

theorem normalPieces_append_blanks (t : Text) (gap : Blanks) :
    normalPieces (t ++ gap.text) = normalPieces t := by
  have hnormal : normalizeType ∘ squeeze = normalizeType := funext normalizeType_squeeze
  have hsqueeze := map_squeeze_piecesFrom_append parameterBrackets 0 [] t gap.text
    (fun c hc => parameterBrackets_separates (.inl hc)) gap.blank
  rw [normalPieces, normalPieces, ← hnormal, ← List.map_map, hsqueeze, List.map_map]

theorem normalPieces_blanks_append (gap : Blanks) (t : Text) :
    normalPieces (gap.text ++ t) = normalPieces t := by
  obtain ⟨first, later, hpieces⟩ := exists_piecesFrom_piece parameterBrackets 0 t
  have hgap : normalizeType (gap.text ++ first) = normalizeType first := by
    rw [normalizeType_eq, tight_blanks_append gap.text first gap.blank, normalizeType_eq]
  rw [normalPieces, normalPieces, piecesFrom_append parameterBrackets 0 [] gap.text t
    fun c hc => parameterBrackets_separates (.inl (gap.blank c hc)), hpieces, hpieces,
    List.map_cons, List.map_cons, List.nil_append, List.nil_append, hgap]

theorem normalPieces_comma {front : Text}
    (hfront : front.foldl parameterBrackets.depthAfter 0 = 0) (rest : Text) :
    normalPieces (front ++ ',' :: rest) = normalPieces front ++ normalPieces rest := by
  rw [normalPieces, piecesFrom_append_comma parameterBrackets rfl 0 [] front rest hfront,
    List.map_append]
  rfl

theorem RespacesList.normalPieces_eq {t u : Text} (h : RespacesList t u) :
    normalPieces t = normalPieces u := by
  cases h with
  | type h =>
    cases h with
    | inside front h rest => exact normalPieces_exchange h front rest
    | ends before after t => rw [normalPieces_blanks_append, normalPieces_append_blanks]
  | @comma front hfront before after rest =>
    have hbefore : (front ++ before.text).foldl parameterBrackets.depthAfter 0 = 0 := by
      rw [List.foldl_append, hfront]
      exact foldl_depthAfter_outside parameterBrackets 0 before.text fun c hc =>
        (parameterBrackets_separates (.inl (before.blank c hc))).2
    rw [normalPieces_comma hfront, normalPieces_comma hbefore, normalPieces_append_blanks,
      normalPieces_blanks_append]

end Pieces

section Types

/-- A type is empty where it has no words. -/
theorem normalizeType_eq_nil_iff (t : Text) : normalizeType t = [] ↔ words t = [] := by
  rw [← List.head?_eq_none_iff, normalizeType_eq, head?_spaceAfterStars, List.head?_eq_none_iff]
  cases hwords : words t with
  | nil => simp [tight, hwords]
  | cons word later =>
    have hne : word ≠ [] := (forall_mem_words t word (hwords ▸ List.mem_cons_self)).1
    have htight : tight t = attach word (later.foldr attach []) := by
      rw [tight, hwords, List.foldr_cons]
    refine iff_of_false (fun hnil => hne ?_) (List.cons_ne_nil _ _)
    rw [← List.head?_eq_none_iff, ← head?_attach word _ hne, ← htight, hnil, List.head?_nil]

theorem isEmpty_squeeze (t : Text) : (squeeze t).isEmpty = (normalizeType t).isEmpty := by
  rw [Bool.eq_iff_iff, List.isEmpty_iff, List.isEmpty_iff, normalizeType_eq_nil_iff, squeeze,
    join_eq_nil_iff fun w hw => (forall_mem_words t w hw).1]

theorem parameterType_normalizeType (t : Text) :
    parameterType (normalizeType t) = parameterType t := by
  unfold parameterType
  rw [normalizeType_normalizeType]

/-- The types of a parameter list are read off the normal spelling of its elements. -/
theorem parameterTypes_eq (list : Text) :
    (splitParameters list).map parameterType =
      if trim list = "void".toList then []
      else ((normalPieces list).filter (!·.isEmpty)).map parameterType := by
  have hread (ps : List Text) : ((ps.map squeeze).filter (!·.isEmpty)).map parameterType =
      ((ps.map normalizeType).filter (!·.isEmpty)).map parameterType := by
    simp only [List.filter_map, List.map_map, Function.comp_def, isEmpty_squeeze,
      parameterType_squeeze, parameterType_normalizeType]
  have htrim : normalPieces list = normalPieces (trim list) := by
    obtain ⟨before, after, hlist, hbefore, hafter⟩ := exists_eq_append_trim list
    have hends := RespacesList.type (.ends ⟨before, hbefore⟩ ⟨after, hafter⟩ (trim list))
    have hsame := hends.normalPieces_eq
    rw [← hlist] at hsame
    exact hsame.symm
  unfold splitParameters
  by_cases hvoid : trim list = "void".toList
  · rw [if_pos hvoid, if_pos (beq_iff_eq.mpr hvoid)]
    rfl
  · rw [if_neg hvoid, if_neg fun h => hvoid (beq_iff_eq.mp h), hread, htrim, normalPieces, pieces]
    by_cases hnone : trim list = []
    · rw [hnone]
      rfl
    · rw [if_neg (by simpa using hnone)]

theorem SameList.parameterTypes_eq {t u : Text} (h : SameList t u) :
    (splitParameters t).map parameterType = (splitParameters u).map parameterType := by
  apply eq_of_eqvGen (fun list => (splitParameters list).map parameterType) ?_ h
  intro t u hstep
  simp only [Header.parameterTypes_eq, hstep.trim_eq_void_iff, hstep.normalPieces_eq]

/-- Prototypes whose types differ in their spacing only have the same signature. -/
theorem Prototype.signature_congr {p q : Prototype} (hname : p.name = q.name)
    (hresult : SameType p.returnType q.returnType) (hlist : SameList p.parameters q.parameters)
    (line : Int) : p.signature line = q.signature line := by
  simp only [Prototype.signature, hname, hresult.normalizeType_eq, hlist.parameterTypes_eq]

end Types

end Header

end NativeGlue
