import Mathlib.Data.List.Forall2
import NativeGlue.Proofs.Source.Annotation
import NativeGlue.Proofs.Traversal

/-!
Parameter lists up to their blanks. A comma behind closed brackets parts the list, and then each
parameter is read on its own. Blanks in front of a parameter are not seen, and other blanks only
up to their number, so a method keeps its parameters when each of them is respaced by itself. The
same holds for the words in front of the list.
-/

namespace NativeGlue

open Text

namespace Text

/-- A comma parts a list where the brackets before it are closed. -/
theorem piecesFrom_append_comma (b : Brackets) (hcomma : b.opens ',' = false) (depth : Nat)
    (piece t rest : Text) (ht : t.foldl b.depthAfter depth = 0) :
    piecesFrom b depth piece (t ++ ',' :: rest) =
      piecesFrom b depth piece t ++ piecesFrom b 0 [] rest := by
  induction t generalizing depth piece with
  | nil =>
    obtain rfl : depth = 0 := ht
    rw [List.nil_append, piecesFrom.eq_def b 0 piece (',' :: rest)]
    exact if_pos (by simp)
  | cons c t ih =>
    rw [List.foldl_cons] at ht
    rw [List.cons_append, piecesFrom, piecesFrom]
    split
    · next hparts =>
      obtain ⟨rfl, rfl⟩ : c = ',' ∧ depth = 0 := by simpa using hparts
      have hlevel : b.depthAfter 0 ',' = 0 := by simp [Brackets.depthAfter, hcomma]
      rw [hlevel] at ht
      rw [ih 0 [] ht, List.cons_append]
    · exact ih _ _ ht

theorem foldl_depthAfter_collapse (b : Brackets)
    (hb : ∀ c, isBlank c = true → b.opens c = false ∧ b.closes c = false) (depth : Nat) (t : Text) :
    (collapse t).foldl b.depthAfter depth = t.foldl b.depthAfter depth := by
  have hblank (c : Char) (hc : isBlank c = true) (depth : Nat) : b.depthAfter depth c = depth := by
    obtain ⟨hopens, hcloses⟩ := hb c hc
    simp [Brackets.depthAfter, hopens, hcloses]
  induction t using collapse_induction generalizing depth with
  | nil => rfl
  | char c t hc ih => rw [collapse_char c t hc, List.foldl_cons, List.foldl_cons, ih]
  | gap c t hc ht ih =>
    rw [collapse_gap c t hc ht, List.foldl_cons, List.foldl_cons, hblank ' ' rfl, hblank c hc, ih]
  | more c d t hc hd ih =>
    rw [collapse_more c d t hc hd, ih, List.foldl_cons, List.foldl_cons, List.foldl_cons,
      hblank c hc]

end Text

namespace Source

theorem readParameter_cons_blank (c : Char) (t : Text) (hc : isBlank c = true) :
    readParameter (c :: t) = readParameter t := by
  have hsqueeze : squeeze (eraseFinal (eraseAnnotations (c :: t))) =
      squeeze (eraseFinal (eraseAnnotations t)) := by
    rw [eraseAnnotations_cons c t (ne_of_isBlank hc rfl), eraseFinal,
      eraseFinalFrom_blank none c _ hc, squeeze_cons_blank _ c hc, eraseFinal]
  rw [readParameter, readParameter, hsqueeze]

/-- Read the parameters of a list without blanks at its end. -/
def readPieces (t : Text) : Except Fault (List Parameter) :=
  (piecesFrom parameterBrackets 0 [] t).mapM readParameter

theorem mapM_piecesFrom_cons_blank (depth : Nat) (c : Char) (piece t : Text)
    (hc : isBlank c = true) :
    (piecesFrom parameterBrackets depth (c :: piece) t).mapM readParameter =
      (piecesFrom parameterBrackets depth piece t).mapM readParameter := by
  induction t generalizing depth piece with
  | nil =>
    rw [piecesFrom, piecesFrom, List.mapM_cons, List.mapM_cons, readParameter_cons_blank c _ hc]
  | cons d t ih =>
    rw [piecesFrom, piecesFrom]
    split
    · rw [List.mapM_cons, List.mapM_cons, readParameter_cons_blank c _ hc]
    · exact ih _ (piece ++ [d])

theorem readPieces_cons_blank (c : Char) (t : Text) (hc : isBlank c = true) :
    readPieces (c :: t) = readPieces t := by
  obtain ⟨hcomma, hopens, hcloses⟩ := parameterBrackets_of_isBlank hc
  have hlevel : parameterBrackets.depthAfter 0 c = 0 := by
    simp [Brackets.depthAfter, hopens, hcloses]
  rw [readPieces, piecesFrom, if_neg (by simp [hcomma]), hlevel]
  exact mapM_piecesFrom_cons_blank 0 c [] t hc

theorem readPieces_collapse (t : Text) : readPieces (collapse t) = readPieces t := by
  rw [readPieces, ← mapM_readParameter_map_collapse,
    map_collapse_piecesFrom _ _ _ _ fun _ => parameterBrackets_of_isBlank,
    mapM_readParameter_map_collapse, readPieces]

/-- The list is trimmed before it is parted, and an empty one has no parameters. -/
theorem mapM_splitParameters (t : Text) :
    (splitParameters t).mapM readParameter =
      if trimEnd t = [] then .ok [] else readPieces (trimEnd t) := by
  have hpieces (u : Text) : (splitParameters u).mapM readParameter =
      if trim u = [] then .ok [] else readPieces (trim u) := by
    simp only [splitParameters, pieces, List.isEmpty_iff]
    split <;> rfl
  induction t with
  | nil => rfl
  | cons c t ih =>
    cases hc : isBlank c with
    | true =>
      have hsame : trim (c :: t) = trim t := by rw [trim, skipBlanks_blank c t hc, trim]
      rw [hpieces, hsame, ← hpieces, ih, trimEnd_cons]
      by_cases hnil : trimEnd t = []
      · simp only [hnil, hc, and_self, if_true]
      · simp only [hnil, false_and, if_false, List.cons_ne_nil, readPieces_cons_blank c _ hc]
    | false =>
      have hsame : trim (c :: t) = trimEnd (c :: t) := by rw [trim, skipBlanks_cons c t hc]
      rw [hpieces, hsame]

namespace Spaced

variable {t u : Text}

theorem readPieces_eq (h : Spaced t u) : readPieces t = readPieces u := by
  have hspace (v : Text) : readPieces v = readPieces (collapse (' ' :: v)) := by
    rw [readPieces_collapse, readPieces_cons_blank ' ' v rfl]
  rw [hspace t, h, ← hspace u]

theorem words_eq (h : Spaced t u) : words t = words u := by
  have hspace (v : Text) : words v = words (collapse (' ' :: v)) := by
    rw [words_collapse]
    exact (words_blanks_append [' '] v (List.forall_mem_singleton.mpr rfl)).symm
  rw [hspace t, h, ← hspace u]

theorem mem_iff (h : Spaced t u) {c : Char} (hc : isBlank c = false) : c ∈ t ↔ c ∈ u := by
  have hspace (v : Text) : c ∈ v ↔ c ∈ collapse (' ' :: v) := by
    have hne : c ≠ ' ' := (ne_of_isBlank rfl hc).symm
    rw [mem_collapse_iff _ c hc, List.mem_cons, or_iff_right hne]
  rw [hspace t, h, ← hspace u]

theorem trimEnd (h : Spaced t u) :
    (trimEnd t = [] ↔ trimEnd u = []) ∧ Spaced (trimEnd t) (trimEnd u) := by
  have heq : collapse (Text.trimEnd (' ' :: t)) = collapse (Text.trimEnd (' ' :: u)) := by
    rw [← trimEnd_collapse, h, trimEnd_collapse]
  rw [trimEnd_cons, trimEnd_cons] at heq
  split at heq
  · next ht =>
    have hu : Text.trimEnd u = [] := by
      by_contra hne
      rw [if_neg fun hnil => hne hnil.1, collapse_nil] at heq
      exact List.cons_ne_nil _ _ ((collapse_eq_nil_iff _).mp heq.symm)
    rw [ht.1, hu]
    exact ⟨Iff.rfl, rfl⟩
  · next ht =>
    have hne : Text.trimEnd t ≠ [] := fun hnil => ht ⟨hnil, rfl⟩
    by_cases hu : Text.trimEnd u = []
    · rw [if_pos ⟨hu, rfl⟩, collapse_nil] at heq
      exact absurd ((collapse_eq_nil_iff _).mp heq) (List.cons_ne_nil _ _)
    · rw [if_neg fun hnil => hu hnil.1] at heq
      exact ⟨iff_of_false hne hu, heq⟩

end Spaced

/-- No bracket of a parameter is left open at its end. -/
def EndsLevel (t : Text) : Prop := t.foldl parameterBrackets.depthAfter 0 = 0

theorem Spaced.endsLevel {t u : Text} (h : Spaced t u) (ht : EndsLevel t) : EndsLevel u := by
  have hspace (v : Text) : v.foldl parameterBrackets.depthAfter 0 =
      (collapse (' ' :: v)).foldl parameterBrackets.depthAfter 0 := by
    rw [foldl_depthAfter_collapse _ fun _ hc => (parameterBrackets_of_isBlank hc).2]
    rfl
  rw [EndsLevel, hspace u, ← h, ← hspace t]
  exact ht

/-- Two lists of which the same parameters are read. -/
structure SameParameters (t u : Text) : Prop where
  nil_iff : trimEnd t = [] ↔ trimEnd u = []
  pieces_eq : readPieces (trimEnd t) = readPieces (trimEnd u)

theorem SameParameters.mapM_eq {t u : Text} (h : SameParameters t u) :
    (splitParameters t).mapM readParameter = (splitParameters u).mapM readParameter := by
  rw [mapM_splitParameters, mapM_splitParameters, if_congr h.nil_iff rfl h.pieces_eq]

theorem SameParameters.of_spaced {t u : Text} (h : Spaced t u) : SameParameters t u :=
  ⟨h.trimEnd.1, h.trimEnd.2.readPieces_eq⟩

/-- A parameter in front of the list. -/
theorem SameParameters.comma {p q t u : Text} (hpq : Spaced p q) (hp : EndsLevel p)
    (h : SameParameters t u) : SameParameters (p ++ ',' :: t) (q ++ ',' :: u) := by
  have htrim (r v : Text) : trimEnd (r ++ ',' :: v) = r ++ ',' :: trimEnd v := by
    have hcomma : trimEnd (',' :: v) = ',' :: trimEnd v := by
      rw [trimEnd_cons, if_neg fun h => Bool.false_ne_true h.2]
    rw [trimEnd_append r (hcomma ▸ List.cons_ne_nil _ _), hcomma]
  have hpieces (r v : Text) (hr : EndsLevel r) : readPieces (r ++ ',' :: v) =
      (do return (← readPieces r) ++ (← readPieces v)) := by
    rw [readPieces, piecesFrom_append_comma _ rfl 0 [] r v hr, List.mapM_append]
    rfl
  constructor
  · rw [htrim, htrim]
    exact iff_of_false (by simp) (by simp)
  · rw [htrim, htrim, hpieces p _ hp, hpieces q _ (hpq.endsLevel hp), hpq.readPieces_eq,
      h.pieces_eq]

theorem sameParameters_join {ps qs : List Text} (h : List.Forall₂ Spaced ps qs)
    (hlevel : ∀ p ∈ ps, EndsLevel p) : SameParameters (join [','] ps) (join [','] qs) := by
  induction h with
  | nil => exact .of_spaced rfl
  | @cons p q ps qs hpq hlater ih =>
    obtain ⟨hp, hps⟩ := List.forall_mem_cons.mp hlevel
    have hrest := ih hps
    cases hlater with
    | nil => simpa [join] using SameParameters.of_spaced hpq
    | cons hnext hmore =>
      rw [join_cons_cons, join_cons_cons, List.append_assoc, List.append_assoc]
      exact .comma hpq hp hrest

/-- The statement of a method without its semicolon. -/
def methodText (head : Text) (parameters : List Text) (trailer : Text) : Text :=
  head ++ '(' :: (join [','] parameters ++ ')' :: trailer)

theorem flat_join {ps : List Text} (h : ∀ p ∈ ps, Flat p) : Flat (join [','] ps) :=
  forall_mem_join _ _ _ (List.forall_mem_singleton.mpr (by decide)) h

/-- The statement is only told in a fault. -/
theorem methodName_of_ok {t : Text} {ws : List Text} {found : Text × List Text}
    (h : methodName t ws = .ok found) (u : Text) : methodName u ws = .ok found := by
  unfold methodName at h ⊢
  split at h
  · cases h
  · dsimp only at h ⊢
    split at h
    · cases h
    · next hname =>
      rw [if_neg hname]
      split at h
      · next hnative => rwa [if_pos hnative]
      · cases h

/-- A method does not change when the words in front of its list and its parameters are respaced,
each by itself. -/
theorem readErased_methodText {head head' : Text} {ps qs : List Text} (trailer : Text)
    (hhead : Spaced head head') (hps : List.Forall₂ Spaced ps qs) (hopen : '(' ∉ head)
    (hflat : ∀ p ∈ ps, Flat p) (hlevel : ∀ p ∈ ps, EndsLevel p) {owner : Option Text} {line : Int}
    {m : NativeMethod} (h : readErased owner line (methodText head ps trailer) = .ok m) :
    readErased owner line (methodText head' qs trailer) = .ok m := by
  have hopen' : '(' ∉ head' := fun hmem => hopen ((hhead.mem_iff rfl).mpr hmem)
  have hflat' : ∀ q ∈ qs, Flat q := by
    intro q hq c hc
    obtain ⟨p, hp, hpq⟩ := exists_of_forall₂ hps hq
    constructor
    · rintro rfl
      exact (hflat p hp '(' ((hpq.mem_iff rfl).mpr hc)).1 rfl
    · rintro rfl
      exact (hflat p hp ')' ((hpq.mem_iff rfl).mpr hc)).2 rfl
  have hcut := cutParameters_append head _ trailer hopen (flat_join hflat)
  have hcut' := cutParameters_append head' _ trailer hopen' (flat_join hflat')
  rw [readErased, methodText, hcut] at h
  rw [readErased, methodText, hcut', ← hhead.words_eq]
  simp only [bind_eq_ok_iff, Except.ok.injEq, exists_eq_left'] at h ⊢
  obtain ⟨checked, htrailer, found, hname, h⟩ := h
  refine ⟨checked, htrailer, found, methodName_of_ok hname _, ?_⟩
  rwa [← (sameParameters_join hps hlevel).mapM_eq]

end Source

end NativeGlue
