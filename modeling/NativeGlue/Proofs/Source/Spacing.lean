import NativeGlue.Proofs.Source.Statement
import NativeGlue.Proofs.Text.Collapse

/-!
Statements up to their blanks. Whether a statement is native, the method that it declares and the
class that it is the head of depend on the collapsed statement alone, and a blank in front of it
is not seen either. Annotations and modifiers are erased with the blanks that stand next to them,
so the erased texts agree when collapsed, and what is read from them agrees outright.
-/

namespace NativeGlue.Source

open Text

/-- The text before the parenthesis that closes the given number of open ones, and the text after
it. -/
def cutClosing? (depth : Int) (t : Text) : Option (Text × Text) :=
  (closingFrom? depth t).map fun close => (t.take close, t.drop (close + 1))

theorem cutClosing?_cons (depth : Int) (c : Char) (t : Text) :
    cutClosing? depth (c :: t) =
      if c = ')' ∧ depth = 1 then some ([], t)
      else (cutClosing? (if c = '(' then depth + 1 else if c = ')' then depth - 1 else depth) t).map
        fun cut => (c :: cut.1, cut.2) := by
  have hlater (next : Int) (h : closingFrom? depth (c :: t) = (closingFrom? next t).map (· + 1)) :
      cutClosing? depth (c :: t) = (cutClosing? next t).map fun cut => (c :: cut.1, cut.2) := by
    rw [cutClosing?, h, cutClosing?, Option.map_map, Option.map_map]
    rfl
  by_cases hopen : c = '('
  · subst hopen
    rw [if_neg (by simp), if_pos rfl]
    exact hlater _ rfl
  by_cases hclose : c = ')'
  · subst hclose
    rw [if_neg hopen, if_pos rfl]
    by_cases hdepth : depth = 1
    · subst hdepth
      rfl
    · rw [if_neg fun h => hdepth h.2]
      refine hlater _ ?_
      rw [closingFrom?, if_neg (by omega)]
  · rw [if_neg fun h => hclose h.1, if_neg hopen, if_neg hclose]
    refine hlater _ ?_
    rw [closingFrom?]
    · exact hopen
    · exact hclose

theorem eq_append_of_cutClosing? {depth : Int} {t before after : Text}
    (h : cutClosing? depth t = some (before, after)) : t = before ++ ')' :: after := by
  induction t generalizing depth before with
  | nil => cases h
  | cons c t ih =>
    rw [cutClosing?_cons] at h
    split at h
    · next hc =>
      obtain ⟨rfl, -⟩ := hc
      cases h
      rfl
    · obtain ⟨cut, hcut, heq⟩ := Option.map_eq_some_iff.mp h
      cases heq
      rw [ih hcut, List.cons_append]

theorem cutClosing?_collapse (depth : Int) (t : Text) :
    cutClosing? depth (collapse t) =
      (cutClosing? depth t).map fun cut => (collapse cut.1, collapse cut.2) := by
  have hblank (c : Char) (hc : isBlank c = true) (depth : Int) (u : Text) :
      cutClosing? depth (c :: u) = (cutClosing? depth u).map fun cut => (c :: cut.1, cut.2) := by
    have hclose : c ≠ ')' := ne_of_isBlank hc rfl
    rw [cutClosing?_cons, if_neg fun h => hclose h.1, if_neg (ne_of_isBlank hc rfl), if_neg hclose]
  induction t using collapse_induction generalizing depth with
  | nil => rfl
  | char c t hc ih =>
    rw [collapse_char c t hc, cutClosing?_cons, cutClosing?_cons]
    split
    · rfl
    · rw [ih, Option.map_map, Option.map_map]
      exact Option.map_congr fun cut _ => by simp [collapse_char c cut.1 hc]
  | gap c t hc ht ih =>
    rw [collapse_gap c t hc ht, hblank ' ' rfl, hblank c hc, ih, Option.map_map, Option.map_map]
    refine Option.map_congr fun cut hcut => ?_
    have hfront : cut.1.head?.any isBlank = false := by
      rw [eq_append_of_cutClosing? hcut] at ht
      cases h : cut.1 with
      | nil => rfl
      | cons d u => rwa [h] at ht
    simp [collapse_gap c cut.1 hc hfront]
  | more c d t hc hd ih =>
    rw [collapse_more c d t hc hd, ih, hblank c hc, hblank d hd, Option.map_map, Option.map_map,
      Option.map_map]
    exact Option.map_congr fun cut _ => by simp [collapse_more c d cut.1 hc hd]

theorem closing?_open (t : Text) : closing? ('(' :: t) = (closingFrom? 1 t).map (· + 1) := rfl

theorem isBlank_of_skipBlanks {t rest : Text} {c : Char} (h : skipBlanks t = c :: rest) :
    isBlank c = false := by
  have hstop := List.head?_dropWhile_not isBlank t
  rw [show t.dropWhile isBlank = c :: rest from h] at hstop
  simpa using hstop

theorem afterAnnotationName?_collapse (t : Text) :
    afterAnnotationName? (collapse t) = (afterAnnotationName? t).map collapse := by
  have hblank (c : Char) (hc : isBlank c = true) : isDottedNamePart c = false := by
    have hdot : c ≠ '.' := ne_of_isBlank hc rfl
    simp [isDottedNamePart, isNamePart_of_isBlank c hc, hdot]
  unfold afterAnnotationName?
  rw [skipBlanks_collapse]
  cases hskip : skipBlanks t with
  | nil => rfl
  | cons c rest =>
    rw [collapse_char c rest (isBlank_of_skipBlanks hskip)]
    dsimp only
    rw [(takeWhile_collapse isDottedNamePart rest hblank).2]
    split <;> rfl

theorem afterArguments?_open {t rest : Text} (h : skipBlanks t = '(' :: rest) :
    afterArguments? t = (cutClosing? 1 rest).map Prod.snd := by
  have hclosing : afterArguments? t =
      (closing? ('(' :: rest)).map fun close => rest.drop close := by
    rw [afterArguments?, h]
    rfl
  rw [hclosing, closing?_open, cutClosing?, Option.map_map, Option.map_map]
  rfl

theorem afterArguments?_other {t : Text} (h : ∀ rest, skipBlanks t ≠ '(' :: rest) :
    afterArguments? t = some t := by
  unfold afterArguments?
  split
  · next rest hrest => exact absurd hrest (h rest)
  · rfl

theorem afterArguments?_collapse (t : Text) :
    afterArguments? (collapse t) = (afterArguments? t).map collapse := by
  have hskip := skipBlanks_collapse t
  by_cases hopen : ∃ rest, skipBlanks t = '(' :: rest
  · obtain ⟨rest, hrest⟩ := hopen
    rw [hrest, collapse_char '(' rest rfl] at hskip
    rw [afterArguments?_open hskip, afterArguments?_open hrest, cutClosing?_collapse,
      Option.map_map, Option.map_map]
    rfl
  · have hother : ∀ rest, skipBlanks t ≠ '(' :: rest := fun rest h => hopen ⟨rest, h⟩
    rw [afterArguments?_other hother, afterArguments?_other]
    · rfl
    intro rest hrest
    rw [hskip] at hrest
    cases ht : skipBlanks t with
    | nil =>
      rw [ht] at hrest
      cases hrest
    | cons c u =>
      rw [ht, collapse_char c u (isBlank_of_skipBlanks ht)] at hrest
      exact hother u (by rw [ht, (List.cons.inj hrest).1])

theorem eraseAnnotations_cons (c : Char) (t : Text) (hc : c ≠ '@') :
    eraseAnnotations (c :: t) = c :: eraseAnnotations t := by
  rw [eraseAnnotations, if_neg hc]

theorem eraseAnnotations_at (t : Text) :
    eraseAnnotations ('@' :: t) =
      match afterAnnotationName? t with
      | none => '@' :: eraseAnnotations t
      | some tail =>
        match afterArguments? tail with
        | none => '@' :: t
        | some after => ' ' :: eraseAnnotations after := by
  rw [eraseAnnotations, if_pos rfl]
  split
  · next hname => rw [hname]
  · next tail hname =>
    simp only [hname]
    split <;> next hargs => rw [hargs]

/-- Erasing annotations from a collapsed text gives the same text up to its blanks. -/
theorem eraseAnnotations_collapse (t : Text) :
    collapse (eraseAnnotations (collapse t)) = collapse (eraseAnnotations t) := by
  induction hlength : t.length using Nat.strong_induction_on generalizing t with
  | _ n ih =>
  subst hlength
  cases t with
  | nil => rfl
  | cons c t =>
    have hrest : collapse (eraseAnnotations (collapse t)) = collapse (eraseAnnotations t) :=
      ih t.length (Nat.lt_succ_self _) t rfl
    by_cases hat : c = '@'
    · subst hat
      rw [collapse_char '@' t rfl, eraseAnnotations_at, eraseAnnotations_at,
        afterAnnotationName?_collapse]
      cases hname : afterAnnotationName? t with
      | none => exact collapse_cons_congr (.inl rfl) hrest
      | some tail =>
        simp only [Option.map_some, afterArguments?_collapse]
        cases hargs : afterArguments? tail with
        | none =>
          simp only [Option.map_none]
          exact collapse_cons_congr (.inl rfl) (collapse_collapse t)
        | some after =>
          have hshort := Nat.le_trans (length_afterArguments hargs) (length_afterName hname)
          simp only [Option.map_some]
          exact collapse_cons_congr (.inl rfl)
            (ih after.length (Nat.lt_succ_of_le hshort) after rfl)
    · rw [eraseAnnotations_cons c t hat]
      cases hc : isBlank c with
      | false =>
        rw [collapse_char c t hc, eraseAnnotations_cons c _ hat]
        exact collapse_cons_congr (.inl rfl) hrest
      | true =>
        have hblank (c : Char) (u : Text) (hc : isBlank c = true) :
            eraseAnnotations (c :: u) = c :: eraseAnnotations u :=
          eraseAnnotations_cons c u (ne_of_isBlank hc rfl)
        rw [← hblank c t hc]
        exact collapse_of_blank hblank hblank hc hrest hrest

/-- The modifier `final` stands at the front, with a blank behind it. -/
def startsFinal (before : Option Char) (t : Text) : Bool :=
  atNameBoundary before && (dropStart? "final".toList t).any (·.head?.any isBlank)

theorem final_not_blank : ∀ d ∈ "final".toList, isBlank d = false := isBlank_of_all (by decide)

theorem startsFinal_collapse (before : Option Char) (t : Text) :
    startsFinal before (collapse t) = startsFinal before t := by
  rw [startsFinal, dropStart?_collapse _ t final_not_blank, startsFinal]
  cases dropStart? "final".toList t with
  | none => rfl
  | some rest => simp [isBlank_head?_collapse]

theorem eraseFinalFrom_final {before : Option Char} {t : Text} (h : startsFinal before t = true) :
    ∃ c rest, t = "final".toList ++ c :: rest ∧ isBlank c = true ∧
      eraseFinalFrom before t = ' ' :: eraseFinalFrom (some c) rest := by
  obtain ⟨hbefore, hdrop⟩ := Bool.and_eq_true_iff.mp h
  obtain ⟨after, hafter, hhead⟩ := (Option.any_eq_true _ _).mp hdrop
  obtain ⟨c, rest, rfl, hblank⟩ := exists_cons_of_any_head? hhead
  have ht := eq_append_of_dropStart? hafter
  refine ⟨c, rest, ht, hblank, ?_⟩
  rw [ht]
  have hcons : "final".toList ++ c :: rest = 'f' :: 'i' :: 'n' :: 'a' :: 'l' :: c :: rest := rfl
  rw [hcons, eraseFinalFrom, hbefore, hblank]
  rfl

theorem eraseFinalFrom_cons {before : Option Char} {c : Char} {t : Text}
    (h : startsFinal before (c :: t) = false) :
    eraseFinalFrom before (c :: t) = c :: eraseFinalFrom (some c) t := by
  conv => lhs; unfold eraseFinalFrom
  split
  · next d rest heq =>
    obtain ⟨rfl, rfl⟩ := List.cons.inj heq
    have hdrop : dropStart? "final".toList ('f' :: 'i' :: 'n' :: 'a' :: 'l' :: d :: rest) =
        some (d :: rest) := rfl
    rw [startsFinal, hdrop] at h
    simp only [Option.any_some, List.head?_cons] at h
    rw [h]
    rfl
  · next heq =>
    obtain ⟨rfl, rfl⟩ := List.cons.inj heq
    rfl
  · next heq => cases heq

theorem eraseFinalFrom_congr (t : Text) {before before' : Option Char}
    (h : atNameBoundary before = atNameBoundary before') :
    eraseFinalFrom before t = eraseFinalFrom before' t := by
  have hstarts : startsFinal before t = startsFinal before' t := by
    rw [startsFinal, h, startsFinal]
  cases hfinal : startsFinal before t with
  | true =>
    obtain ⟨c, rest, rfl, -, heq⟩ := eraseFinalFrom_final hfinal
    obtain ⟨d, rest', hsame, -, heq'⟩ := eraseFinalFrom_final (hstarts ▸ hfinal)
    obtain ⟨rfl, rfl⟩ := List.cons.inj (List.append_cancel_left hsame)
    rw [heq, heq']
  | false =>
    cases t with
    | nil => rfl
    | cons c t => rw [eraseFinalFrom_cons hfinal, eraseFinalFrom_cons (hstarts ▸ hfinal)]

theorem boundary_of_blank {c : Char} (hc : isBlank c = true) :
    atNameBoundary (some c) = atNameBoundary none := by
  rw [atNameBoundary_some, isNamePart_of_isBlank c hc]
  rfl

theorem eraseFinalFrom_blank (before : Option Char) (c : Char) (t : Text) (hc : isBlank c = true) :
    eraseFinalFrom before (c :: t) = c :: eraseFinalFrom none t := by
  have hfinal : startsFinal before (c :: t) = false := by
    rw [startsFinal, dropStart?_of_blank t hc (by decide) final_not_blank]
    exact Bool.and_false _
  rw [eraseFinalFrom_cons hfinal, eraseFinalFrom_congr t (boundary_of_blank hc)]

theorem eraseFinalFrom_collapse (before : Option Char) (t : Text) :
    collapse (eraseFinalFrom before (collapse t)) = collapse (eraseFinalFrom before t) := by
  induction hlength : t.length using Nat.strong_induction_on generalizing before t with
  | _ n ih =>
  subst hlength
  have hstarts := startsFinal_collapse before t
  cases hfinal : startsFinal before t with
  | true =>
    obtain ⟨c, rest, rfl, hc, heq⟩ := eraseFinalFrom_final hfinal
    obtain ⟨d, rest', hcollapse, hd, heq'⟩ := eraseFinalFrom_final (hstarts.trans hfinal)
    rw [collapse_word_append _ _ final_not_blank] at hcollapse
    have hsame : collapse (c :: rest) = d :: rest' := List.append_cancel_left hcollapse
    -- what follows the modifier is blank, so nothing is lost by reading on from that
    have hlater := ih (c :: rest).length (by simp) none (c :: rest) rfl
    rw [hsame, eraseFinalFrom_blank none d rest' hd, eraseFinalFrom_blank none c rest hc] at hlater
    rw [heq, heq', eraseFinalFrom_congr rest' (boundary_of_blank hd),
      eraseFinalFrom_congr rest (boundary_of_blank hc)]
    calc
      _ = collapse (d :: eraseFinalFrom none rest') := collapse_cons_congr (.inr ⟨rfl, hd⟩) rfl
      _ = collapse (c :: eraseFinalFrom none rest) := hlater
      _ = _ := collapse_cons_congr (.inr ⟨hc, rfl⟩) rfl
  | false =>
    cases t with
    | nil => rfl
    | cons c t =>
      have hrest (before : Option Char) := ih t.length (Nat.lt_succ_self _) before t rfl
      cases hc : isBlank c with
      | false =>
        have hkept := hstarts.trans hfinal
        rw [collapse_char c t hc] at hkept ⊢
        rw [eraseFinalFrom_cons hkept, eraseFinalFrom_cons hfinal]
        exact collapse_cons_congr (.inl rfl) (hrest (some c))
      | true =>
        exact collapse_of_blank (eraseFinalFrom_blank before) (eraseFinalFrom_blank none) hc
          (hrest before) (hrest none)

theorem eraseFinal_congr {t u : Text} (h : collapse t = collapse u) :
    collapse (eraseFinal t) = collapse (eraseFinal u) := by
  rw [eraseFinal, ← eraseFinalFrom_collapse, h, eraseFinalFrom_collapse, eraseFinal]

theorem readParameter_collapse (t : Text) : readParameter (collapse t) = readParameter t := by
  have hsqueeze : squeeze (eraseFinal (eraseAnnotations (collapse t))) =
      squeeze (eraseFinal (eraseAnnotations t)) :=
    squeeze_congr (eraseFinal_congr (eraseAnnotations_collapse t))
  rw [readParameter, readParameter, hsqueeze]

/-- A blank neither parts parameters nor is a bracket. -/
theorem parameterBrackets_of_isBlank {c : Char} (hc : isBlank c = true) :
    c ≠ ',' ∧ parameterBrackets.opens c = false ∧ parameterBrackets.closes c = false := by
  have hne (d : Char) (hd : isBlank d = false) : c ≠ d := ne_of_isBlank hc hd
  simp [parameterBrackets, hne ',' rfl, hne '<' rfl, hne '(' rfl, hne '>' rfl, hne ')' rfl]

theorem mapM_readParameter_map_collapse (ts : List Text) :
    (ts.map collapse).mapM readParameter = ts.mapM readParameter := by
  rw [List.mapM_map]
  exact congrArg (List.mapM · ts) (funext readParameter_collapse)

theorem mapM_readParameter_collapse (t : Text) :
    (splitParameters (collapse t)).mapM readParameter =
      (splitParameters t).mapM readParameter := by
  rw [← mapM_readParameter_map_collapse, splitParameters,
    map_collapse_pieces _ t fun _ => parameterBrackets_of_isBlank,
    mapM_readParameter_map_collapse, splitParameters]

theorem cutParameters_open {t inside : Text} (h : t.dropWhile (· != '(') = '(' :: inside) :
    cutParameters t =
      match cutClosing? 1 inside with
      | none => .error .openParameterList
      | some cut => .ok ⟨words (t.takeWhile (· != '(')), cut.1, squeeze cut.2⟩ := by
  unfold cutParameters
  rw [h]
  simp only [closing?_open, cutClosing?]
  cases closingFrom? 1 inside <;> rfl

theorem cutParameters_flat {t : Text} (h : t.dropWhile (· != '(') = []) :
    cutParameters t = .error (.noParameterList (squeeze t)) := by
  unfold cutParameters
  rw [h]

/-- The head of a method is cut alike, and its parameters agree when collapsed. -/
theorem cutParameters_collapse (t : Text) :
    cutParameters (collapse t) =
      (cutParameters t).map fun head => { head with parameters := collapse head.parameters } := by
  have hp (c : Char) (hc : isBlank c = true) : (c != '(') = true := by
    rw [bne_iff_ne]
    exact ne_of_isBlank hc rfl
  obtain ⟨htake, hdrop⟩ := takeWhile_collapse_blank (· != '(') t hp
  cases hlist : t.dropWhile (· != '(') with
  | nil =>
    rw [hlist] at hdrop
    rw [cutParameters_flat hlist, cutParameters_flat hdrop, squeeze_collapse]
    rfl
  | cons c inside =>
    obtain rfl : c = '(' := eq_of_dropWhile_ne hlist
    rw [hlist, collapse_char '(' inside rfl] at hdrop
    rw [cutParameters_open hlist, cutParameters_open hdrop, htake, words_collapse,
      cutClosing?_collapse]
    cases cutClosing? 1 inside with
    | none => rfl
    | some cut =>
      simp only [Option.map_some, squeeze_collapse]
      rfl

/-- Read a native method from its statement without annotations. -/
def readErased (owner : Option Text) (line : Int) (statement : Text) :
    Except Fault NativeMethod := do
  let head ← cutParameters statement
  checkTrailer head.trailer
  let (name, modifiers) ← methodName statement head.words
  match owner with
  | none => .error (.outsideClass name)
  | some className =>
    let parameters ← (splitParameters head.parameters).mapM readParameter
    return ⟨className, name, modifiers.contains "static".toList, parameters, line⟩

theorem readNativeMethod_eq (owner : Option Text) (line : Int) (t : Text) :
    readNativeMethod owner line t = readErased owner line (eraseAnnotations t) := rfl

theorem methodName_collapse (t : Text) (words : List Text) :
    methodName (collapse t) words = methodName t words := by
  simp only [methodName, squeeze_collapse]

theorem readErased_collapse (owner : Option Text) (line : Int) (t : Text) :
    readErased owner line (collapse t) = readErased owner line t := by
  simp only [readErased, cutParameters_collapse]
  cases cutParameters t with
  | error fault => rfl
  | ok head =>
    simp only [Except.map, bind, Except.bind, methodName_collapse, mapM_readParameter_collapse]

theorem nameAfterKeyword?_collapse (t : Text) :
    nameAfterKeyword? (collapse t) = nameAfterKeyword? t := by
  have hwords : ∀ word ∈ classWords, word.all isNamePart = true := by decide
  rw [nameAfterKeyword?, nameAfterKeyword?, ← List.head?_filterMap, ← List.head?_filterMap]
  refine congrArg List.head? (List.filterMap_congr fun word hword => ?_)
  rw [dropStart?_collapse word t (isBlank_of_all (hwords word hword)), Option.bind_map]
  refine Option.bind_congr fun rest _ => ?_
  simp only [Function.comp_apply, isBlank_head?_collapse, skipBlanks_collapse]
  cases hskip : skipBlanks rest with
  | nil => rfl
  | cons c tail =>
    rw [collapse_char c tail (isBlank_of_skipBlanks hskip)]
    cases rest.head?.any isBlank with
    | false => rfl
    | true => simp only [(takeWhile_collapse isNamePart tail isNamePart_of_isBlank).1]

theorem classNameFrom?_collapse (before : Option Char) (t : Text) :
    classNameFrom? before (collapse t) = classNameFrom? before t := by
  induction t using collapse_induction generalizing before with
  | nil => rfl
  | char c t hc ih =>
    have hname := nameAfterKeyword?_collapse (c :: t)
    rw [collapse_char c t hc] at hname ⊢
    rw [classNameFrom?, classNameFrom?, hname, ih]
  | gap c t hc ht ih =>
    rw [collapse_gap c t hc ht, classNameFrom?_blank before ' ' _ rfl,
      classNameFrom?_blank before c t hc, ih]
  | more c d t hc hd ih =>
    rw [collapse_more c d t hc hd, ih, classNameFrom?_blank before d t hd,
      classNameFrom?_blank before c _ hc, classNameFrom?_blank none d t hd]

theorem isNativeStatement_collapse (t : Text) :
    isNativeStatement (collapse t) = isNativeStatement t := by
  have hopen : (collapse t).contains '(' = t.contains '(' := by
    rw [Bool.eq_iff_iff, List.contains_iff_mem, List.contains_iff_mem]
    exact mem_collapse_iff t '(' rfl
  have hword : ∀ d ∈ nativeWord, isBlank d = false := isBlank_of_all (by decide)
  rw [isNativeStatement, hasWord_collapse nativeWord t (by decide) hword, hopen, isNativeStatement]

theorem isNativeStatement_cons_blank (c : Char) (t : Text) (hc : isBlank c = true) :
    isNativeStatement (c :: t) = isNativeStatement t := by
  have hopen : '(' ≠ c := (ne_of_isBlank hc rfl).symm
  rw [isNativeStatement,
    hasWord_cons nativeWord t c (by decide) (List.all_eq_true.mp (by decide))
      (isNamePart_of_isBlank c hc),
    isNativeStatement, List.contains_cons, beq_false_of_ne hopen, Bool.false_or]

theorem readErased_cons_blank (owner : Option Text) (line : Int) (c : Char) (t : Text)
    (hc : isBlank c = true) : readErased owner line (c :: t) = readErased owner line t := by
  have hopen : (c != '(') = true := by
    rw [bne_iff_ne]
    exact ne_of_isBlank hc rfl
  have hwords (u : Text) : words (c :: u) = words u := words_blanks_append [c] u (by simpa using hc)
  have hsqueeze : squeeze (c :: t) = squeeze t := squeeze_cons_blank t c hc
  have hcut : cutParameters (c :: t) = cutParameters t := by
    unfold cutParameters
    simp only [List.takeWhile_cons, List.dropWhile_cons, hopen, if_true, hwords, hsqueeze]
  simp only [readErased, hcut, methodName, hsqueeze]

/-- The texts of two statements agree up to their blanks and to any blanks in front. -/
def Spaced (t u : Text) : Prop := collapse (' ' :: t) = collapse (' ' :: u)

theorem Spaced.append {t t' u u' : Text} (ht : Spaced t t') (hu : collapse u = collapse u') :
    Spaced (t ++ u) (t' ++ u') :=
  collapse_append ht hu

theorem Spaced.isNativeStatement_eq {t u : Text} (h : Spaced t u) :
    isNativeStatement t = isNativeStatement u := by
  rw [← isNativeStatement_cons_blank ' ' t rfl, ← isNativeStatement_collapse, h,
    isNativeStatement_collapse, isNativeStatement_cons_blank ' ' u rfl]

theorem Spaced.className?_eq {t u : Text} (h : Spaced t u) : className? t = className? u := by
  rw [← className?_cons_blank ' ' t rfl, className?, ← classNameFrom?_collapse, h,
    classNameFrom?_collapse, ← className?, className?_cons_blank ' ' u rfl]

/-- The same method is read from both, or the same fault is found. -/
theorem Spaced.readNativeMethod_eq {t u : Text} (h : Spaced t u) (owner : Option Text)
    (line : Int) : readNativeMethod owner line t = readNativeMethod owner line u := by
  have hspace (v : Text) : readNativeMethod owner line v =
      readErased owner line (collapse (eraseAnnotations (collapse (' ' :: v)))) := by
    rw [eraseAnnotations_collapse, readErased_collapse, eraseAnnotations_cons ' ' v (by decide),
      readErased_cons_blank owner line ' ' _ rfl, Source.readNativeMethod_eq]
  rw [hspace t, h, ← hspace u]

end NativeGlue.Source
