import NativeGlue.Proofs.Source.Adornment
import NativeGlue.Proofs.Source.ParameterList

/-!
Native methods with annotations. Put before the words of a native method, annotations suspend and
resume its statement, but the method that is read in the end is the same, on the same line, and
behind the semicolon the scan is in the state that it would have been in without them. So the whole
file holds what it held.
-/

namespace NativeGlue.Source

open Text

/-- A plain character that is no parenthesis and begins no annotation. -/
def isBare (c : Char) : Bool := isPlain c && !(['@', '(', ')'].contains c)

theorem isBare_iff (c : Char) :
    isBare c = true ↔ isPlain c = true ∧ c ≠ '@' ∧ c ≠ '(' ∧ c ≠ ')' := by
  simp [isBare]

/-- A plain character that is no blank. -/
def IsMark (c : Char) : Prop := isBlank c = false ∧ isPlain c = true

/-- A native method without annotations: its modifiers, type and name, its parameters, and what
stands behind them. -/
structure NativeText where
  head : Text
  parameters : List Text
  trailer : Text
  starts : head.head?.any (!isBlank ·) = true
  native : hasWord nativeWord head = true
  bare : ∀ t ∈ head :: trailer :: parameters, ∀ c ∈ t, isBare c = true
  level : ∀ p ∈ parameters, EndsLevel p

namespace NativeText

def text (m : NativeText) : Text := methodText m.head m.parameters m.trailer

/-- The text is the method's with annotations before words of its head and its parameters. -/
structure Annotated (IsOne : Text → Prop) (m : NativeText) (head : Text) (parameters : List Text) :
    Prop where
  head : Adorned IsOne m.head head
  parameters : List.Forall₂ (Adorned IsOne) m.parameters parameters

theorem bare_head (m : NativeText) : ∀ c ∈ m.head, isBare c = true :=
  m.bare m.head List.mem_cons_self

theorem bare_trailer (m : NativeText) : ∀ c ∈ m.trailer, isBare c = true :=
  m.bare m.trailer (List.mem_cons_of_mem _ List.mem_cons_self)

theorem bare_parameters (m : NativeText) : ∀ p ∈ m.parameters, ∀ c ∈ p, isBare c = true :=
  fun p hp => m.bare p (List.mem_cons_of_mem _ (List.mem_cons_of_mem _ hp))

theorem bare_join (m : NativeText) : ∀ c ∈ join [','] m.parameters, isBare c = true :=
  forall_mem_join _ _ _ (List.forall_mem_singleton.mpr rfl) m.bare_parameters

/-- What holds of bare characters and parentheses holds of the whole method. -/
theorem forall_mem_text (m : NativeText) {P : Char → Prop} (hbare : ∀ c, isBare c = true → P c)
    (hopen : P '(') (hclose : P ')') : ∀ c ∈ m.text, P c := by
  simp only [text, methodText, List.forall_mem_append, List.forall_mem_cons]
  exact ⟨fun c hc => hbare c (m.bare_head c hc), hopen, fun c hc => hbare c (m.bare_join c hc),
    hclose, fun c hc => hbare c (m.bare_trailer c hc)⟩

theorem plain (m : NativeText) : ∀ c ∈ m.text, isPlain c = true :=
  m.forall_mem_text (fun c hc => ((isBare_iff c).mp hc).1) rfl rfl

theorem at_notMem (m : NativeText) : '@' ∉ m.text := fun hmem =>
  m.forall_mem_text (P := (· ≠ '@')) (fun c hc => ((isBare_iff c).mp hc).2.1) (by decide)
    (by decide) '@' hmem rfl

end NativeText

theorem native_isNamePart : ∀ c ∈ nativeWord, isNamePart c = true :=
  List.all_eq_true.mp (by decide)

theorem isNativeStatement_methodText {head : Text} (parameters : List Text) (trailer : Text)
    (hhead : hasWord nativeWord head = true) :
    isNativeStatement (methodText head parameters trailer) = true := by
  have hword : hasWord nativeWord (methodText head parameters trailer) = true := by
    rw [methodText, hasWord_append_cons nativeWord head _ '(' (by decide) native_isNamePart rfl,
      hhead, Bool.true_or]
  rw [isNativeStatement, hword]
  simp [methodText]

theorem isNativeStatement_blanks_append (blanks t : Text)
    (hblanks : ∀ c ∈ blanks, isBlank c = true) :
    isNativeStatement (blanks ++ t) = isNativeStatement t := by
  induction blanks with
  | nil => rfl
  | cons c blanks ih =>
    obtain ⟨hc, hlater⟩ := List.forall_mem_cons.mp hblanks
    rw [List.cons_append, isNativeStatement_cons_blank c _ hc, ih hlater]

theorem readNativeMethod_blanks_append (owner : Option Text) (line : Int) (blanks t : Text)
    (hblanks : ∀ c ∈ blanks, isBlank c = true) :
    readNativeMethod owner line (blanks ++ t) = readNativeMethod owner line t := by
  induction blanks with
  | nil => rfl
  | cons c blanks ih =>
    obtain ⟨hc, hlater⟩ := List.forall_mem_cons.mp hblanks
    rw [List.cons_append, readNativeMethod_eq, eraseAnnotations_cons c _ (ne_of_isBlank hc rfl),
      readErased_cons_blank owner line c _ hc, ← readNativeMethod_eq, ih hlater]

/-- Without their annotations the parameters are what they were, up to their blanks. -/
theorem exists_spaced_join {ps us : List Text} (h : List.Forall₂ (Adorned IsHeld) ps us)
    (hps : ∀ p ∈ ps, ∀ c ∈ p, c ≠ '@' ∧ c ≠ '(') :
    ∃ erased, List.Forall₂ Spaced ps erased ∧
      ∀ rest, eraseAnnotations (join [','] us ++ rest) =
        join [','] erased ++ eraseAnnotations rest := by
  induction h with
  | nil => exact ⟨[], .nil, fun _ => rfl⟩
  | @cons p u ps us hpu hlater ih =>
    obtain ⟨hp, hmore⟩ := List.forall_mem_cons.mp hps
    obtain ⟨first, hspaced, -, hfirst⟩ := hpu.exists_spaced hp
    obtain ⟨erased, herased, heq⟩ := ih hmore
    refine ⟨first :: erased, .cons hspaced herased, fun rest => ?_⟩
    cases hlater with
    | nil =>
      cases herased
      simpa [join] using hfirst rest
    | cons hnext hrest =>
      cases herased with
      | cons _ _ =>
        rw [join_cons_cons, join_cons_cons, List.append_assoc, List.append_assoc, hfirst,
          List.singleton_append, eraseAnnotations_cons ',' _ (by decide), heq]
        simp

namespace NativeText.Annotated

variable {m : NativeText} {head : Text} {parameters : List Text}

theorem isNativeStatement_eq {IsOne : Text → Prop} (h : m.Annotated IsOne head parameters) :
    isNativeStatement (methodText head parameters m.trailer) = true :=
  isNativeStatement_methodText parameters m.trailer
    (h.head.hasWord_of_hasWord (by decide) native_isNamePart m.native)

/-- The method is read from the statement with annotations. -/
theorem readNativeMethod_eq (h : m.Annotated IsHeld head parameters) {owner : Option Text}
    {line : Int} {method : NativeMethod} (hread : readNativeMethod owner line m.text = .ok method) :
    readNativeMethod owner line (methodText head parameters m.trailer) = .ok method := by
  have hbare {c : Char} (hc : isBare c = true) := ((isBare_iff c).mp hc).2
  obtain ⟨erasedHead, hhead, -, herase⟩ := h.head.exists_spaced fun c hc =>
    ⟨(hbare (m.bare_head c hc)).1, (hbare (m.bare_head c hc)).2.1⟩
  obtain ⟨erased, herased, hlist⟩ := exists_spaced_join h.parameters fun p hp c hc =>
    ⟨(hbare (m.bare_parameters p hp c hc)).1, (hbare (m.bare_parameters p hp c hc)).2.1⟩
  have htrailer : '@' ∉ ')' :: m.trailer := by
    rw [List.mem_cons, not_or]
    exact ⟨by decide, fun hmem => (hbare (m.bare_trailer '@' hmem)).1 rfl⟩
  have hleft : eraseAnnotations (methodText head parameters m.trailer) =
      methodText erasedHead erased m.trailer := by
    rw [methodText, herase, eraseAnnotations_cons '(' _ (by decide), hlist,
      eraseAnnotations_eq_self _ htrailer, methodText]
  rw [Source.readNativeMethod_eq, eraseAnnotations_eq_self _ m.at_notMem] at hread
  rw [Source.readNativeMethod_eq, hleft]
  exact readErased_methodText m.trailer hhead herased
    (fun hmem => (hbare (m.bare_head '(' hmem)).2.1 rfl)
    (fun p hp c hc => (hbare (m.bare_parameters p hp c hc)).2) m.level hread

theorem feeds_join_eq {ps us : List Text} (h : List.Forall₂ (Adorned IsHeld) ps us) :
    feeds (join [','] us) = feeds (join [','] ps) := by
  induction h with
  | nil => rfl
  | cons hpu hlater ih =>
    cases hlater with
    | nil => simpa [join] using hpu.feeds_eq
    | cons hnext hrest =>
      rw [join_cons_cons, join_cons_cons]
      simp only [feeds_append, hpu.feeds_eq, ih]

theorem feeds_eq (h : m.Annotated IsHeld head parameters) :
    feeds (methodText head parameters m.trailer) = feeds m.text := by
  have hlist (ps : List Text) : feeds ('(' :: (join [','] ps ++ ')' :: m.trailer)) =
      feeds (join [','] ps) + feeds (')' :: m.trailer) := feeds_append (join [','] ps) _
  rw [text, methodText, methodText, feeds_append, feeds_append, h.head.feeds_eq, hlist, hlist,
    feeds_join_eq h.parameters]

/-- The method starts as it did, or with an annotation. -/
theorem exists_cons {IsOne : Text → Prop} (h : m.Annotated IsOne head parameters)
    (hone : ∀ a, IsOne a → a.head? = some '@') :
    ∃ c d t u, m.text = c :: t ∧ methodText head parameters m.trailer = d :: u ∧
      IsMark c ∧ IsMark d ∧ (d = c ∨ d = '@') := by
  obtain ⟨c, t, hfirst, hblank⟩ := exists_cons_of_any_head? m.starts
  have hc : IsMark c :=
    ⟨by simpa using hblank, ((isBare_iff c).mp (m.bare_head c (hfirst ▸ List.mem_cons_self))).1⟩
  obtain ⟨d, u, rfl, hd⟩ := (hfirst ▸ h.head).exists_head? hone
  have htext : m.text = c :: (t ++ '(' :: (join [','] m.parameters ++ ')' :: m.trailer)) := by
    rw [text, methodText, hfirst, List.cons_append]
  refine ⟨c, d, _, _, htext, rfl, hc, ?_, hd⟩
  rcases hd with rfl | rfl
  · exact hc
  · exact ⟨rfl, rfl⟩

end NativeText.Annotated

/-- A lexeme that may end before a mark may end before an annotation. -/
theorem Lexeme.EndsBefore.ahead {l : Lexeme} {c d : Char} (h : l.EndsBefore (some c))
    (hc : isBlank c = false) (hd : d = c ∨ d = '@') : l.EndsBefore (some d) := by
  rcases hd with rfl | rfl
  · exact h
  cases l with
  | blank _ => exact h
  | comment _ => exact h
  | textBlock _ => exact h
  | lineComment _ =>
    obtain ⟨-, hnext⟩ := h
    obtain rfl : c = '\n' := by simpa using hnext
    cases hc
  | literal quote body =>
    obtain ⟨hquote, hbody, -⟩ := h
    exact ⟨hquote, hbody, fun hin => by simp at hin⟩
  | mark e =>
    obtain ⟨hblank, hdouble, hsingle, -⟩ := h
    exact ⟨hblank, hdouble, hsingle, fun hin => by simp at hin⟩

namespace Scan

theorem reaches_parameters {ps us : List Text} (h : List.Forall₂ (Adorned IsWritten) ps us)
    (hplain : ∀ p ∈ ps, ∀ c ∈ p, isPlain c = true) (s : Scan) (hpending : s.pending = none)
    (rest : Text) :
    ∃ held, List.Forall₂ (Adorned IsHeld) ps held ∧
      Reaches s (join [','] us ++ rest) (s.takeAll (join [','] held)) rest := by
  induction h generalizing s with
  | nil => exact ⟨[], .nil, .refl s rest⟩
  | @cons p u ps us hpu hlater ih =>
    obtain ⟨hp, hmore⟩ := List.forall_mem_cons.mp hplain
    cases hlater with
    | nil =>
      obtain ⟨first, hfirst, hreaches⟩ := reaches_adorned hpu hp s hpending rest
      refine ⟨[first], .cons hfirst .nil, ?_⟩
      simpa [join] using hreaches
    | @cons _ v _ vs hnext hrest =>
      obtain ⟨first, hfirst, hreaches⟩ := reaches_adorned hpu hp s hpending
        (',' :: (join [','] (v :: vs) ++ rest))
      have hnone : (s.takeAll first).pending = none := (s.takeAll_pending first).trans hpending
      have hcomma := (s.takeAll first).reaches_take ',' (join [','] (v :: vs) ++ rest) hnone
        (by decide)
      obtain ⟨held, hheld, hlast⟩ := ih hmore ((s.takeAll first).take ',')
        (by rw [take_pending, hnone])
      refine ⟨first :: held, .cons hfirst hheld, ?_⟩
      obtain ⟨second, others, rfl⟩ : ∃ second others, held = second :: others := by
        cases hheld
        exact ⟨_, _, rfl⟩
      have hall : s.takeAll (join [','] (first :: second :: others)) =
          ((s.takeAll first).take ',').takeAll (join [','] (second :: others)) := by
        rw [join_cons_cons, List.append_assoc, takeAll_append]
        rfl
      rw [join_cons_cons, List.append_assoc, List.append_assoc, hall]
      exact (hreaches.trans hcomma).trans hlast

/-- A scan reads an annotated method as the method with shorter annotations. -/
theorem reaches_annotated {m : NativeText} {head : Text} {parameters : List Text}
    (h : m.Annotated IsWritten head parameters) (s : Scan) (hpending : s.pending = none)
    (rest : Text) :
    ∃ held heldParameters, m.Annotated IsHeld held heldParameters ∧
      Reaches s (methodText head parameters m.trailer ++ rest)
        (s.takeAll (methodText held heldParameters m.trailer)) rest := by
  have hplain {c : Char} (hc : isBare c = true) : isPlain c = true := ((isBare_iff c).mp hc).1
  obtain ⟨held, hheld, hfirst⟩ := reaches_adorned h.head (fun c hc => hplain (m.bare_head c hc)) s
    hpending ('(' :: (join [','] parameters ++ ')' :: (m.trailer ++ rest)))
  have hkept : (s.takeAll held).pending = none := (s.takeAll_pending held).trans hpending
  have hopen := (s.takeAll held).reaches_take '(' (join [','] parameters ++ ')' ::
    (m.trailer ++ rest)) hkept (by decide)
  have hnone : ((s.takeAll held).take '(').pending = none := by rw [take_pending, hkept]
  obtain ⟨heldParameters, hlist, hnext⟩ := reaches_parameters h.parameters
    (fun p hp c hc => hplain (m.bare_parameters p hp c hc)) ((s.takeAll held).take '(') hnone
    (')' :: (m.trailer ++ rest))
  have hlast := reaches_takeAll _ (')' :: m.trailer) rest
    ((takeAll_pending _ (join [','] heldParameters)).trans hnone)
    (List.forall_mem_cons.mpr ⟨rfl, fun c hc => hplain (m.bare_trailer c hc)⟩)
  refine ⟨held, heldParameters, ⟨hheld, hlist⟩, ?_⟩
  have hall : s.takeAll (methodText held heldParameters m.trailer) =
      (((s.takeAll held).take '(').takeAll (join [','] heldParameters)).takeAll
        (')' :: m.trailer) := by
    rw [methodText, takeAll_append]
    exact takeAll_append ((s.takeAll held).take '(') _ _
  rw [hall]
  simpa [methodText] using ((hfirst.trans hopen).trans hnext).trans hlast

/-- What leads up to a mark leads up to an annotation in its place. -/
theorem Reaches.ahead {s last : Scan} {t u v : Text} {c d : Char}
    (h : Reaches s (t ++ c :: u) last (c :: u)) (hc : isBlank c = false) (hd : d = c ∨ d = '@') :
    Reaches s (t ++ d :: v) last (d :: v) := by
  generalize htext : t ++ c :: u = text at h
  generalize hahead : c :: u = ahead at h
  induction h generalizing t with
  | refl s text =>
    obtain rfl : t = [] := by simpa [← hahead] using htext
    exact .refl s (d :: v)
  | @step s next last c' rest tail ahead l hlexeme hread hlater ih =>
    subst hahead
    obtain ⟨between, rfl⟩ := hlater.suffix
    obtain rfl : t = l.spelling ++ between := by
      rw [lexeme?_spelling hlexeme, ← List.append_assoc] at htext
      exact List.append_cancel_right htext
    -- only the last lexeme before the mark has another character next
    have hends : l.EndsBefore (between ++ d :: v).head? := by
      have hended := endsBefore_of_lexeme? hlexeme
      cases between with
      | nil => exact hended.ahead hc hd
      | cons e between => exact hended
    obtain ⟨e, more, hspelling, hlexeme'⟩ := lexeme?_of_endsBefore l (between ++ d :: v) hends
    rw [List.append_assoc, hspelling]
    exact .step hlexeme' hread (ih rfl rfl)

/-- A method that waits for its code is given up before a mark. -/
theorem readFrom_dropPending (s : Scan) {c : Char} (hc : IsMark c) (rest : Text) :
    s.dropPending.readFrom (c :: rest) = s.readFrom (c :: rest) := by
  have hlexeme := lexeme?_mark_plain c rest hc.1 hc.2
  rw [s.readFrom_of_ok hlexeme, s.dropPending.readFrom_of_ok hlexeme, read, read,
    dropPending_of_none _ s.dropPending_pending]

theorem AtRest.dropPending {s : Scan} (h : s.AtRest) : s.dropPending.AtRest := by
  have hstatement := s.dropPending_fields.2.1
  exact ⟨hstatement ▸ h.blank, hstatement ▸ h.fresh, hstatement ▸ h.level⟩

theorem isNativeStatement_takeAll {s : Scan} (hs : s.AtRest) (t : Text) :
    isNativeStatement (s.takeAll t).statement.text = isNativeStatement t := by
  rw [takeAll_text, isNativeStatement_blanks_append _ t hs.blank]

theorem readNativeMethod_takeAll {s : Scan} (hs : s.AtRest) {c : Char} (t : Text)
    (hc : isBlank c = false) :
    readNativeMethod (s.takeAll (c :: t)).owner (s.takeAll (c :: t)).statement.line
      (s.takeAll (c :: t)).statement.text = readNativeMethod s.owner s.line (c :: t) := by
  have howner : (s.takeAll (c :: t)).owner = s.owner := by rw [owner, (takeAll_fields s _).1, owner]
  rw [howner, takeAll_begins s c t hs.fresh hc, takeAll_text,
    readNativeMethod_blanks_append _ _ _ _ hs.blank]

/-- A native statement in a file that can be read declares a method. -/
theorem exists_readNativeMethod {s : Scan} (hs : s.AtRest) (hpending : s.pending = none) {c : Char}
    {t after : Text} (hc : isBlank c = false) (hnative : isNativeStatement (c :: t) = true)
    {contents : Contents} (h : (s.takeAll (c :: t)).readFrom (';' :: after) = .ok contents) :
    ∃ method, readNativeMethod s.owner s.line (c :: t) = .ok method := by
  have hnone : (s.takeAll (c :: t)).pending = none := (takeAll_pending s _).trans hpending
  have hend : (s.takeAll (c :: t)).read (.mark ';') = (s.takeAll (c :: t)).endStatement := by
    rw [read, dropPending_of_none _ hnone]
    rfl
  rw [readFrom_of_ok _ (lexeme?_semicolon after), hend] at h
  rw [← isNativeStatement_takeAll hs] at hnative
  rw [← readNativeMethod_takeAll hs t hc]
  cases hread : readNativeMethod (s.takeAll (c :: t)).owner (s.takeAll (c :: t)).statement.line
      (s.takeAll (c :: t)).statement.text with
  | ok method => exact ⟨method, rfl⟩
  | error fault => simp [endStatement, hnative, hread, Except.bind] at h

/-- The scan behind a native method of so many lines. -/
def behind (s : Scan) (method : NativeMethod) (lines : Nat) : Scan :=
  { s with
    line := s.line + lines
    statement := ⟨[], s.line, false, 0⟩
    pending := some method }

/-- Behind its semicolon nothing is left of a method but its lines and what was read of it. -/
theorem reaches_behind {s : Scan} (hs : s.AtRest) (hpending : s.pending = none) {c : Char}
    {t : Text} (hc : isBlank c = false) (hnative : isNativeStatement (c :: t) = true)
    {method : NativeMethod} (hread : readNativeMethod s.owner s.line (c :: t) = .ok method)
    (rest : Text) :
    Reaches (s.takeAll (c :: t)) (';' :: rest) (s.behind method (feeds (c :: t))) rest := by
  obtain ⟨hscopes, hkept, hsegments, hskipped⟩ := s.takeAll_fields (c :: t)
  rw [← isNativeStatement_takeAll hs] at hnative
  rw [← readNativeMethod_takeAll hs t hc] at hread
  have hawait := reaches_await _ method rest (hkept.trans hpending) hnative hread
  have hbehind : (s.takeAll (c :: t)).await method = s.behind method (feeds (c :: t)) := by
    simp only [await, behind, Statement.clear, hscopes, hsegments, hskipped, takeAll_line,
      takeAll_begins s c t hs.fresh hc]
  rwa [hbehind] at hawait

/-- From a scan at rest an annotated method is read as the method itself. -/
theorem readFrom_annotated {m : NativeText} {head : Text} {parameters : List Text}
    (h : m.Annotated IsWritten head parameters) {s : Scan} (hs : s.AtRest) {after : Text}
    {contents : Contents} (hread : s.readFrom (m.text ++ ';' :: after) = .ok contents) :
    s.readFrom (methodText head parameters m.trailer ++ ';' :: after) = .ok contents := by
  have hrest := hs.dropPending
  have hpending := s.dropPending_pending
  obtain ⟨held, heldParameters, hheld, hreaches⟩ :=
    reaches_annotated h s.dropPending hpending (';' :: after)
  obtain ⟨c, d, t, u, htext, hannotated, hc, hd, -⟩ := h.exists_cons fun a ha => ha.1.head?_eq
  obtain ⟨-, e, -, v, -, hkept, -, he, -⟩ := hheld.exists_cons fun a ha => ha.1.head?_eq
  have hnative : isNativeStatement m.text = true := isNativeStatement_methodText _ _ m.native
  have hnative' := hheld.isNativeStatement_eq
  have hbase := reaches_takeAll s.dropPending m.text (';' :: after) hpending m.plain
  have hstart : s.dropPending.readFrom (m.text ++ ';' :: after) = .ok contents := by
    rw [htext, List.cons_append] at hread ⊢
    rw [s.readFrom_dropPending hc, hread]
  rw [hbase.readFrom_eq] at hstart
  rw [htext] at hstart hnative
  -- the file can be read, so the statement without annotations declares a method
  obtain ⟨method, hmethod⟩ := exists_readNativeMethod hrest hpending hc.1 hnative hstart
  have hmethod' := hheld.readNativeMethod_eq (htext ▸ hmethod)
  have hlines := hheld.feeds_eq
  rw [hkept] at hreaches hnative' hmethod' hlines
  rw [htext] at hlines
  have hbehind := reaches_behind hrest hpending hc.1 hnative hmethod after
  have hbehind' := reaches_behind hrest hpending he.1 hnative' hmethod' after
  rw [hlines] at hbehind'
  calc s.readFrom (methodText head parameters m.trailer ++ ';' :: after)
      = s.dropPending.readFrom (methodText head parameters m.trailer ++ ';' :: after) := by
        rw [hannotated, List.cons_append, s.readFrom_dropPending hd]
    _ = (s.dropPending.behind method (feeds (c :: t))).readFrom after :=
        (hreaches.trans hbehind').readFrom_eq
    _ = .ok contents := by rw [← hbehind.readFrom_eq, hstart]

end Scan

/-- Annotations in front of a native method or of its words change nothing in what a file holds: its
segments, its skipped methods and all their lines are the same. -/
theorem read_annotated {m : NativeText} {head : Text} {parameters : List Text}
    (h : m.Annotated IsWritten head parameters) {before after : Text} {s : Scan}
    (hbefore : Scan.Reaches .start (before ++ (m.text ++ ';' :: after)) s (m.text ++ ';' :: after))
    (hs : s.AtRest) {contents : Contents}
    (hread : read (before ++ (m.text ++ ';' :: after)) = .ok contents) :
    read (before ++ (methodText head parameters m.trailer ++ ';' :: after)) = .ok contents := by
  obtain ⟨c, d, t, u, htext, hannotated, hc, -, hcd⟩ := h.exists_cons fun a ha => ha.1.head?_eq
  rw [Scan.read_eq_readFrom, hbefore.readFrom_eq] at hread
  have hsame := Scan.readFrom_annotated h hs hread
  rw [htext, List.cons_append] at hbefore
  have hmoved := hbefore.ahead (v := u ++ ';' :: after) hc.1 hcd
  rw [hannotated, List.cons_append] at hsame ⊢
  rw [Scan.read_eq_readFrom, hmoved.readFrom_eq, hsame]

/-- A static method of two parameters. -/
def findMethod : NativeText where
  head := "static native int find".toList
  parameters := ["int a".toList, " Map<K, V> b".toList]
  trailer := []
  starts := by decide
  native := by decide +kernel
  bare := by
    simp only [← List.all_eq_true]
    decide
  level := by unfold EndsLevel; decide

def findFile : Text := "class C \x7b static native int find(int a, Map<K, V> b); /*1*/ \x7d".toList

/-- The method with annotations before its modifiers, its type and the types of its parameters. -/
def annotatedFile : Text :=
  ("class C \x7b @A(x=\x7b(\")\")\x7d) static @B.c native @D int find(@E() int a, " ++
    "@F('(') Map<K, V> b); /*1*/ \x7d").toList

def findContents : Contents where
  segments := [.declared ⟨['C'], "find".toList, true,
    [⟨['a'], .read "int".toList⟩, ⟨['b'], .read "Map<K, V>".toList⟩], ['1'], 1, 1, 1⟩]
  skipped := []

theorem findFile_annotated :
    read findFile = .ok findContents ∧ read annotatedFile = .ok findContents := by
  have hread : read findFile = .ok findContents := eq_ok_of_toOption (by decide +kernel)
  let no : Outline.Blanks := ⟨[], List.all_eq_true.mp rfl⟩
  have hnested : Arguments "x=\x7b(\")\")\x7d".toList :=
    .plain rfl (by decide) (by decide) <| .plain rfl (by decide) (by decide) <|
      .braces (.parens (.literal (.inl rfl) (.plain ')' (by decide) .nil) (by simp) .nil) .nil) .nil
  have hliteral : Arguments "'('".toList :=
    .literal (.inr rfl) (.plain '(' (by decide) .nil) (by simp) .nil
  have hwritten (n : AnnotationName) (hn : '\n' ∉ n.text) : IsWritten n.text := ⟨.bare n, hn⟩
  have hlist (n : AnnotationName) {inside : Text} (h : Arguments inside)
      (hn : '\n' ∉ n.text ++ (no.text ++ '(' :: (inside ++ [')']))) :
      IsWritten (n.text ++ (no.text ++ '(' :: (inside ++ [')']))) := ⟨.applied n no h, hn⟩
  let a : AnnotationName := ⟨no, ['A'], by decide, List.all_eq_true.mp (by decide)⟩
  let b : AnnotationName := ⟨no, "B.c".toList, by decide, List.all_eq_true.mp (by decide)⟩
  let d : AnnotationName := ⟨no, ['D'], by decide, List.all_eq_true.mp (by decide)⟩
  let e : AnnotationName := ⟨no, ['E'], by decide, List.all_eq_true.mp (by decide)⟩
  let f : AnnotationName := ⟨no, ['F'], by decide, List.all_eq_true.mp (by decide)⟩
  have hhead : Adorned IsWritten findMethod.head
      "@A(x=\x7b(\")\")\x7d) static @B.c native @D int find".toList := by
    have hint := @Adorned.one _ _ "int".toList " find".toList _ (hwritten d (by decide))
      (by decide) (isBlank_of_all (by decide)) rfl (.refl _)
    have hnative := @Adorned.one _ _ "native".toList _ _ (hwritten b (by decide))
      (by decide) (isBlank_of_all (by decide)) rfl (.blank (c := ' ') rfl hint)
    exact @Adorned.one _ _ "static".toList _ _ (hlist a hnested (by decide))
      (by decide) (isBlank_of_all (by decide)) rfl (.blank (c := ' ') rfl hnative)
  have hparameters : List.Forall₂ (Adorned IsWritten) findMethod.parameters
      ["@E() int a".toList, " @F('(') Map<K, V> b".toList] := by
    have hint := @Adorned.one _ _ "int".toList " a".toList _ (hlist e .nil (by decide))
      (by decide) (isBlank_of_all (by decide)) rfl (.refl _)
    have hword : ∀ c ∈ "Map<K,".toList, isBlank c = false := by
      simp only [← Bool.not_eq_true', ← List.all_eq_true]
      decide
    have hmap := @Adorned.one _ _ "Map<K,".toList " V> b".toList _ (hlist f hliteral (by decide))
      (by decide) hword rfl (.refl _)
    exact .cons hint (.cons (.blank (c := ' ') rfl hmap) .nil)
  have hbefore : Scan.Reaches .start findFile
      ((Scan.start.takeAll "class C ".toList).openScope.blank ' ')
      (findMethod.text ++ "; /*1*/ \x7d".toList) :=
    (Scan.reaches_takeAll .start "class C ".toList _ rfl (List.all_eq_true.mp rfl)).trans
      (.step (lexeme?_ordinary '{' _ rfl (by decide)) rfl
        (.step (lexeme?_blank ' ' _ rfl) rfl (.refl _ _)))
  have hrest : Scan.AtRest ((Scan.start.takeAll "class C ".toList).openScope.blank ' ') :=
    ⟨List.all_eq_true.mp rfl, rfl, rfl⟩
  exact ⟨hread, @read_annotated findMethod _ _ ⟨hhead, hparameters⟩ "class C \x7b ".toList
    " /*1*/ \x7d".toList _ hbefore hrest _ hread⟩

end NativeGlue.Source
