import Mathlib.Data.List.Forall2
import NativeGlue.Proofs.Source.Reading
import NativeGlue.Proofs.Traversal

/-!
What becomes of native methods. A scan that reaches a semicolon behind a native statement gets
one outcome for it, which the text after the semicolon decides: a plain block comment that comes
first is the method's code, and anything else leaves the method without. A whole reading has
these outcomes and no others. The invariant is that the scan has recorded the outcomes of all
native statements so far except that of its pending method, which the text ahead decides.
-/

namespace NativeGlue.Source

open Text

/-- A native statement that a scan has closed: the class around it, the line of its semicolon
and the text behind that. -/
structure NativeStatement where
  owner : Option Text
  statement : Statement
  line : Int
  after : Text
  deriving DecidableEq, Repr

/-- The native statements that a scan closes in the rest of a file. -/
def nativeStatementsFrom (s : Scan) : Text → List NativeStatement
  | [] => []
  | c :: rest =>
    match h : lexeme? c rest with
    | .error _ => []
    | .ok (l, tail) =>
      have : tail.length < rest.length + 1 := length_of_lexeme? h
      match s.read l with
      | .error _ => []
      | .ok next =>
        if l = .mark ';' && isNativeStatement s.statement.text then
          ⟨s.owner, s.statement, s.line, tail⟩ :: nativeStatementsFrom next tail
        else nativeStatementsFrom next tail
termination_by t => t.length
decreasing_by all_goals exact this

/-- The native statements of a source file, in their order. -/
def nativeStatements (t : Text) : List NativeStatement := nativeStatementsFrom .start t

/-- The code at the start of a text: a block comment, with nothing but blanks before it. -/
def codeAhead? (t : Text) : Option Text :=
  match skipBlanks t with
  | '/' :: '*' :: rest => (commentBody? rest).bind fun found =>
      if isCode found.1 then some found.1 else none
  | _ => none

/-- What becomes of a native method. -/
inductive Outcome where
  | declared (declaration : Declaration)
  | skipped (method : Skipped)
  deriving DecidableEq, Repr

namespace Outcome

def declaration? : Outcome → Option Declaration
  | declared d => some d
  | skipped _ => none

def skipped? : Outcome → Option Skipped
  | declared _ => none
  | skipped s => some s

/-- The outcome for a method whose statement ends on the given line before the given text. -/
def of (m : NativeMethod) (line : Int) (t : Text) : Outcome :=
  match codeAhead? t with
  | some code =>
    let startLine := line + feeds (t.takeWhile isBlank)
    declared
      { className := m.className
        methodName := m.methodName
        isStatic := m.isStatic
        parameters := m.parameters
        code := code
        startLine := startLine
        endLine := startLine + feeds code
        signatureLine := m.line }
  | none => skipped ⟨m.line, m.className, m.methodName⟩

end Outcome

/-- The statement declares a method of the class around it, whose outcome this is. -/
def NativeStatement.Yields (n : NativeStatement) (o : Outcome) : Prop :=
  ∃ m, readNativeMethod n.owner n.statement.line n.statement.text = .ok m ∧
    n.owner = some m.className ∧ m.line = n.statement.line ∧ o = Outcome.of m n.line n.after

theorem codeAhead?_blank (c : Char) (rest : Text) (h : isBlank c = true) :
    codeAhead? (c :: rest) = codeAhead? rest := by
  unfold codeAhead? skipBlanks
  rw [List.dropWhile_cons_of_pos h]

theorem codeAhead?_comment (rest body tail : Text) (h : commentBody? rest = some (body, tail)) :
    codeAhead? ('/' :: '*' :: rest) = if isCode body then some body else none := by
  have hskip : skipBlanks ('/' :: '*' :: rest) = '/' :: '*' :: rest := rfl
  unfold codeAhead?
  simp only [hskip, h, Option.bind_some]

theorem codeAhead?_other (c : Char) (rest : Text) (hblank : isBlank c = false)
    (hopen : ∀ after, c :: rest ≠ '/' :: '*' :: after) : codeAhead? (c :: rest) = none := by
  have hskip : skipBlanks (c :: rest) = c :: rest := by
    rw [skipBlanks, List.dropWhile_cons_of_neg (by simp [hblank])]
  unfold codeAhead?
  rw [hskip]
  split
  · next after heq => exact absurd heq (hopen after)
  · rfl

/-- The lexeme at the start of a text, as far as it tells whether code comes next. -/
theorem codeAhead?_of_lexeme {c : Char} {rest tail : Text} {l : Lexeme}
    (h : lexeme? c rest = .ok (l, tail)) :
    codeAhead? (c :: rest) = match l with
      | .blank _ => codeAhead? tail
      | .comment body => if isCode body then some body else none
      | _ => none := by
  unfold lexeme? at h
  split at h
  · next hblank =>
    cases h
    exact codeAhead?_blank c rest hblank
  next hblank =>
  have hblank : isBlank c = false := by simpa using hblank
  split at h
  · split at h
    · next hbody =>
      cases h
      exact codeAhead?_comment _ _ _ hbody
    · cases h
  · cases h
    exact codeAhead?_other _ _ hblank (by simp)
  · split at h
    · cases h
      exact codeAhead?_other _ _ hblank (by simp)
    · cases h
  · next hcomment _ _ =>
    have hopen : ∀ after, c :: rest ≠ '/' :: '*' :: after := by
      rintro after heq
      cases heq
      exact hcomment after rfl rfl
    split at h
    · split at h
      · cases h
        exact codeAhead?_other c rest hblank hopen
      · cases h
    · cases h
      exact codeAhead?_other c rest hblank hopen

abbrev Record := List Declaration × List Skipped

/-- A record with further outcomes at its end. -/
def Record.add (r : Record) (outcomes : List Outcome) : Record :=
  (r.1 ++ outcomes.filterMap Outcome.declaration?, r.2 ++ outcomes.filterMap Outcome.skipped?)

theorem Record.add_add (r : Record) (before after : List Outcome) :
    (r.add before).add after = r.add (before ++ after) := by
  simp only [add, List.filterMap_append, List.append_assoc]

theorem Record.add_nil (r : Record) : r.add [] = r := by
  simp [add]

namespace Scan

/-- The outcomes that a scan has recorded. -/
def record (s : Scan) : Record := (s.segments.filterMap Segment.declaration?, s.skipped)

/-- The recorded outcomes, and that of the pending method before the text ahead. -/
def recordBefore (s : Scan) (t : Text) : Record :=
  s.record.add (s.pending.toList.map fun m => .of m s.line t)

theorem recordBefore_of_none (s : Scan) (t : Text) (h : s.pending = none) :
    s.recordBefore t = s.record := by
  rw [recordBefore, h]
  exact Record.add_nil _

/-- Without code ahead the pending method is recorded as skipped. -/
theorem record_dropPending (s : Scan) (t : Text) (h : codeAhead? t = none) :
    s.dropPending.record = s.recordBefore t := by
  unfold dropPending
  cases hpending : s.pending with
  | none => rw [recordBefore_of_none s t hpending]
  | some m =>
    simp [recordBefore, record, Record.add, hpending, Outcome.of, h, Outcome.declaration?,
      Outcome.skipped?]

theorem outcome_blank (m : NativeMethod) (line : Int) (c : Char) (rest : Text)
    (h : isBlank c = true) : Outcome.of m line (c :: rest) =
      Outcome.of m (if c = '\n' then line + 1 else line) rest := by
  have hline : line + feeds ((c :: rest).takeWhile isBlank) =
      (if c = '\n' then line + 1 else line) + feeds (rest.takeWhile isBlank) := by
    rw [List.takeWhile_cons_of_pos h]
    unfold feeds
    by_cases hc : c = '\n'
    · rw [hc, List.count_cons_self, if_pos rfl]
      omega
    · rw [List.count_cons_of_ne hc, if_neg hc]
  unfold Outcome.of
  rw [codeAhead?_blank c rest h, hline]

theorem recordBefore_blank (s : Scan) (c : Char) (rest : Text) (h : isBlank c = true) :
    (s.blank c).recordBefore rest = s.recordBefore (c :: rest) := by
  simp only [recordBefore, outcome_blank _ _ c rest h]
  rfl

/-- A comment settles the pending method, as code or by giving it up. -/
theorem record_comment (s : Scan) (rest body tail : Text)
    (h : commentBody? rest = some (body, tail)) :
    (s.comment body).pending = none ∧
      (s.comment body).record = s.recordBefore ('/' :: '*' :: rest) := by
  have hcode := codeAhead?_comment rest body tail h
  cases htag : dropStart? rawTag body with
  | some code =>
    rw [if_neg (by simp [isCode_eq_false_of_tagged htag])] at hcode
    have hdrop := s.record_dropPending _ hcode
    simp only [comment, commentSegment, htag, ← hdrop]
    exact ⟨s.dropPending_pending, by simp [record, addSegment, Segment.declaration?]⟩
  | none =>
    rw [isCode_of_untagged htag] at hcode
    cases hpending : s.pending with
    | none =>
      simp only [comment, commentSegment, htag, hpending, recordBefore_of_none s _ hpending,
        true_and]
      rfl
    | some m =>
      by_cases hstar : body.head? = some '*'
      · rw [if_neg (by simp [hstar])] at hcode
        have hdrop := s.record_dropPending _ hcode
        simp only [comment, commentSegment, htag, hpending, hstar, if_true, ← hdrop]
        exact ⟨s.dropPending_pending, rfl⟩
      · rw [if_pos (by simp [hstar])] at hcode
        have hblanks : ('/' :: '*' :: rest).takeWhile isBlank = [] := rfl
        simp only [comment, commentSegment, htag, hpending, hstar, if_false]
        refine ⟨rfl, ?_⟩
        simp [recordBefore, record, Record.add, addSegment, hpending, Outcome.of, hcode,
          hblanks, Outcome.declaration?, Outcome.skipped?, Segment.declaration?, declarationOf,
          feeds]

/-- What a native method is read from. -/
theorem readNativeMethod_cases {owner : Option Text} {line : Int} {statement : Text}
    {m : NativeMethod} (h : readNativeMethod owner line statement = .ok m) :
    owner = some m.className ∧ m.line = line ∧ ∃ (head : MethodHead) (modifiers : List Text),
      methodName (eraseAnnotations statement) head.words = .ok (m.methodName, modifiers) ∧
      (splitParameters head.parameters).mapM readParameter = .ok m.parameters := by
  unfold readNativeMethod at h
  simp only [bind_eq_ok_iff] at h
  obtain ⟨head, -, -, -, ⟨name, modifiers⟩, hname, h⟩ := h
  cases owner with
  | none => cases h
  | some className =>
    obtain ⟨parameters, hparameters, h⟩ := (bind_eq_ok_iff _ _ _).mp h
    cases h
    exact ⟨rfl, rfl, head, modifiers, hname, hparameters⟩

/-- A semicolon makes the method of a native statement pending, and nothing else does. -/
theorem recordBefore_endStatement (s next : Scan) (tail : Text) (hpending : s.pending = none)
    (h : s.endStatement = .ok next) :
    ∃ here, next.recordBefore tail = s.record.add here ∧
      List.Forall₂ NativeStatement.Yields
        (if isNativeStatement s.statement.text then [⟨s.owner, s.statement, s.line, tail⟩] else [])
        here := by
  unfold endStatement at h
  cases hnative : isNativeStatement s.statement.text with
  | false =>
    simp only [hnative, Bool.false_eq_true, if_false, Except.ok.injEq] at h
    have hnone : next.pending = none := h ▸ hpending
    have hrecord : next.record = s.record := h ▸ rfl
    exact ⟨[], by rw [next.recordBefore_of_none tail hnone, hrecord, Record.add_nil], .nil⟩
  | true =>
    cases hmethod : readNativeMethod s.owner s.statement.line s.statement.text with
    | error fault => simp [hnative, hmethod] at h
    | ok m =>
      simp only [hnative, hmethod, if_true, Except.ok.injEq] at h
      obtain ⟨howner, hline, -⟩ := readNativeMethod_cases hmethod
      refine ⟨[.of m s.line tail], ?_, .cons ⟨m, hmethod, howner, hline, rfl⟩ .nil⟩
      rw [← h]
      rfl

/-- Only a semicolon changes what a scan waits for, once nothing is pending. -/
theorem recordBefore_mark (s next : Scan) (c : Char) (tail : Text) (hpending : s.pending = none)
    (hc : c ≠ ';') (h : s.mark c = .ok next) : next.recordBefore tail = s.record := by
  have hkept : next.pending = none ∧ next.record = s.record := by
    unfold mark at h
    rw [if_neg hc] at h
    split at h
    · cases h
      exact ⟨hpending, rfl⟩
    · split at h
      · unfold closeScope at h
        split at h
        · cases h
        · cases h
          exact ⟨hpending, rfl⟩
      · cases h
        exact ⟨hpending, rfl⟩
  rw [next.recordBefore_of_none tail hkept.1, hkept.2]

/-- One lexeme: what is recorded grows by the outcome of the native statement that it closes. -/
theorem recordBefore_read (s next : Scan) {c : Char} {rest tail : Text} {l : Lexeme}
    (hlexeme : lexeme? c rest = .ok (l, tail)) (h : s.read l = .ok next) :
    ∃ here, next.recordBefore tail = (s.recordBefore (c :: rest)).add here ∧
      List.Forall₂ NativeStatement.Yields
        (if l = .mark ';' && isNativeStatement s.statement.text then
          [⟨s.owner, s.statement, s.line, tail⟩] else []) here := by
  have hcode := codeAhead?_of_lexeme hlexeme
  cases l with
  | blank d =>
    obtain ⟨rfl, rfl, hblank⟩ := eq_of_lexeme?_blank hlexeme
    cases h
    exact ⟨[], by rw [recordBefore_blank s d tail hblank, Record.add_nil], .nil⟩
  | comment body =>
    obtain ⟨after, rfl, rfl, hbody⟩ := eq_of_lexeme?_comment hlexeme
    cases h
    obtain ⟨hnone, hrecord⟩ := s.record_comment after body tail hbody
    exact ⟨[], by rw [recordBefore_of_none _ _ hnone, hrecord, Record.add_nil], .nil⟩
  | lineComment _ | literal _ _ | textBlock _ =>
    cases h
    refine ⟨[], ?_, .nil⟩
    rw [Record.add_nil, ← s.record_dropPending _ hcode]
    exact recordBefore_of_none _ _ s.dropPending_pending
  | mark d =>
    rw [← s.record_dropPending _ hcode]
    obtain ⟨hline, hstatement, hscopes, -⟩ := s.dropPending_fields
    have howner : s.dropPending.owner = s.owner := by rw [owner, hscopes]; rfl
    by_cases hd : d = ';'
    · subst hd
      have hclosed := recordBefore_endStatement s.dropPending next tail s.dropPending_pending h
      simpa only [hline, hstatement, howner, decide_true, Bool.true_and] using hclosed
    · refine ⟨[], ?_, ?_⟩
      · rw [Record.add_nil]
        exact recordBefore_mark s.dropPending next d tail s.dropPending_pending hd h
      · simp [hd]

/-- The rest of a file: what is recorded grows by the outcomes of its native statements. -/
theorem record_readFrom (s : Scan) (t : Text) (contents : Contents)
    (h : s.readFrom t = .ok contents) :
    ∃ outcomes, List.Forall₂ NativeStatement.Yields (nativeStatementsFrom s t) outcomes ∧
      (contents.declarations, contents.skipped) = (s.recordBefore t).add outcomes := by
  fun_induction nativeStatementsFrom s t with
  | case1 s =>
    rw [readFrom_nil] at h
    cases h
    refine ⟨[], .nil, ?_⟩
    rw [Record.add_nil, ← s.record_dropPending [] rfl]
    rfl
  | case2 s c rest fault hlexeme =>
    rw [s.readFrom_of_error hlexeme] at h
    cases h
  | case3 s c rest l tail hlexeme _ problem hread =>
    rw [s.readFrom_of_ok hlexeme, hread] at h
    cases h
  | case4 s c rest l tail hlexeme _ next hread hclosing ih =>
    rw [s.readFrom_of_read hlexeme hread] at h
    obtain ⟨outcomes, hyields, hrecord⟩ := ih h
    obtain ⟨here, hhere, hclosed⟩ := recordBefore_read s next hlexeme hread
    rw [if_pos hclosing] at hclosed
    exact ⟨here ++ outcomes, List.rel_append hclosed hyields,
      by rw [hrecord, hhere, Record.add_add]⟩
  | case5 s c rest l tail hlexeme _ next hread hclosing ih =>
    rw [s.readFrom_of_read hlexeme hread] at h
    obtain ⟨outcomes, hyields, hrecord⟩ := ih h
    obtain ⟨here, hhere, hclosed⟩ := recordBefore_read s next hlexeme hread
    rw [if_neg hclosing] at hclosed
    exact ⟨here ++ outcomes, List.rel_append hclosed hyields,
      by rw [hrecord, hhere, Record.add_add]⟩

end Scan

/-- The native statements are those that a scan has before a semicolon. -/
theorem mem_nativeStatementsFrom_iff (s : Scan) (t : Text) (contents : Contents)
    (h : s.readFrom t = .ok contents) (n : NativeStatement) :
    n ∈ nativeStatementsFrom s t ↔ ∃ last : Scan, Scan.Reaches s t last (';' :: n.after) ∧
      isNativeStatement last.statement.text = true ∧
      n = ⟨last.owner, last.statement, last.line, n.after⟩ := by
  fun_induction nativeStatementsFrom s t with
  | case1 s =>
    constructor
    · intro hn
      cases hn
    · rintro ⟨last, hreaches, -⟩
      cases hreaches
  | case2 s c rest fault hlexeme =>
    rw [s.readFrom_of_error hlexeme] at h
    cases h
  | case3 s c rest l tail hlexeme _ problem hread =>
    rw [s.readFrom_of_ok hlexeme, hread] at h
    cases h
  | case4 s c rest l tail hlexeme _ next hread hclosing ih =>
    rw [s.readFrom_of_read hlexeme hread] at h
    simp only [Bool.and_eq_true, decide_eq_true_eq] at hclosing
    obtain ⟨rfl, hnative⟩ := hclosing
    obtain ⟨rfl, rfl⟩ := eq_of_lexeme?_mark hlexeme
    rw [List.mem_cons, ih h]
    simp only [Scan.reaches_cons_iff hlexeme hread]
    constructor
    · rintro (rfl | ⟨last, hreaches, hlast⟩)
      · exact ⟨s, .inl ⟨rfl, rfl⟩, hnative, rfl⟩
      · exact ⟨last, .inr hreaches, hlast⟩
    · rintro ⟨last, ⟨rfl, hafter⟩ | hreaches, hlast⟩
      · exact .inl ((List.cons.inj hafter).2 ▸ hlast.2)
      · exact .inr ⟨last, hreaches, hlast⟩
  | case5 s c rest l tail hlexeme _ next hread hclosing ih =>
    rw [s.readFrom_of_read hlexeme hread] at h
    rw [ih h]
    simp only [Scan.reaches_cons_iff hlexeme hread]
    constructor
    · rintro ⟨last, hreaches, hlast⟩
      exact ⟨last, .inr hreaches, hlast⟩
    · rintro ⟨last, ⟨rfl, hafter⟩ | hreaches, hlast⟩
      · obtain ⟨rfl, rfl⟩ := List.cons.inj hafter
        rw [lexeme?_semicolon] at hlexeme
        cases hlexeme
        simp [hlast.1] at hclosing
      · exact ⟨last, hreaches, hlast⟩

theorem semicolon_suffix_of_mem (s : Scan) (t : Text) (contents : Contents)
    (h : s.readFrom t = .ok contents) (n : NativeStatement) (hn : n ∈ nativeStatementsFrom s t) :
    ';' :: n.after <:+ t := by
  obtain ⟨last, hreaches, -⟩ := (mem_nativeStatementsFrom_iff s t contents h n).mp hn
  exact hreaches.suffix

/-- Each native statement is closed behind the one before it. -/
theorem nativeStatementsFrom_pairwise (s : Scan) (t : Text) (contents : Contents)
    (h : s.readFrom t = .ok contents) :
    (nativeStatementsFrom s t).Pairwise fun m n => ';' :: n.after <:+ m.after := by
  fun_induction nativeStatementsFrom s t with
  | case1 s => exact .nil
  | case2 s c rest fault hlexeme => exact .nil
  | case3 s c rest l tail hlexeme _ problem hread => exact .nil
  | case4 s c rest l tail hlexeme _ next hread hclosing ih =>
    rw [s.readFrom_of_read hlexeme hread] at h
    exact .cons (semicolon_suffix_of_mem next tail contents h) (ih h)
  | case5 s c rest l tail hlexeme _ next hread hclosing ih =>
    rw [s.readFrom_of_read hlexeme hread] at h
    exact ih h

theorem length_filterMap_outcomes (outcomes : List Outcome) :
    (outcomes.filterMap Outcome.declaration?).length +
      (outcomes.filterMap Outcome.skipped?).length = outcomes.length := by
  induction outcomes with
  | nil => rfl
  | cons o outcomes ih =>
    cases o <;>
      simp only [List.filterMap_cons, Outcome.declaration?, Outcome.skipped?, List.length_cons] <;>
      omega

/-- Every native statement of a source file yields exactly one outcome and nothing else yields
one: the declarations read and the methods skipped are the outcomes in the order of their
statements, which are those that the scan has when it meets a semicolon. -/
theorem read_outcomes (t : Text) (contents : Contents) (h : Source.read t = .ok contents) :
    (∀ n, n ∈ nativeStatements t ↔ ∃ s : Scan, Scan.Reaches .start t s (';' :: n.after) ∧
      isNativeStatement s.statement.text = true ∧
      n = ⟨s.owner, s.statement, s.line, n.after⟩) ∧
    (nativeStatements t).Pairwise (fun m n => ';' :: n.after <:+ m.after) ∧
    ∃ outcomes, List.Forall₂ NativeStatement.Yields (nativeStatements t) outcomes ∧
      contents.declarations = outcomes.filterMap Outcome.declaration? ∧
      contents.skipped = outcomes.filterMap Outcome.skipped? ∧
      contents.declarations.length + contents.skipped.length = (nativeStatements t).length := by
  refine ⟨mem_nativeStatementsFrom_iff .start t contents h,
    nativeStatementsFrom_pairwise .start t contents h, ?_⟩
  obtain ⟨outcomes, hyields, hrecord⟩ := Scan.record_readFrom .start t contents h
  rw [Scan.recordBefore_of_none _ _ rfl] at hrecord
  have hdeclared : contents.declarations = outcomes.filterMap Outcome.declaration? :=
    congrArg Prod.fst hrecord
  have hskipped : contents.skipped = outcomes.filterMap Outcome.skipped? :=
    congrArg Prod.snd hrecord
  refine ⟨outcomes, hyields, hdeclared, hskipped, ?_⟩
  rw [hdeclared, hskipped, length_filterMap_outcomes]
  exact hyields.length_eq.symm

/-- Three native methods: one with code, one before a documentation comment and one before a
raw block. -/
def threeMethods : Text :=
  ("class A \x7b\nnative void f(); /*1*/\nnative void g(); /** doc */ /*2*/\n" ++
    "native int h(int x);\n/*JNI 3*/ \x7d").toList

def threeContents : Contents where
  segments :=
    [.declared ⟨['A'], ['f'], false, [], ['1'], 2, 2, 2⟩, .raw ⟨" 3".toList, 5⟩]
  skipped := [⟨3, ['A'], ['g']⟩, ⟨4, ['A'], ['h']⟩]

theorem threeMethods_outcomes : Source.read threeMethods = .ok threeContents ∧
    (nativeStatements threeMethods).length = 3 ∧
    ∃ outcomes, List.Forall₂ NativeStatement.Yields (nativeStatements threeMethods) outcomes ∧
      threeContents.declarations = outcomes.filterMap Outcome.declaration? ∧
      threeContents.skipped = outcomes.filterMap Outcome.skipped? := by
  have hread : Source.read threeMethods = .ok threeContents :=
    eq_ok_of_toOption (by decide +kernel)
  obtain ⟨-, -, outcomes, hyields, hdeclared, hskipped, hlength⟩ :=
    read_outcomes threeMethods threeContents hread
  exact ⟨hread, hlength.symm, outcomes, hyields, hdeclared, hskipped⟩

end NativeGlue.Source
