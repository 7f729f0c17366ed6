import NativeGlue.Proofs.Source.Annotation
import NativeGlue.Proofs.Source.Passage

/-!
Annotations in a source file. An argument list may nest parentheses and braces to any depth and
hold literals. A brace in it suspends the statement, and the closing one takes it up again, so
what the statement gets in the end is a text of the same shape: literals are empty, braces have
lost what stood between them, and parentheses are paired. A scan reads an annotation as if that
shorter text had stood there.
-/

namespace NativeGlue.Source

open Text

/-- The inside of an argument list as it is written: parentheses and braces in pairs, literals that
end, and characters that neither end a statement nor begin a comment. -/
inductive Arguments : Text → Prop
  | nil : Arguments []
  | plain {c : Char} {t : Text} (hc : isPlain c = true) (hopen : c ≠ '(') (hclose : c ≠ ')')
    (ht : Arguments t) : Arguments (c :: t)
  | literal {quote : Char} {body t : Text} (hquote : quote = '"' ∨ quote = '\'')
    (hbody : LiteralBody quote body)
    (hblock : ¬ (quote = '"' ∧ body = [] ∧ t.head? = some '"')) (ht : Arguments t) :
    Arguments (quote :: (body ++ quote :: t))
  | parens {inner t : Text} (hinner : Arguments inner) (ht : Arguments t) :
    Arguments ('(' :: (inner ++ ')' :: t))
  | braces {inner t : Text} (hinner : Arguments inner) (ht : Arguments t) :
    Arguments ('{' :: (inner ++ '}' :: t))

theorem Paired.append {t u : Text} (ht : Paired t) (hu : Paired u) : Paired (t ++ u) := by
  induction ht with
  | nil => exact hu
  | other c hopen hclose _ ih => exact .other c hopen hclose ih
  | @group inside after hinside _ _ ih =>
    rw [List.cons_append, List.append_assoc, List.cons_append]
    exact .group hinside ih

namespace Scan

theorem takeAll_append (s : Scan) (t u : Text) : s.takeAll (t ++ u) = (s.takeAll t).takeAll u :=
  List.foldl_append

theorem take_begun (s : Scan) (c : Char) (h : s.statement.begun = true) :
    (s.take c).statement.begun = true := by
  unfold take
  split
  · exact h
  · rfl

theorem takeAll_begun (s : Scan) (t : Text) (h : s.statement.begun = true) :
    (s.takeAll t).statement.begun = true := by
  induction t generalizing s with
  | nil => exact h
  | cons c t ih => exact ih (s.take c) (s.take_begun c h)

/-- The scan with another statement. -/
def holding (s : Scan) (statement : Statement) : Scan := { s with statement := statement }

@[simp] theorem holding_statement (s : Scan) (statement : Statement) :
    (s.holding statement).statement = statement := rfl

@[simp] theorem holding_holding (s : Scan) (statement later : Statement) :
    (s.holding statement).holding later = s.holding later := rfl

/-- Nothing but the statement changes within a line. -/
theorem take_eq_holding (s : Scan) {c : Char} (hc : c ≠ '\n') :
    s.take c = s.holding (s.take c).statement := by
  unfold take
  split
  · simp [blank, holding, hc]
  · rfl

/-- What a text without loose brackets makes of the statement: it is as deep as before, and inside
parentheses it is what a text with paired parentheses makes of it. -/
structure Settles (s : Scan) (statement : Statement) : Prop where
  depth_eq : statement.depth = s.statement.depth
  paired : 0 < s.statement.depth → s.statement.begun = true →
    ∃ t, Paired t ∧ '\n' ∉ t ∧ s.takeAll t = s.holding statement

theorem Settles.refl (s : Scan) : Settles s s.statement :=
  ⟨rfl, fun _ _ => ⟨[], .nil, List.not_mem_nil, rfl⟩⟩

theorem Settles.trans {s : Scan} {statement later : Statement} (h : Settles s statement)
    (hlater : Settles (s.holding statement) later) : Settles s later where
  depth_eq := hlater.depth_eq.trans h.depth_eq
  paired hdepth hbegun := by
    obtain ⟨t, ht, hfeed, heq⟩ := h.paired hdepth hbegun
    have hnext : statement.begun = true := by
      have hkept := s.takeAll_begun t hbegun
      rwa [heq] at hkept
    obtain ⟨u, hu, hfeed', heq'⟩ := hlater.paired (h.depth_eq ▸ hdepth) hnext
    refine ⟨t ++ u, ht.append hu, ?_, ?_⟩
    · rw [List.mem_append, not_or]
      exact ⟨hfeed, hfeed'⟩
    · rw [takeAll_append, heq, heq', holding_holding]

theorem take_depth (s : Scan) (c : Char) :
    (s.take c).statement.depth = depthAfter s.statement.depth c :=
  s.takeAll_depth [c]

theorem settles_take (s : Scan) {c : Char} (hopen : c ≠ '(') (hclose : c ≠ ')')
    (hfeed : c ≠ '\n') : Settles s (s.take c).statement where
  depth_eq := by rw [take_depth, depthAfter, if_neg hopen, if_neg hclose]
  paired _ _ :=
    ⟨[c], .other c hopen hclose .nil, by simpa using hfeed.symm, s.take_eq_holding hfeed⟩

theorem settles_literal (s : Scan) {quote : Char} (hquote : quote = '"' ∨ quote = '\'') :
    Settles s (s.statement.putText s.line [quote, quote]) where
  depth_eq := rfl
  paired _ hbegun := by
    refine ⟨[quote, quote], ?_, ?_, ?_⟩
    · rcases hquote with rfl | rfl <;>
        exact .other _ (by decide) (by decide) (.other _ (by decide) (by decide) .nil)
    · rcases hquote with rfl | rfl <;> decide
    · rcases hquote with rfl | rfl <;>
        simp [takeAll, take, isBlank, putMark, putText, Statement.putText, hbegun, depthAfter,
          holding]

/-- The scan behind a group in parentheses. -/
theorem take_parens_eq_holding (s : Scan) (inner : Statement) :
    ((s.take '(').holding inner).take ')' =
      s.holding (((s.take '(').holding inner).take ')').statement := by
  have hclose := take_eq_holding ((s.take '(').holding inner) (c := ')') (by decide)
  rw [hclose, holding_holding, s.take_eq_holding (c := '(') (by decide), holding_holding]
  rfl

/-- A group in parentheses, by what stands inside them one level deeper. -/
theorem settles_parens (s : Scan) {inner : Statement} (h : Settles (s.take '(') inner) :
    Settles s (((s.take '(').holding inner).take ')').statement where
  depth_eq := by
    rw [take_depth, holding_statement, h.depth_eq, take_depth]
    exact Nat.add_sub_cancel s.statement.depth 1
  paired hdepth hbegun := by
    have hdeeper : 0 < (s.take '(').statement.depth := by
      rw [take_depth]
      exact Nat.succ_pos _
    obtain ⟨t, ht, hfeed, heq⟩ := h.paired hdeeper (s.take_begun '(' hbegun)
    refine ⟨'(' :: (t ++ [')']), .group ht .nil, ?_, ?_⟩
    · simp [hfeed]
    · have hgroup : s.takeAll ('(' :: (t ++ [')'])) = ((s.take '(').takeAll t).take ')' :=
        takeAll_append (s.take '(') t [')']
      rw [hgroup, heq]
      exact s.take_parens_eq_holding inner

/-- The statement behind a closing brace, where `inner` is the one that ends with it. -/
def closed (s : Scan) (inner : Statement) : Statement :=
  if s.statement.depth > 0 then s.statement.resume else inner.clear

/-- A group in braces leaves only the braces. -/
theorem settles_braces (s : Scan) (inner : Statement) : Settles s (s.closed inner) where
  depth_eq := by
    unfold closed
    split
    · rfl
    · next hdepth => exact (Nat.eq_zero_of_not_pos hdepth).symm
  paired hdepth hbegun := by
    refine ⟨"\x7b\x7d".toList, ?_, by decide, ?_⟩
    · exact .other _ (by decide) (by decide) (.other _ (by decide) (by decide) .nil)
    · rw [closed, if_pos hdepth]
      simp [takeAll, take, isBlank, putMark, putText, Statement.putText, Statement.resume, hbegun,
        depthAfter, holding]

/-- A brace that opens and the one that closes it, with a text between that leaves the scopes as
they were. -/
theorem reaches_braces (s : Scan) (inner : Statement) {t rest : Text} (hpending : s.pending = none)
    (h : Reaches s.openScope (t ++ '}' :: rest) (s.openScope.holding inner) ('}' :: rest)) :
    Reaches s ('{' :: (t ++ '}' :: rest)) (s.holding (s.closed inner)) rest := by
  have hopen : s.read (.mark '{') = .ok s.openScope := by
    rw [read, s.dropPending_of_none hpending]
    rfl
  have hclose : (s.openScope.holding inner).read (.mark '}') =
      .ok (s.holding (s.closed inner)) := by
    have hkept : (s.openScope.holding inner).dropPending = s.openScope.holding inner :=
      dropPending_of_none _ hpending
    rw [read, hkept]
    have hmark : (s.openScope.holding inner).mark '}' = (s.openScope.holding inner).closeScope :=
      rfl
    rw [hmark]
    by_cases hdepth : s.statement.depth > 0 <;>
      simp [closeScope, openScope, holding, closed, hdepth]
  exact .step (lexeme?_ordinary '{' _ (by decide) (by decide)) hopen
    (h.trans (.step (lexeme?_ordinary '}' _ (by decide) (by decide)) hclose (.refl _ _)))

/-- A scan gets through an argument list, whatever it nests. -/
theorem reaches_arguments {t : Text} (h : Arguments t) (s : Scan) (hpending : s.pending = none)
    (hfeed : '\n' ∉ t) (rest : Text) (hrest : rest.head? ≠ some '"') :
    ∃ statement, Settles s statement ∧ Reaches s (t ++ rest) (s.holding statement) rest := by
  induction h generalizing s rest with
  | nil => exact ⟨s.statement, .refl s, .refl _ _⟩
  | @plain c t hc hopen hclose ht ih =>
    obtain ⟨hne, hlater⟩ := not_or.mp (List.mem_cons.not.mp hfeed)
    have hfirst := s.reaches_take c (t ++ rest) hpending hc
    rw [s.take_eq_holding (Ne.symm hne)] at hfirst
    obtain ⟨statement, hsettles, hreaches⟩ :=
      ih (s.holding (s.take c).statement) hpending hlater rest hrest
    exact ⟨statement, (s.settles_take hopen hclose (Ne.symm hne)).trans hsettles,
      hfirst.trans hreaches⟩
  | @literal quote body t hquote hbody hblock ht ih =>
    have hlater : '\n' ∉ t := fun hmem => hfeed (by simp [hmem])
    have hnext : ¬ (quote = '"' ∧ body = [] ∧ (t ++ rest).head? = some '"') := by
      rintro ⟨hdouble, hempty, hhead⟩
      cases t with
      | nil => exact hrest hhead
      | cons c t => exact hblock ⟨hdouble, hempty, hhead⟩
    have hread : s.read (.literal quote body) =
        .ok (s.holding (s.statement.putText s.line [quote, quote])) := by
      rw [read, s.dropPending_of_none hpending]
      rfl
    obtain ⟨statement, hsettles, hreaches⟩ :=
      ih (s.holding (s.statement.putText s.line [quote, quote])) hpending hlater rest hrest
    refine ⟨statement, (s.settles_literal hquote).trans hsettles, ?_⟩
    rw [List.cons_append, List.append_assoc, List.cons_append]
    exact .step (lexeme?_literal quote body _ hquote hbody hnext) hread hreaches
  | @parens inner t hinner ht ihinner ih =>
    have hfeed' : '\n' ∉ inner ∧ '\n' ∉ t := by simpa using hfeed
    obtain ⟨deeper, hdeeper, hinside⟩ := ihinner (s.take '(') (by rw [take_pending, hpending])
      hfeed'.1 (')' :: (t ++ rest)) (by simp)
    have hopen := s.reaches_take '(' (inner ++ ')' :: (t ++ rest)) hpending (by decide)
    have hclose := ((s.take '(').holding deeper).reaches_take ')' (t ++ rest) hpending (by decide)
    rw [s.take_parens_eq_holding deeper] at hclose
    obtain ⟨statement, hsettles, hreaches⟩ :=
      ih (s.holding (((s.take '(').holding deeper).take ')').statement) hpending hfeed'.2 rest hrest
    refine ⟨statement, (s.settles_parens hdeeper).trans hsettles, ?_⟩
    rw [List.cons_append, List.append_assoc, List.cons_append]
    exact (hopen.trans hinside).trans (hclose.trans hreaches)
  | @braces inner t hinner ht ihinner ih =>
    have hfeed' : '\n' ∉ inner ∧ '\n' ∉ t := by simpa using hfeed
    obtain ⟨ended, -, hinside⟩ := ihinner s.openScope hpending hfeed'.1 ('}' :: (t ++ rest))
      (by simp)
    obtain ⟨statement, hsettles, hreaches⟩ :=
      ih (s.holding (s.closed ended)) hpending hfeed'.2 rest hrest
    refine ⟨statement, (s.settles_braces ended).trans hsettles, ?_⟩
    rw [List.cons_append, List.append_assoc, List.cons_append]
    exact (s.reaches_braces ended hpending hinside).trans hreaches

theorem isPlain_of_mem_name (n : AnnotationName) : ∀ c ∈ n.text, isPlain c = true := by
  have hblank := isPlain_of isBlank (by decide)
  have hpart := isPlain_of isDottedNamePart (by decide)
  rw [AnnotationName.text, List.forall_mem_cons, List.forall_mem_append]
  exact ⟨rfl, fun c hc => hblank c (n.gap.blank c hc), fun c hc => hpart c (n.parts c hc)⟩

/-- A scan reads an annotation as one whose parentheses are paired and whose literals and braces
are empty. -/
theorem reaches_annotation {note : Text} (h : IsAnnotation Arguments note)
    (hfeed : '\n' ∉ note) (s : Scan) (hpending : s.pending = none) (rest : Text) :
    ∃ held, IsAnnotation Paired held ∧ '\n' ∉ held ∧
      Reaches s (note ++ rest) (s.takeAll held) rest := by
  cases h with
  | bare n =>
    exact ⟨n.text, .bare n, hfeed, s.reaches_takeAll n.text rest hpending (isPlain_of_mem_name n)⟩
  | @applied n gap inside hinside =>
    have hparts : '\n' ∉ n.text ∧ '\n' ∉ gap.text ∧ '\n' ∉ inside := by simpa using hfeed
    have hblank := isPlain_of isBlank (by decide)
    have hplain : ∀ c ∈ n.text ++ gap.text, isPlain c = true :=
      List.forall_mem_append.mpr ⟨isPlain_of_mem_name n, fun c hc => hblank c (gap.blank c hc)⟩
    have hname := s.reaches_takeAll (n.text ++ gap.text) ('(' :: (inside ++ ')' :: rest)) hpending
      hplain
    have hnone : (s.takeAll (n.text ++ gap.text)).pending = none :=
      (s.takeAll_pending _).trans hpending
    generalize hnamed : s.takeAll (n.text ++ gap.text) = named at hname hnone
    have hopen := named.reaches_take '(' (inside ++ ')' :: rest) hnone (by decide)
    obtain ⟨statement, hsettles, hinner⟩ := reaches_arguments hinside (named.take '(')
      (by rw [take_pending, hnone]) hparts.2.2 (')' :: rest) (by simp)
    have hdepth : 0 < (named.take '(').statement.depth := by
      rw [take_depth]
      exact Nat.succ_pos _
    obtain ⟨t, ht, hkept, heq⟩ := hsettles.paired hdepth rfl
    rw [← heq] at hinner
    have hclose := ((named.take '(').takeAll t).reaches_take ')' rest
      ((takeAll_pending _ t).trans (by rw [take_pending, hnone])) (by decide)
    refine ⟨n.text ++ (gap.text ++ '(' :: (t ++ [')'])), .applied n gap ht, ?_, ?_⟩
    · simp [hparts, hkept]
    · have hheld : s.takeAll (n.text ++ (gap.text ++ '(' :: (t ++ [')']))) =
          ((named.take '(').takeAll t).take ')' := by
        rw [← List.append_assoc, takeAll_append, hnamed]
        exact takeAll_append (named.take '(') t [')']
      rw [hheld]
      simpa using ((hname.trans hopen).trans hinner).trans hclose

end Scan

end NativeGlue.Source
