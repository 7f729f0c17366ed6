import NativeGlue.Proofs.Source.Lexing
import NativeGlue.Proofs.Source.Statement

/-!
Passages of a source file. A passage takes a scan from one state to another, whatever follows it,
and is known by the scopes that it leaves open, the lines that it counts and what it finds.
Passages that stand one after the other are one passage. Between items a scan is at rest: its
statement holds nothing but blanks. A native method that still waits for its code counts as
found without any, which is what becomes of it unless a comment comes next.
-/

namespace NativeGlue.Source

open Text

/-- A character that ends no statement and begins no comment or literal. -/
def isPlain (c : Char) : Bool := !(['/', '"', '\'', ';', '{', '}'].contains c)

theorem isPlain_of (P : Char → Bool)
    (hP : ['/', '"', '\'', ';', '{', '}'].any P = false) (c : Char) (hc : P c = true) :
    isPlain c = true := by
  rw [isPlain, Bool.not_eq_true', List.contains_eq_mem, decide_eq_false_iff_not]
  intro hmem
  exact List.any_eq_false.mp hP c hmem hc

theorem lexeme?_ordinary (c : Char) (rest : Text) (hblank : isBlank c = false)
    (hc : c ∉ ['/', '"', '\'']) : lexeme? c rest = .ok (.mark c, rest) := by
  simp only [List.mem_cons, List.not_mem_nil, or_false, not_or] at hc
  obtain ⟨hslash, hdouble, hsingle⟩ := hc
  exact lexeme?_mark c rest hblank hdouble hsingle fun h => hslash h.1

theorem lexeme?_mark_plain (c : Char) (rest : Text) (hblank : isBlank c = false)
    (hplain : isPlain c = true) : lexeme? c rest = .ok (.mark c, rest) := by
  refine lexeme?_ordinary c rest hblank ?_
  intro hmem
  have hspecial : isPlain c = false := by
    simp only [List.mem_cons, List.not_mem_nil, or_false] at hmem
    rcases hmem with rfl | rfl | rfl <;> rfl
  rw [hspecial] at hplain
  cases hplain

theorem foldl_depthAfter (t : Text) (depth : Nat) (h : Flat t) :
    t.foldl Scan.depthAfter depth = depth := by
  induction t with
  | nil => rfl
  | cons c t ih =>
    obtain ⟨hopen, hclose⟩ := h c List.mem_cons_self
    have hfirst : Scan.depthAfter depth c = depth := by simp [Scan.depthAfter, hopen, hclose]
    rw [List.foldl_cons, hfirst]
    exact ih fun d hd => h d (List.mem_cons_of_mem c hd)

namespace Scan

theorem finish_of_none (s : Scan) (h : s.pending = none) : s.finish = ⟨s.segments, s.skipped⟩ := by
  simp only [finish, dropPending, h]

theorem finish_dropPending (s : Scan) : s.dropPending.finish = s.finish := by
  rw [finish_of_none _ s.dropPending_pending]
  rfl

theorem dropPending_of_none (s : Scan) (h : s.pending = none) : s.dropPending = s := by
  simp only [dropPending, h]

/-- Nothing but blanks since the last statement. -/
structure AtRest (s : Scan) : Prop where
  blank : ∀ c ∈ s.statement.text, isBlank c = true
  fresh : s.statement.begun = false
  level : s.statement.depth = 0

theorem AtRest.of_clear (s : Scan) (statement : Statement) (h : s.statement = statement.clear) :
    s.AtRest where
  blank := by simp [h, Statement.clear]
  fresh := by simp [h, Statement.clear]
  level := by simp [h, Statement.clear]

theorem AtRest.putBlank (s next : Scan) (c : Char) (hs : s.AtRest) (hc : isBlank c = true)
    (h : next.statement = s.statement.putBlank c) : next.AtRest where
  blank := by
    intro d hd
    rw [h] at hd
    rcases List.mem_append.mp hd with hd | hd
    · exact hs.blank d hd
    · rwa [List.mem_singleton.mp hd]
  fresh := by
    rw [h]
    exact hs.fresh
  level := by
    rw [h]
    exact hs.level

/-- A passage from one scan to another, which has the property `P`. -/
structure Leads (P : Scan → Prop) (s : Scan) (t : Text) (next : Scan) (scopes : List Scope)
    (found : Contents) : Prop where
  reads : ∀ rest, Reaches s (t ++ rest) next rest
  state : P next
  scopes_eq : next.scopes = scopes
  line_eq : next.line = s.line + feeds t
  finish_eq : next.finish = s.finish.add found

variable {P Q : Scan → Prop}

theorem Leads.nil (s : Scan) (hs : P s) : Leads P s [] s s.scopes .none where
  reads := fun rest => .refl s rest
  state := hs
  scopes_eq := rfl
  line_eq := (Int.add_zero s.line).symm
  finish_eq := s.finish.add_none.symm

theorem Leads.trans {s next last : Scan} {t u : Text} {scopes later : List Scope}
    {found more : Contents} (h : Leads P s t next scopes found)
    (hlater : Leads Q next u last later more) :
    Leads Q s (t ++ u) last later (found.add more) where
  reads := by
    intro rest
    rw [List.append_assoc]
    exact (h.reads (u ++ rest)).trans (hlater.reads rest)
  state := hlater.state
  scopes_eq := hlater.scopes_eq
  line_eq := by
    rw [hlater.line_eq, h.line_eq, feeds_append]
    omega
  finish_eq := by rw [hlater.finish_eq, h.finish_eq, Contents.add_assoc]

/-- A passage, and one after it that leaves the scopes as they are. -/
theorem Leads.stay {s next last : Scan} {t u : Text} {scopes : List Scope}
    {found more : Contents} (h : Leads P s t next scopes found)
    (hlater : Leads Q next u last next.scopes more) :
    Leads Q s (t ++ u) last scopes (found.add more) := by
  rw [h.scopes_eq] at hlater
  exact h.trans hlater

/-- Read a character that is a blank or a plain one. -/
def take (s : Scan) (c : Char) : Scan := if isBlank c then s.blank c else s.putMark c

def takeAll (s : Scan) (t : Text) : Scan := t.foldl take s

theorem take_pending (s : Scan) (c : Char) : (s.take c).pending = s.pending := by
  unfold take
  split <;> rfl

theorem mark_plain (s : Scan) (c : Char) (hblank : isBlank c = false)
    (hplain : isPlain c = true) : s.mark c = .ok (s.take c) := by
  simp only [isPlain, Bool.not_eq_true', List.contains_eq_mem, decide_eq_false_iff_not,
    List.mem_cons, List.not_mem_nil, or_false, not_or] at hplain
  obtain ⟨-, -, -, hsemicolon, hopen, hclose⟩ := hplain
  simp only [mark, hsemicolon, hopen, hclose, take, hblank, if_false, Bool.false_eq_true]

theorem reaches_take (s : Scan) (c : Char) (rest : Text) (hpending : s.pending = none)
    (hplain : isPlain c = true) : Reaches s (c :: rest) (s.take c) rest := by
  cases hblank : isBlank c with
  | true =>
    refine .step (lexeme?_blank c rest hblank) ?_ (.refl _ _)
    simp only [read, take, hblank, if_true]
  | false =>
    refine .step (lexeme?_mark_plain c rest hblank hplain) ?_ (.refl _ _)
    rw [read, s.dropPending_of_none hpending, s.mark_plain c hblank hplain]

theorem reaches_takeAll (s : Scan) (t rest : Text) (hpending : s.pending = none)
    (hplain : ∀ c ∈ t, isPlain c = true) : Reaches s (t ++ rest) (s.takeAll t) rest := by
  induction t generalizing s with
  | nil => exact .refl s rest
  | cons c t ih =>
    have hfirst := s.reaches_take c (t ++ rest) hpending (hplain c List.mem_cons_self)
    have hnext := ih (s.take c) (by rw [take_pending, hpending])
      fun d hd => hplain d (List.mem_cons_of_mem c hd)
    exact hfirst.trans hnext

theorem takeAll_fields (s : Scan) (t : Text) : (s.takeAll t).scopes = s.scopes ∧
    (s.takeAll t).pending = s.pending ∧ (s.takeAll t).segments = s.segments ∧
    (s.takeAll t).skipped = s.skipped := by
  induction t generalizing s with
  | nil => exact ⟨rfl, rfl, rfl, rfl⟩
  | cons c t ih =>
    have hfirst : (s.take c).scopes = s.scopes ∧ (s.take c).pending = s.pending ∧
        (s.take c).segments = s.segments ∧ (s.take c).skipped = s.skipped := by
      unfold take
      split <;> exact ⟨rfl, rfl, rfl, rfl⟩
    have hnext := ih (s.take c)
    rwa [hfirst.1, hfirst.2.1, hfirst.2.2.1, hfirst.2.2.2] at hnext

theorem takeAll_pending (s : Scan) (t : Text) : (s.takeAll t).pending = s.pending :=
  (s.takeAll_fields t).2.1

theorem takeAll_text (s : Scan) (t : Text) :
    (s.takeAll t).statement.text = s.statement.text ++ t := by
  induction t generalizing s with
  | nil => exact (List.append_nil _).symm
  | cons c t ih =>
    have hfirst : (s.take c).statement.text = s.statement.text ++ [c] := by
      unfold take
      split <;> rfl
    have hnext := ih (s.take c)
    rwa [hfirst, List.append_assoc, List.singleton_append] at hnext

theorem takeAll_line (s : Scan) (t : Text) : (s.takeAll t).line = s.line + feeds t := by
  induction t generalizing s with
  | nil => exact (Int.add_zero s.line).symm
  | cons c t ih =>
    have hfirst : (s.take c).line = s.line + feeds [c] := by
      unfold take
      by_cases hc : c = '\n'
      · subst hc
        rfl
      · have hnone : feeds [c] = 0 := by simp [feeds, hc]
        rw [hnone]
        split
        · simp [blank, hc]
        · exact (Int.add_zero s.line).symm
    have hnext := ih (s.take c)
    rw [hfirst] at hnext
    rw [show feeds (c :: t) = feeds [c] + feeds t from feeds_append [c] t]
    refine hnext.trans ?_
    omega

theorem takeAll_depth (s : Scan) (t : Text) :
    (s.takeAll t).statement.depth = t.foldl depthAfter s.statement.depth := by
  induction t generalizing s with
  | nil => rfl
  | cons c t ih =>
    have hfirst : (s.take c).statement.depth = depthAfter s.statement.depth c := by
      unfold take
      split
      · next hblank =>
        have hopen : c ≠ '(' := by
          rintro rfl
          revert hblank
          decide
        have hclose : c ≠ ')' := by
          rintro rfl
          revert hblank
          decide
        simp [depthAfter, hopen, hclose, blank, Statement.putBlank]
      · rfl
    have hnext := ih (s.take c)
    rwa [hfirst] at hnext

/-- The line of a statement is that of its first character that is not blank. -/
theorem takeAll_statement_line (s : Scan) (t : Text) (h : s.statement.begun = true) :
    (s.takeAll t).statement.line = s.statement.line := by
  induction t generalizing s with
  | nil => rfl
  | cons c t ih =>
    have hfirst : (s.take c).statement.begun = true ∧
        (s.take c).statement.line = s.statement.line := by
      unfold take
      split
      · exact ⟨h, rfl⟩
      · simp [putMark, putText, Statement.putText, h]
    have hnext := ih (s.take c) hfirst.1
    rwa [hfirst.2] at hnext

/-- A statement begins on the line of its first character. -/
theorem takeAll_begins (s : Scan) (c : Char) (t : Text) (hfresh : s.statement.begun = false)
    (hblank : isBlank c = false) : (s.takeAll (c :: t)).statement.line = s.line := by
  have hfirst : (s.take c).statement.begun = true ∧ (s.take c).statement.line = s.line := by
    simp [take, hblank, putMark, putText, Statement.putText, hfresh]
  exact (takeAll_statement_line _ t hfirst.1).trans hfirst.2

theorem leads_takeAll (s : Scan) (t : Text) (hpending : s.pending = none)
    (hplain : ∀ c ∈ t, isPlain c = true) (hstate : P (s.takeAll t)) :
    Leads P s t (s.takeAll t) s.scopes .none := by
  obtain ⟨hscopes, hkept, hsegments, hskipped⟩ := s.takeAll_fields t
  refine ⟨fun rest => s.reaches_takeAll t rest hpending hplain, hstate, hscopes,
    s.takeAll_line t, ?_⟩
  rw [Contents.add_none, finish_of_none s hpending, finish_of_none _ (hkept.trans hpending),
    hsegments, hskipped]

/-- A mark that changes neither the line nor what is found. -/
theorem leads_mark (s next : Scan) (c : Char) (hblank : isBlank c = false)
    (hc : c ∉ ['/', '"', '\'']) (hread : s.dropPending.mark c = .ok next) (hstate : P next)
    (hline : next.line = s.line) (hfinish : next.finish = s.finish) :
    Leads P s [c] next next.scopes .none := by
  refine ⟨?_, hstate, rfl, ?_, ?_⟩
  · intro rest
    exact .step (lexeme?_ordinary c rest hblank hc) hread (.refl _ _)
  · have hfeed : c ≠ '\n' := by
      rintro rfl
      revert hblank
      decide
    rw [hline, show feeds [c] = 0 by simp [feeds, hfeed]]
    exact (Int.add_zero s.line).symm
  · rw [hfinish, Contents.add_none]

/-- A statement that has begun on the given line, with the given text behind blanks. -/
structure Stands (line : Int) (text : Text) (s : Scan) : Prop where
  none_pending : s.pending = none
  text_eq : ∃ blanks, (∀ c ∈ blanks, isBlank c = true) ∧ s.statement.text = blanks ++ text
  line_eq : s.statement.line = line
  level : s.statement.depth = 0

/-- A scan at rest reads a statement. -/
theorem leads_statement (s : Scan) (hs : s.AtRest) (t : Text) (c : Char) (hfirst : t.head? = some c)
    (hblank : isBlank c = false) (hplain : ∀ d ∈ t, isPlain d = true)
    (hlevel : t.foldl depthAfter 0 = 0) :
    ∃ next, Leads (Stands s.line t) s t next s.scopes .none := by
  obtain ⟨rest, rfl⟩ := List.head?_eq_some_iff.mp hfirst
  obtain ⟨hline, hstatement, hscopes, -⟩ := s.dropPending_fields
  have hpending := s.dropPending_pending
  have hdepth : (s.dropPending.takeAll (c :: rest)).statement.depth = 0 := by
    rw [takeAll_depth, hstatement, hs.level, hlevel]
  have hfresh : s.dropPending.statement.begun = false := by rw [hstatement, hs.fresh]
  have hstate : Stands s.line (c :: rest) (s.dropPending.takeAll (c :: rest)) := by
    refine ⟨(takeAll_pending _ _).trans hpending, ⟨s.statement.text, hs.blank, ?_⟩, ?_, hdepth⟩
    · rw [takeAll_text, hstatement]
    · exact (takeAll_begins _ c rest hfresh hblank).trans hline
  have hleads := leads_takeAll s.dropPending (c :: rest) hpending hplain hstate
  refine ⟨_, ?_, hstate, hleads.scopes_eq.trans hscopes, hline ▸ hleads.line_eq, ?_⟩
  · intro after
    have hc := hplain c List.mem_cons_self
    have hlater := reaches_takeAll (s.dropPending.take c) rest after
      (by rw [take_pending, hpending]) fun d hd => hplain d (List.mem_cons_of_mem c hd)
    exact .step (lexeme?_mark_plain c _ hblank hc) (s.dropPending.mark_plain c hblank hc) hlater
  · rw [hleads.finish_eq, finish_dropPending]

/-- A scan that has just left a statement behind and waits for no code. -/
def Fresh (s : Scan) : Prop :=
  s.pending = none ∧ ∃ statement : Statement, s.statement = statement.clear

theorem Fresh.atRest (s : Scan) (h : s.Fresh) : s.AtRest := by
  obtain ⟨-, statement, hclear⟩ := h
  exact .of_clear s statement hclear

theorem Leads.mono {s next : Scan} {t : Text} {scopes : List Scope} {found : Contents}
    (h : Leads P s t next scopes found) (hstate : ∀ last, P last → Q last) :
    Leads Q s t next scopes found :=
  ⟨h.reads, hstate next h.state, h.scopes_eq, h.line_eq, h.finish_eq⟩

theorem leads_feed (s : Scan) (hs : s.AtRest) :
    Leads AtRest s ['\n'] (s.blank '\n') s.scopes .none where
  reads := fun rest => .step (lexeme?_blank '\n' rest rfl) rfl (.refl _ _)
  state := .putBlank s _ '\n' hs rfl rfl
  scopes_eq := rfl
  line_eq := rfl
  finish_eq := by
    rw [Contents.add_none]
    simp only [finish, dropPending, blank]
    cases s.pending <;> rfl

/-- A brace after a statement opens the scope of the class that the statement heads, if any. -/
theorem leads_open (s : Scan) (hpending : s.pending = none) (hlevel : s.statement.depth = 0) :
    Leads Fresh s ['{'] s.openScope (⟨className? s.statement.text, none⟩ :: s.scopes) .none := by
  have hscopes : s.openScope.scopes = ⟨className? s.statement.text, none⟩ :: s.scopes := by
    simp [openScope, hlevel]
  rw [← hscopes]
  refine leads_mark s s.openScope '{' (by decide) (by decide) ?_ ⟨hpending, s.statement, rfl⟩ rfl ?_
  · rw [s.dropPending_of_none hpending]
    rfl
  · rw [finish_of_none s hpending]
    exact finish_of_none _ hpending

theorem leads_close (s : Scan) (name : Option Text) (scopes : List Scope)
    (hscopes : s.scopes = ⟨name, none⟩ :: scopes) :
    ∃ next, Leads Fresh s ['}'] next scopes .none := by
  obtain ⟨hline, hstatement, hkept, -⟩ := s.dropPending_fields
  have hpending := s.dropPending_pending
  refine ⟨{ s.dropPending with statement := s.statement.clear, scopes := scopes },
    leads_mark s _ '}' (by decide) (by decide) ?_ ⟨hpending, s.statement, rfl⟩ hline ?_⟩
  · have hclose : s.dropPending.mark '}' = s.dropPending.closeScope := rfl
    rw [hclose, closeScope, hkept, hscopes, hstatement]
  · refine (finish_of_none _ ?_).trans rfl
    exact hpending

theorem leads_semicolon (s : Scan) (hpending : s.pending = none)
    (hnative : isNativeStatement s.statement.text = false) :
    ∃ next, Leads Fresh s [';'] next s.scopes .none := by
  refine ⟨{ s with statement := s.statement.clear },
    leads_mark s _ ';' (by decide) (by decide) ?_ ⟨hpending, s.statement, rfl⟩ rfl ?_⟩
  · have hend : s.dropPending.mark ';' = s.dropPending.endStatement := rfl
    rw [hend, s.dropPending_of_none hpending]
    simp only [endStatement, hnative, Bool.false_eq_true, if_false]
  · rw [finish_of_none s hpending]
    exact finish_of_none _ hpending

/-- The scan behind the semicolon of a native method. -/
def await (s : Scan) (m : NativeMethod) : Scan :=
  { s with statement := s.statement.clear, pending := some m }

theorem reaches_await (s : Scan) (m : NativeMethod) (rest : Text) (hpending : s.pending = none)
    (hnative : isNativeStatement s.statement.text = true)
    (hread : readNativeMethod s.owner s.statement.line s.statement.text = .ok m) :
    Reaches s (';' :: rest) (s.await m) rest := by
  refine .step (lexeme?_semicolon rest) ?_ (.refl _ _)
  have hend : s.read (.mark ';') = s.dropPending.endStatement := rfl
  rw [hend, s.dropPending_of_none hpending]
  simp only [endStatement, hnative, hread, if_true]
  rfl

/-- A native method without code. -/
theorem leads_await (s : Scan) (m : NativeMethod) (hpending : s.pending = none)
    (hnative : isNativeStatement s.statement.text = true)
    (hread : readNativeMethod s.owner s.statement.line s.statement.text = .ok m) :
    Leads AtRest s [';'] (s.await m) s.scopes ⟨[], [⟨m.line, m.className, m.methodName⟩]⟩ where
  reads := fun rest => s.reaches_await m rest hpending hnative hread
  state := .of_clear _ s.statement rfl
  scopes_eq := rfl
  line_eq := (Int.add_zero s.line).symm
  finish_eq := by
    rw [finish_of_none s hpending]
    simp [finish, dropPending, await, Contents.add]

theorem reaches_comment (s : Scan) (body rest : Text) (h : ¬ "*/".toList <:+: body) :
    Reaches s ('/' :: '*' :: (body ++ '*' :: '/' :: rest)) (s.comment body) rest :=
  .step (lexeme?_comment body rest h) rfl (.refl _ _)

theorem feeds_comment (body : Text) : feeds ("/*".toList ++ body ++ "*/".toList) = feeds body := by
  rw [feeds_append, feeds_append, show feeds "/*".toList = 0 from rfl,
    show feeds "*/".toList = 0 from rfl, Nat.zero_add, Nat.add_zero]

/-- A native method with its code in a comment after one space. -/
theorem leads_code (s : Scan) (m : NativeMethod) (body : Text) (hpending : s.pending = none)
    (hnative : isNativeStatement s.statement.text = true)
    (hread : readNativeMethod s.owner s.statement.line s.statement.text = .ok m)
    (hinside : ¬ "*/".toList <:+: body) (hcode : isCode body = true) :
    Leads AtRest s (';' :: ' ' :: ("/*".toList ++ body ++ "*/".toList))
      (((s.await m).blank ' ').comment body) s.scopes
      ⟨[.declared (declarationOf m body s.line (s.line + feeds body))], []⟩ := by
  have htag : dropStart? rawTag body = none := by
    cases htag : dropStart? rawTag body with
    | none => rfl
    | some code =>
      rw [isCode_eq_false_of_tagged htag] at hcode
      cases hcode
  have hstar : body.head? ≠ some '*' := by
    rw [isCode_of_untagged htag] at hcode
    simpa using hcode
  have hblank : ((s.await m).blank ' ').pending = some m := rfl
  refine ⟨?_, ?_, ?_, ?_, ?_⟩
  · intro rest
    have hcomment := ((s.await m).blank ' ').reaches_comment body rest hinside
    have hspace : Reaches (s.await m) (' ' :: '/' :: '*' :: (body ++ '*' :: '/' :: rest))
        (((s.await m).blank ' ').comment body) rest :=
      .step (lexeme?_blank ' ' _ (by decide)) rfl hcomment
    have hfirst := (s.reaches_await m _ hpending hnative hread).trans hspace
    simpa using hfirst
  · refine .putBlank ((s.await m).blank ' ') _ ' ' (.putBlank (s.await m) _ ' ' ?_ rfl rfl) rfl ?_
    · exact .of_clear _ s.statement rfl
    · simp only [comment, commentSegment, htag, hblank, hstar, if_false]
      rfl
  · simp only [comment, commentSegment, htag, hblank, hstar, if_false]
    rfl
  · have hskip : ∀ t, feeds (';' :: ' ' :: t) = feeds t := by
      intro t
      simp [feeds]
    rw [hskip, feeds_comment]
    rfl
  · simp only [comment, commentSegment, htag, hblank, hstar, if_false]
    rw [finish_of_none s hpending, finish_of_none _ rfl]
    simp [addSegment, Contents.add, await, blank]

/-- A raw block. -/
theorem leads_raw (s : Scan) (code : Text) (hs : s.AtRest)
    (hinside : ¬ "*/".toList <:+: rawTag ++ code) :
    Leads AtRest s ("/*".toList ++ (rawTag ++ code) ++ "*/".toList) (s.comment (rawTag ++ code))
      s.scopes ⟨[.raw ⟨code, s.line⟩], []⟩ := by
  have htag : dropStart? rawTag (rawTag ++ code) = some code := dropStart?_append rawTag code
  obtain ⟨-, hstatement, hscopes, -⟩ := s.dropPending_fields
  have hpending := s.dropPending_pending
  refine ⟨?_, ?_, ?_, ?_, ?_⟩
  · intro rest
    have hcomment := s.reaches_comment (rawTag ++ code) rest hinside
    simpa using hcomment
  · refine .putBlank s _ ' ' hs rfl ?_
    simp only [comment, commentSegment, htag, addSegment, hstatement]
  · simp only [comment, commentSegment, htag, addSegment, hscopes]
  · rw [feeds_comment]
    rfl
  · simp only [comment, commentSegment, htag]
    rw [← s.finish_dropPending, finish_of_none s.dropPending hpending]
    refine (finish_of_none _ ?_).trans ?_
    · exact hpending
    · simp [addSegment, Contents.add]

end Scan

end NativeGlue.Source
