import Mathlib.Data.List.Induction
import Mathlib.Data.Nat.Init
import NativeGlue.Proofs.Header.CommentScan
import NativeGlue.Proofs.Header.RoundTrip
import NativeGlue.Proofs.Text.Collapse
import NativeGlue.Proofs.Text.Filling
import NativeGlue.Proofs.Traversal

/-!
Line numbers of signatures. Blanking out a part of a text keeps its line feeds, and a word that is
left stood there before: what replaces the part has a blank at either end. Dropping carriage
returns and erasing comments blank out parts only, so the reader meets export macros that stand in
the header, in the same order and on the same lines.
-/

namespace NativeGlue

open Text

namespace Text

/-- The second text is the first with some parts replaced by blanks, line feed for line feed. -/
inductive Blanked : Text → Text → Prop
  | nil : Blanked [] []
  | keep (c : Char) {t u : Text} (h : Blanked t u) : Blanked (c :: t) (c :: u)
  | blank {part gap t u : Text} (hne : gap ≠ []) (hgap : ∀ c ∈ gap, isBlank c = true)
      (hfeeds : feeds part = feeds gap) (h : Blanked t u) : Blanked (part ++ t) (gap ++ u)

namespace Blanked

variable {t u word : Text} {c : Char}

theorem feeds_eq (h : Blanked t u) : feeds t = feeds u := by
  induction h with
  | nil => rfl
  | keep c _ ih =>
    unfold feeds at ih ⊢
    rw [List.count_cons, List.count_cons, ih]
  | blank _ _ hfeeds _ ih => rw [feeds_append, feeds_append, hfeeds, ih]

/-- What is not blank at the beginning was kept. -/
theorem exists_cons (h : Blanked t (c :: u)) (hc : isBlank c = false) :
    ∃ rest, t = c :: rest ∧ Blanked rest u := by
  generalize hwhole : c :: u = whole at h
  cases h with
  | nil => cases hwhole
  | keep d hrest =>
    cases hwhole
    exact ⟨_, rfl, hrest⟩
  | @blank part gap t u hne hgap _ _ =>
    obtain ⟨d, gap, rfl⟩ := List.exists_cons_of_ne_nil hne
    obtain ⟨rfl, -⟩ := List.cons.inj hwhole
    rw [hgap c List.mem_cons_self] at hc
    cases hc

/-- A character that is not blank was kept, and parts the text where it parts the result. -/
theorem exists_append_cons {front back : Text} (h : Blanked t (front ++ c :: back))
    (hc : isBlank c = false) :
    ∃ before after, t = before ++ c :: after ∧ Blanked before front ∧ Blanked after back := by
  generalize hwhole : front ++ c :: back = whole at h
  induction h generalizing front with
  | nil => cases front <;> cases hwhole
  | @keep d t u hrest ih =>
    cases front with
    | nil =>
      cases hwhole
      exact ⟨[], t, rfl, .nil, hrest⟩
    | cons e front =>
      obtain ⟨rfl, hrest⟩ := List.cons.inj hwhole
      obtain ⟨before, after, rfl, hbefore, hafter⟩ := ih hrest
      exact ⟨e :: before, after, rfl, .keep e hbefore, hafter⟩
  | @blank part gap t u hne hgap hfeeds _ ih =>
    -- the character is not in the gap
    have hfront : ∃ more, front = gap ++ more ∧ more ++ c :: back = u := by
      rcases List.append_eq_append_iff.mp hwhole with ⟨more, hmore, hrest⟩ | ⟨more, hmore, hrest⟩
      · cases more with
        | nil => exact ⟨[], by simpa using hmore.symm, hrest⟩
        | cons d more =>
          obtain ⟨rfl, -⟩ := List.cons.inj hrest
          rw [hgap c (by rw [hmore]; simp)] at hc
          cases hc
      · exact ⟨more, hmore, hrest.symm⟩
    obtain ⟨more, rfl, hrest⟩ := hfront
    obtain ⟨before, after, rfl, hbefore, hafter⟩ := ih hrest
    exact ⟨part ++ before, after, (List.append_assoc _ _ _).symm,
      .blank hne hgap hfeeds hbefore, hafter⟩

/-- A word was kept in one piece. -/
theorem exists_append {front back : Text} (h : Blanked t (front ++ word ++ back))
    (hne : word ≠ []) (hword : ∀ c ∈ word, isBlank c = false) :
    ∃ before after, t = before ++ word ++ after ∧ Blanked before front ∧ Blanked after back := by
  have hstart (w s : Text) (hw : ∀ c ∈ w, isBlank c = false) (hs : Blanked s (w ++ back)) :
      ∃ after, s = w ++ after ∧ Blanked after back := by
    induction w generalizing s with
    | nil => exact ⟨s, rfl, hs⟩
    | cons c w ih =>
      rw [List.forall_mem_cons] at hw
      obtain ⟨rest, rfl, hrest⟩ := hs.exists_cons hw.1
      obtain ⟨after, rfl, hafter⟩ := ih rest hw.2 hrest
      exact ⟨after, rfl, hafter⟩
  obtain ⟨c, word, rfl⟩ := List.exists_cons_of_ne_nil hne
  rw [List.forall_mem_cons] at hword
  rw [List.append_assoc, List.cons_append] at h
  obtain ⟨before, rest, rfl, hbefore, hrest⟩ := h.exists_append_cons hword.1
  obtain ⟨after, rfl, hafter⟩ := hstart word rest hword.2 hrest
  exact ⟨before, after, by simp, hbefore, hafter⟩

/-- The places where a word stands are places where it stood, in the same order and each behind
as many line feeds. -/
theorem exists_starts (h : Blanked t u) (hne : word ≠ [])
    (hword : ∀ c ∈ word, isBlank c = false) (fronts : List Text)
    (hin : ∀ front ∈ fronts, front ++ word <+: u)
    (horder : fronts.Pairwise fun front later => front ++ word <+: later) :
    ∃ starts : List Text, starts.map feeds = fronts.map feeds ∧
      (∀ start ∈ starts, start ++ word <+: t) ∧
      starts.Pairwise fun start later => start ++ word <+: later := by
  -- from the last place backwards: what stands before it is blanked out by itself
  induction fronts using List.reverseRecOn generalizing t u with
  | nil => exact ⟨[], rfl, List.forall_mem_nil _, .nil⟩
  | append_singleton fronts last ih =>
    obtain ⟨back, rfl⟩ := hin last List.mem_concat_self
    obtain ⟨before, after, rfl, hbefore, -⟩ := h.exists_append hne hword
    obtain ⟨hfronts, -, hlast⟩ := List.pairwise_append.mp horder
    obtain ⟨starts, hfeeds, hstarts, hsorted⟩ := ih hbefore
      (fun front hfront => hlast front hfront last List.mem_cons_self) hfronts
    refine ⟨starts ++ [before], ?_, ?_, ?_⟩
    · rw [List.map_append, List.map_append, hfeeds, List.map_singleton, List.map_singleton,
        hbefore.feeds_eq]
    · rw [List.forall_mem_append, List.forall_mem_singleton]
      refine ⟨fun start hstart => ?_, List.prefix_append _ after⟩
      rw [List.append_assoc]
      exact (hstarts start hstart).trans (List.prefix_append before _)
    · refine List.pairwise_append.mpr ⟨hsorted, List.pairwise_singleton _ _, ?_⟩
      intro start hstart later hlater
      rw [List.mem_singleton.mp hlater]
      exact hstarts start hstart

end Blanked

theorem blanked_joinReturns (t : Text) : Blanked t (joinReturns t) := by
  fun_induction joinReturns t with
  | case1 => exact .nil
  | case2 rest ih =>
    have hfeed : Blanked ("\r\n".toList ++ rest) (['\n'] ++ joinReturns rest) :=
      .blank (by decide) (List.forall_mem_singleton.mpr rfl) rfl ih
    exact hfeed
  | case3 c rest hother ih => exact .keep c ih

/-- A word without line feeds stands on the line that the line feeds before it give. -/
theorem exists_line (before word after : Text) (hword : '\n' ∉ word) :
    ∃ line, ((before ++ word ++ after).splitOn '\n')[feeds before]? = some line ∧
      word <:+: line := by
  induction before with
  | nil =>
    obtain ⟨first, more, hsplit⟩ := List.exists_cons_of_ne_nil (List.splitOn_ne_nil '\n' after)
    rw [List.nil_append, splitOn_append word after hword, hsplit]
    exact ⟨word ++ first, rfl, (List.prefix_append word first).isInfix⟩
  | cons c before ih =>
    obtain ⟨line, hline, hin⟩ := ih
    rw [List.cons_append, List.cons_append, List.splitOn_cons_eq_if_modifyHead]
    unfold feeds at hline ⊢
    by_cases hc : c = '\n'
    · rw [if_pos (by simp [hc]), hc, List.count_cons_self]
      exact ⟨line, hline, hin⟩
    · rw [if_neg (by simp [hc]), List.count_cons_of_ne hc]
      obtain ⟨first, more, hsplit⟩ :=
        List.exists_cons_of_ne_nil (List.splitOn_ne_nil '\n' (before ++ word ++ after))
      rw [hsplit] at hline ⊢
      cases hcount : List.count '\n' before with
      | zero =>
        rw [hcount] at hline
        cases hline
        exact ⟨c :: line, rfl, List.infix_cons hin⟩
      | succ n =>
        rw [hcount] at hline
        exact ⟨line, hline, hin⟩

end Text

namespace Header

theorem blanked_eraseBlocks (t : Text) : Blanked t (eraseBlocks t) := by
  fun_induction eraseBlocks t with
  | case1 => exact .nil
  | case2 rest body after hfound _ ih =>
    have hcomment : Blanked (('/' :: '*' :: (body ++ "*/".toList)) ++ after)
        (blockSubstitute body ++ eraseBlocks after) := by
      refine .blank ?_ ?_ ?_ ih
      · unfold blockSubstitute
        split_ifs with hnone
        · exact List.cons_ne_nil _ _
        · simpa using hnone
      · intro c hc
        rcases mem_blockSubstitute body c hc with rfl | rfl <;> rfl
      · rw [feeds_blockSubstitute]
        exact (feeds_append ['/', '*'] _).trans
          ((Nat.zero_add _).trans (feeds_append body "*/".toList))
    rw [eq_append_of_commentBody? hfound]
    simpa using hcomment
  | case3 rest hnone ih => exact .keep '/' ih
  | case4 c rest hother ih => exact .keep c ih

theorem blanked_eraseLineComments (t : Text) : Blanked t (eraseLineComments t) := by
  -- inside a line comment, the part read of it has become one space
  suffices hboth : Blanked t (eraseLinesFrom false t) ∧
      ∀ part, feeds part = 0 → Blanked (part ++ t) (' ' :: eraseLinesFrom true t) from hboth.1
  have hspace {part t u : Text} (hpart : feeds part = 0) (h : Blanked t u) :
      Blanked (part ++ t) (' ' :: u) := by
    have hblank : Blanked (part ++ t) ([' '] ++ u) :=
      .blank (by decide) (List.forall_mem_singleton.mpr rfl) hpart h
    exact hblank
  induction t with
  | nil => exact ⟨.nil, fun part hpart => hspace hpart .nil⟩
  | cons c t ih =>
    obtain ⟨houtside, hinside⟩ := ih
    constructor
    · by_cases hopen : c = '/' ∧ t.head? = some '/'
      · obtain ⟨rfl, hhead⟩ := hopen
        obtain ⟨rest, rfl⟩ := List.head?_eq_some_iff.mp hhead
        rw [eraseLinesFrom, if_neg (by decide), ← eraseLinesFrom_inside_cons '/' rest (by decide)]
        exact hinside ['/'] rfl
      · rw [eraseLinesFrom_cons c t fun hc hhead => hopen ⟨hc, hhead⟩]
        exact .keep c houtside
    · intro part hpart
      by_cases hc : c = '\n'
      · rw [hc, eraseLinesFrom, if_pos rfl]
        · exact hspace hpart (.keep '\n' houtside)
        · rintro rest ⟨⟩
      · rw [eraseLinesFrom_inside_cons c t hc, List.append_cons]
        refine hinside (part ++ [c]) ?_
        rw [feeds_append, hpart, Nat.zero_add]
        exact List.count_eq_zero.mpr fun hmem => hc (List.mem_singleton.mp hmem).symm

theorem feeds_eraseComments (t : Text) : feeds (eraseComments t) = feeds t :=
  (blanked_eraseLineComments _).feeds_eq.symm.trans (blanked_eraseBlocks t).feeds_eq.symm

/-- The signature is that of the prototype behind the given beginning of a text, on the line that
the line feeds there give. -/
def ReadAt (t : Text) (s : Signature) (front : Text) : Prop :=
  ∃ p rest, t = front ++ rest ∧ prototype? rest = some p ∧ s = p.signature (1 + feeds front)

/-- The export macro behind one beginning of a text ends before the other beginning does. -/
def Precedes (front later : Text) : Prop := front ++ exportMacro <+: later

theorem ReadAt.prefix {t front : Text} {s : Signature} (h : ReadAt t s front) :
    front ++ exportMacro <+: t := by
  obtain ⟨p, rest, rfl, hp, -⟩ := h
  obtain ⟨body, rfl⟩ := exists_body_of_prototype? hp
  exact ⟨body ++ p.rest, by simp⟩

/-- The prototype behind `start` begins before the given place and ends behind it. -/
def Covers (t start front : Text) : Prop :=
  start <+: front ∧ ∃ p rest, t = start ++ rest ∧ prototype? rest = some p ∧
    front.length + p.rest.length < t.length

/-- The reader, which has read the first text, goes over the second and finds prototypes behind the
given beginnings of the whole. -/
inductive Finds : Text → Text → List Text → Prop
  | done (read : Text) : Finds read [] []
  | other {read rest : Text} {c : Char} {fronts : List Text} (hp : prototype? (c :: rest) = none)
      (h : Finds (read ++ [c]) rest fronts) : Finds read (c :: rest) fronts
  | found {read body : Text} {p : Prototype} {fronts : List Text}
      (hp : prototype? (exportMacro ++ body ++ p.rest) = some p)
      (h : Finds (read ++ (exportMacro ++ body)) p.rest fronts) :
      Finds read (exportMacro ++ body ++ p.rest) (read :: fronts)

theorem exists_finds (read t : Text) : ∃ fronts, Finds read t fronts := by
  induction hlength : t.length using Nat.strong_induction_on generalizing read t with
  | _ n ih =>
    subst hlength
    cases t with
    | nil => exact ⟨[], .done read⟩
    | cons c rest =>
      cases hp : prototype? (c :: rest) with
      | none =>
        obtain ⟨fronts, h⟩ := ih rest.length (Nat.lt_succ_self _) (read ++ [c]) rest rfl
        exact ⟨fronts, .other hp h⟩
      | some p =>
        obtain ⟨body, htext⟩ := exists_body_of_prototype? hp
        obtain ⟨fronts, h⟩ :=
          ih p.rest.length (length_of_prototype? hp) (read ++ (exportMacro ++ body)) p.rest rfl
        rw [htext] at hp ⊢
        exact ⟨read :: fronts, .found hp h⟩

namespace Finds

variable {read t : Text} {fronts : List Text}

theorem isPrefix (h : Finds read t fronts) : ∀ front ∈ fronts, read <+: front := by
  induction h with
  | done read => exact List.forall_mem_nil _
  | @other read rest c fronts _ _ ih =>
    exact fun front hfront => (List.prefix_append read [c]).trans (ih front hfront)
  | @found read body p fronts _ _ ih =>
    rw [List.forall_mem_cons]
    exact ⟨List.prefix_rfl,
      fun front hfront => (List.prefix_append read _).trans (ih front hfront)⟩

theorem pairwise (h : Finds read t fronts) : fronts.Pairwise Precedes := by
  induction h with
  | done read => exact .nil
  | other _ _ ih => exact ih
  | @found read body p fronts _ hlater ih =>
    refine List.pairwise_cons.mpr ⟨fun front hfront => ?_, ih⟩
    have hstart := hlater.isPrefix front hfront
    rw [← List.append_assoc] at hstart
    exact (List.prefix_append _ body).trans hstart

/-- The signatures are those of the prototypes found. -/
theorem readAt (h : Finds read t fronts) :
    List.Forall₂ (ReadAt (read ++ t)) (signaturesFrom 0 (1 + feeds read) t) fronts := by
  have hline (read more : Text) :
      1 + (feeds read : Int) + feeds more = 1 + feeds (read ++ more) := by
    rw [feeds_append]
    omega
  induction h with
  | done read => exact .nil
  | @other read rest c fronts hp _ ih =>
    rw [HeaderOutline.signaturesFrom_other _ hp, hline, List.append_cons]
    exact ih
  | @found read body p fronts hp _ ih =>
    obtain ⟨body', htext, hread⟩ := HeaderOutline.signaturesFrom_prototype (1 + feeds read) hp
    obtain rfl : body = body' := by simpa using htext
    rw [hread, hline]
    refine .cons ⟨p, _, rfl, hp, rfl⟩ ?_
    rw [List.append_assoc] at ih
    exact ih

/-- No prototype is missed but one that begins in another. -/
theorem exists_covers (h : Finds read t fronts) (front rest : Text) (hfront : read <+: front)
    (hwhole : read ++ t = front ++ rest) (hp : (prototype? rest).isSome = true) :
    ∃ start ∈ fronts, Covers (read ++ t) start front := by
  induction h with
  | done read =>
    obtain ⟨more, rfl⟩ := hfront
    have hnil : more = [] ∧ rest = [] := by simpa using hwhole
    rw [hnil.2] at hp
    cases hp
  | @other read tail c fronts hnone _ ih =>
    obtain ⟨more, rfl⟩ := hfront
    rw [List.append_assoc, List.append_cancel_left_eq] at hwhole
    cases more with
    | nil =>
      rw [List.nil_append] at hwhole
      rw [← hwhole, hnone] at hp
      cases hp
    | cons d more =>
      obtain ⟨rfl, htail⟩ : c = d ∧ tail = more ++ rest := List.cons.inj hwhole
      rw [htail, List.append_cons read c more, ← List.append_assoc] at ih
      rw [htail, List.append_cons, List.append_cons read c more, ← List.append_assoc]
      exact ih (List.prefix_append _ more) rfl
  | @found read body p fronts hfound hlater ih =>
    have hsplit : read ++ (exportMacro ++ body ++ p.rest) =
        read ++ (exportMacro ++ body) ++ p.rest := (List.append_assoc _ _ _).symm
    by_cases hinside : front.length + p.rest.length <
        (read ++ (exportMacro ++ body ++ p.rest)).length
    · exact ⟨read, List.mem_cons_self, hfront, p, _, rfl, hfound, hinside⟩
    · rw [hsplit] at hwhole hinside ⊢
      have hbehind : read ++ (exportMacro ++ body) <+: front := by
        refine List.prefix_of_prefix_length_le (List.prefix_append _ p.rest)
          ⟨rest, hwhole.symm⟩ ?_
        rw [List.length_append] at hinside
        omega
      obtain ⟨start, hstart, hcovers⟩ := ih hbehind hwhole
      exact ⟨start, List.mem_cons_of_mem read hstart, hcovers⟩

end Finds

theorem ReadAt.line_eq {t front : Text} {s : Signature} (h : ReadAt t s front) :
    s.line = 1 + feeds front := by
  obtain ⟨p, rest, -, -, rfl⟩ := h
  rfl

theorem Precedes.feeds_le {front later : Text} (h : Precedes front later) :
    feeds front ≤ feeds later :=
  ((List.prefix_append front exportMacro).trans h).sublist.count_le '\n'

/-- Export macros of a cleaned header stand in the header itself, in the same order and each on
its line. -/
theorem exists_starts_of_eraseComments (header : Text) (fronts : List Text)
    (hin : ∀ front ∈ fronts, front ++ exportMacro <+: eraseComments (joinReturns header))
    (horder : fronts.Pairwise Precedes) :
    ∃ starts : List Text, starts.map feeds = fronts.map feeds ∧
      (∀ start ∈ starts, start ++ exportMacro <+: header) ∧ starts.Pairwise Precedes := by
  have hne : exportMacro ≠ [] := by decide
  have hword : ∀ c ∈ exportMacro, isBlank c = false := isBlank_of_all (by decide)
  obtain ⟨lined, hlined, hin, horder⟩ :=
    (blanked_eraseLineComments _).exists_starts hne hword fronts hin horder
  obtain ⟨joined, hjoined, hin, horder⟩ :=
    (blanked_eraseBlocks _).exists_starts hne hword lined hin horder
  obtain ⟨starts, hstarts, hin, horder⟩ :=
    (blanked_joinReturns _).exists_starts hne hword joined hin horder
  exact ⟨starts, hstarts.trans (hjoined.trans hlined), hin, horder⟩

/-- Erasing comments keeps the line feeds of any text, and the signatures of any header come in
the order of their export macros there, with the numbers of the lines where these stand. They are
read from the header without comments, where only a prototype that begins in another is left
out. -/
theorem signatures_lines (header : Text) :
    feeds (eraseComments header) = feeds header ∧
      (signatures header).Pairwise (·.line ≤ ·.line) ∧
      (∀ s ∈ signatures header, ∃ (n : Nat) (line : Text), s.line = n + 1 ∧
        (header.splitOn '\n')[n]? = some line ∧ exportMacro <:+: line) ∧
      ∃ (clean : Text) (fronts starts : List Text),
        clean = eraseComments (joinReturns header) ∧
        List.Forall₂ (ReadAt clean) (signatures header) fronts ∧ fronts.Pairwise Precedes ∧
        (∀ front rest, clean = front ++ rest → (prototype? rest).isSome = true →
          ∃ start ∈ fronts, Covers clean start front) ∧
        (∀ start ∈ starts, start ++ exportMacro <+: header) ∧
        starts.Pairwise Precedes ∧
        (signatures header).map Signature.line =
          starts.map fun start => (1 + feeds start : Int) := by
  obtain ⟨fronts, hfinds⟩ := exists_finds [] (eraseComments (joinReturns header))
  have hread : List.Forall₂ (ReadAt (eraseComments (joinReturns header))) (signatures header)
      fronts := hfinds.readAt
  have hin : ∀ front ∈ fronts, front ++ exportMacro <+: eraseComments (joinReturns header) := by
    intro front hfront
    obtain ⟨s, -, hs⟩ := exists_of_forall₂ hread hfront
    exact hs.prefix
  obtain ⟨starts, hfeeds, hstarts, hsorted⟩ :=
    exists_starts_of_eraseComments header fronts hin hfinds.pairwise
  have hlines : (signatures header).map Signature.line =
      starts.map fun start => (1 + feeds start : Int) := by
    have hfronts : (signatures header).map Signature.line =
        fronts.map fun front => (1 + feeds front : Int) := by
      rw [← List.forall₂_eq_eq_eq, List.forall₂_map_left_iff, List.forall₂_map_right_iff]
      exact hread.imp fun _ _ h => h.line_eq
    have hcounts := congrArg (List.map fun n : Nat => (1 + n : Int)) hfeeds
    rw [List.map_map, List.map_map] at hcounts
    exact hfronts.trans hcounts.symm
  refine ⟨feeds_eraseComments header, ?_, ?_, _, fronts, starts, rfl, hread, hfinds.pairwise,
    fun front rest => hfinds.exists_covers front rest List.nil_prefix, hstarts, hsorted, hlines⟩
  · have hsortedLines : ((signatures header).map Signature.line).Pairwise (· ≤ ·) := by
      rw [hlines, List.pairwise_map]
      refine hsorted.imp fun h => ?_
      have hle := h.feeds_le
      omega
    exact List.pairwise_map.mp hsortedLines
  · intro s hs
    have hmem : s.line ∈ (signatures header).map Signature.line := List.mem_map_of_mem hs
    rw [hlines] at hmem
    obtain ⟨start, hstart, hline⟩ := List.mem_map.mp hmem
    obtain ⟨after, rfl⟩ := hstarts start hstart
    obtain ⟨line, hget, hexport⟩ := exists_line start exportMacro after (by decide)
    exact ⟨feeds start, line, by omega, hget, hexport⟩

/-- A comment within a word leaves a space there, and one over a line end leaves the line end. -/
example : (signatures ("JNI/**/EXPORT jint JNICALL f();\r\n".toList ++
      "/* a\r\n*/ JNIEXPORT jint // b\r\n JNICALL g();".toList)).map Signature.line = [3] := by
  decide +kernel

end Header

end NativeGlue
