import Mathlib.Data.List.Forall2
import NativeGlue.Proofs.Source.Reading
import NativeGlue.Proofs.Source.Spacing

/-!
Two scans side by side. They are alike if they differ only in their lines, which correspond under
two given functions, in the blanks of their statements and in what the second has found before.
Alike scans that read the same lexeme are alike again or find the same fault, whatever state the
one or the other has been led through, so they find the same in the rest of a file. A statement
that has not begun holds nothing but blanks: it is never native, and its line is never seen.
-/

namespace NativeGlue

def Declaration.mapLines (f : Int → Int) (d : Declaration) : Declaration :=
  { d with
    startLine := f d.startLine
    endLine := f d.endLine
    signatureLine := f d.signatureLine }

def Segment.mapLines (f : Int → Int) : Segment → Segment
  | raw block => raw { block with line := f block.line }
  | declared d => declared (d.mapLines f)
  | linked m => linked { m with declaration := m.declaration.mapLines f }

namespace Source

open Text

def Skipped.mapLines (f : Int → Int) (s : Skipped) : Skipped := { s with line := f s.line }

def NativeMethod.mapLines (f : Int → Int) (m : NativeMethod) : NativeMethod :=
  { m with line := f m.line }

def Problem.mapLines (f : Int → Int) (p : Problem) : Problem := { p with line := f p.line }

def Contents.mapLines (f : Int → Int) (c : Contents) : Contents :=
  ⟨c.segments.map (Segment.mapLines f), c.skipped.map (Skipped.mapLines f)⟩

theorem Segment.mapLines_id (segment : Segment) : segment.mapLines id = segment := by
  cases segment <;> rfl

theorem Contents.mapLines_id (c : Contents) : c.mapLines id = c := by
  have hsegments : Segment.mapLines id = id := funext Segment.mapLines_id
  have hskipped : Skipped.mapLines id = id := rfl
  rw [mapLines, hsegments, hskipped, List.map_id, List.map_id]

/-- Both give related results, or both give the same fault on corresponding lines. -/
inductive Agree (f g : Int → Int) {α β : Type} (R : α → β → Prop) :
    Except Problem α → Except Problem β → Prop
  | ok {a : α} {b : β} (h : R a b) : Agree f g R (.ok a) (.ok b)
  | error {p q : Problem} (h : p.mapLines f = q.mapLines g) : Agree f g R (.error p) (.error q)

variable {f g : Int → Int}

theorem Agree.bind {α β γ δ : Type} {R : α → β → Prop} {S : γ → δ → Prop}
    {x : Except Problem α} {y : Except Problem β} {k : α → Except Problem γ}
    {l : β → Except Problem δ} (h : Agree f g R x y) (hk : ∀ a b, R a b → Agree f g S (k a) (l b)) :
    Agree f g S (x.bind k) (y.bind l) := by
  cases h with
  | ok h => exact hk _ _ h
  | error h => exact .error h

/-- Lines that correspond still do after the same number of line feeds. -/
def Parallel (f g : Int → Int) : Prop := ∀ (a b n : Int), f a = g b → f (a + n) = g (b + n)

structure Statement.Like (f g : Int → Int) (s t : Statement) : Prop where
  text : Spaced s.text t.text
  begun : s.begun = t.begun
  depth : s.depth = t.depth
  line : s.begun = true → f s.line = g t.line
  fresh : s.begun = false → ∀ c ∈ s.text, isBlank c = true
  deep : 0 < s.depth → s.begun = true

/-- What a brace interrupts has begun, with the parenthesis that is open there. -/
structure Scope.Like (f g : Int → Int) (s t : Scope) : Prop where
  name : s.name = t.name
  outer : Option.Rel (fun s t => s.Like f g t ∧ s.begun = true) s.outer t.outer

/-- What a scan has found so far. -/
def Scan.found (s : Scan) : Contents := ⟨s.segments, s.skipped⟩

/-- The second scan has found something before the first began. -/
structure Scan.Like (f g : Int → Int) (before : Contents) (s t : Scan) : Prop where
  line : f s.line = g t.line
  statement : s.statement.Like f g t.statement
  scopes : List.Forall₂ (Scope.Like f g) s.scopes t.scopes
  pending : s.pending.map (NativeMethod.mapLines f) = t.pending.map (NativeMethod.mapLines g)
  found : t.found.mapLines g = before.add (s.found.mapLines f)

namespace Statement.Like

variable {s t : Statement}

theorem clear (s t : Statement) : s.clear.Like f g t.clear where
  text := rfl
  begun := rfl
  depth := rfl
  line := nofun
  fresh := fun _ _ hc => absurd hc List.not_mem_nil
  deep := nofun

/-- Runs of blanks leave statements alike, whichever blanks they are. -/
theorem putBlanks (h : s.Like f g t) {blanks blanks' : Text} (hne : blanks ≠ [])
    (hne' : blanks' ≠ []) (hblanks : ∀ c ∈ blanks, isBlank c = true)
    (hblanks' : ∀ c ∈ blanks', isBlank c = true) :
    Like f g { s with text := s.text ++ blanks } { t with text := t.text ++ blanks' } where
  text := h.text.append ((collapse_blanks hne hblanks).trans (collapse_blanks hne' hblanks').symm)
  begun := h.begun
  depth := h.depth
  line := h.line
  fresh := by
    intro hbegun c hc
    rcases List.mem_append.mp hc with hc | hc
    · exact h.fresh hbegun c hc
    · exact hblanks c hc
  deep := h.deep

theorem putBlank (h : s.Like f g t) (c : Char) (hc : isBlank c = true) :
    (s.putBlank c).Like f g (t.putBlank c) := by
  have hblank : ∀ d ∈ [c], isBlank d = true := List.forall_mem_singleton.mpr hc
  exact h.putBlanks (List.cons_ne_nil c []) (List.cons_ne_nil c []) hblank hblank

theorem putText (h : s.Like f g t) {line line' : Int} (hline : f line = g line') (u : Text)
    {depth depth' : Nat} (hdepth : depth = depth') :
    Like f g ({ s with depth := depth }.putText line u)
      ({ t with depth := depth' }.putText line' u) where
  text := h.text.append rfl
  begun := rfl
  depth := hdepth
  line := by
    intro _
    simp only [Statement.putText, ← h.begun]
    split
    · next hbegun => exact h.line hbegun
    · exact hline
  fresh := nofun
  deep := fun _ => rfl

theorem resume (h : s.Like f g t) (hbegun : s.begun = true) : s.resume.Like f g t.resume where
  text := h.text.append rfl
  begun := h.begun
  depth := h.depth
  line := h.line
  fresh := fun hfresh => absurd (hbegun.symm.trans hfresh) (by simp)
  deep := fun _ => hbegun

theorem begun_of_native (h : s.Like f g t) (hnative : isNativeStatement s.text = true) :
    s.begun = true := by
  by_contra hbegun
  rw [isNativeStatement_of_blank (h.fresh (by simpa using hbegun))] at hnative
  cases hnative

end Statement.Like

/-- The line of a statement goes into its method and nowhere else. -/
theorem readNativeMethod_mapLines (owner : Option Text) (t : Text) {line line' : Int}
    (h : f line = g line') :
    (readNativeMethod owner line t).map (NativeMethod.mapLines f) =
      (readNativeMethod owner line' t).map (NativeMethod.mapLines g) := by
  simp only [readNativeMethod, bind, Except.bind]
  cases cutParameters (eraseAnnotations t) with
  | error fault => rfl
  | ok head =>
    dsimp only
    cases checkTrailer head.trailer with
    | error fault => rfl
    | ok checked =>
      dsimp only
      cases methodName (eraseAnnotations t) head.words with
      | error fault => rfl
      | ok found =>
        cases owner with
        | none => rfl
        | some className =>
          dsimp only
          cases (splitParameters head.parameters).mapM readParameter with
          | error fault => rfl
          | ok parameters =>
            simp only [pure, Except.pure, Except.map, NativeMethod.mapLines, h]

namespace Scan.Like

variable {before : Contents} {s t : Scan}

theorem owner_eq (h : s.Like f g before t) : s.owner = t.owner := by
  have hnames : s.scopes.map Scope.name = t.scopes.map Scope.name := by
    have hscopes := h.scopes
    generalize s.scopes = scopes at hscopes ⊢
    generalize t.scopes = scopes' at hscopes ⊢
    induction hscopes with
    | nil => rfl
    | cons hscope _ ih => rw [List.map_cons, List.map_cons, hscope.name, ih]
  have hopen : s.scopes.reverse.filterMap Scope.name = t.scopes.reverse.filterMap Scope.name := by
    have hid (scopes : List Scope) :
        scopes.reverse.filterMap Scope.name = (scopes.map Scope.name).reverse.filterMap id := by
      rw [← List.map_reverse, List.filterMap_map, Function.id_comp]
    rw [hid, hid, hnames]
  rw [owner, owner, hopen]

theorem setStatement (h : s.Like f g before t) {x y : Statement} (hxy : x.Like f g y) :
    Like f g before { s with statement := x } { t with statement := y } :=
  ⟨h.line, hxy, h.scopes, h.pending, h.found⟩

/-- Either no method is pending in both scans, or one is in each. -/
theorem pending_cases (h : s.Like f g before t) :
    (s.pending = none ∧ t.pending = none) ∨
      ∃ m n, s.pending = some m ∧ t.pending = some n ∧ n.mapLines g = m.mapLines f := by
  have hpending := h.pending
  cases hs : s.pending with
  | none =>
    rw [hs, Option.map_none, eq_comm, Option.map_eq_none_iff] at hpending
    exact .inl ⟨rfl, hpending⟩
  | some m =>
    rw [hs, Option.map_some, eq_comm, Option.map_eq_some_iff] at hpending
    obtain ⟨n, ht, hmn⟩ := hpending
    exact .inr ⟨m, n, rfl, ht, hmn⟩

theorem dropPending (h : s.Like f g before t) :
    s.dropPending.Like f g before t.dropPending := by
  unfold Scan.dropPending
  obtain ⟨hs, ht⟩ | ⟨m, n, hs, ht, hmn⟩ := h.pending_cases
  · rw [hs, ht]
    exact h
  · rw [hs, ht]
    refine ⟨h.line, h.statement, h.scopes, rfl, ?_⟩
    have hskipped : Skipped.mapLines g ⟨n.line, n.className, n.methodName⟩ =
        Skipped.mapLines f ⟨m.line, m.className, m.methodName⟩ := by
      simp only [NativeMethod.mapLines, NativeMethod.mk.injEq] at hmn
      simp only [Skipped.mapLines, hmn]
    have hfound := h.found
    simp only [Scan.found, Contents.mapLines, Contents.add, Contents.mk.injEq] at hfound ⊢
    rw [List.map_append, List.map_append, hfound.1, hfound.2, List.append_assoc]
    simp only [List.map_cons, List.map_nil, hskipped, true_and]

theorem addSegment (h : s.Like f g before t) {x y : Segment} (hxy : y.mapLines g = x.mapLines f) :
    (s.addSegment x).Like f g before (t.addSegment y) := by
  refine ⟨h.line, h.statement, h.scopes, h.pending, ?_⟩
  have hfound := h.found
  simp only [Scan.found, Scan.addSegment, Contents.mapLines, Contents.add, Contents.mk.injEq]
    at hfound ⊢
  rw [List.map_append, List.map_append, hfound.1, List.append_assoc]
  simp only [List.map_cons, List.map_nil, hxy, hfound.2, true_and]

theorem finish (h : s.Like f g before t) :
    t.finish.mapLines g = before.add (s.finish.mapLines f) :=
  h.dropPending.found

theorem commentSegment (h : s.Like f g before t) (body : Text) {endLine endLine' : Int}
    (hend : f endLine = g endLine') :
    (s.commentSegment body endLine).Like f g before (t.commentSegment body endLine') := by
  unfold Scan.commentSegment
  cases dropStart? rawTag body with
  | some code =>
    refine h.dropPending.addSegment ?_
    simp only [Segment.mapLines, h.line]
  | none =>
    obtain ⟨hs, ht⟩ | ⟨m, n, hs, ht, hmn⟩ := h.pending_cases
    · rw [hs, ht]
      exact h
    · rw [hs, ht]
      dsimp only
      split
      · exact h.dropPending
      · have hcleared : Like f g before { s with pending := none } { t with pending := none } :=
          ⟨h.line, h.statement, h.scopes, rfl, h.found⟩
        refine hcleared.addSegment ?_
        simp only [NativeMethod.mapLines, NativeMethod.mk.injEq] at hmn
        simp only [Segment.mapLines, Declaration.mapLines, declarationOf, hmn, h.line, hend]

theorem blank (hfg : Parallel f g) (h : s.Like f g before t) (c : Char) (hc : isBlank c = true) :
    (s.blank c).Like f g before (t.blank c) := by
  refine ⟨?_, h.statement.putBlank c hc, h.scopes, h.pending, h.found⟩
  simp only [Scan.blank]
  split
  · exact hfg _ _ 1 h.line
  · exact h.line

theorem comment (hfg : Parallel f g) (h : s.Like f g before t) (body : Text) :
    (s.comment body).Like f g before (t.comment body) := by
  have hend : f (s.line + feeds body) = g (t.line + feeds body) := hfg _ _ _ h.line
  have hsegment := h.commentSegment body hend
  exact ⟨hend, hsegment.statement.putBlank ' ' rfl, hsegment.scopes, hsegment.pending,
    hsegment.found⟩

theorem putText (h : s.Like f g before t) (u : Text) :
    (s.putText u).Like f g before (t.putText u) :=
  h.setStatement (h.statement.putText h.line u h.statement.depth)

theorem textBlock (hfg : Parallel f g) (h : s.Like f g before t) (body : Text) :
    (s.textBlock body).Like f g before (t.textBlock body) := by
  have hline : f (s.line + feeds body) = g (t.line + feeds body) := hfg _ _ _ h.line
  have hmoved : Like f g before { s with line := s.line + feeds body }
      { t with line := t.line + feeds body } :=
    ⟨hline, h.statement, h.scopes, h.pending, h.found⟩
  exact hmoved.putText _

/-- Alike statements declare the same method or have the same fault. -/
theorem endStatement (h : s.Like f g before t) :
    Agree f g (Like f g before) s.endStatement t.endStatement := by
  have hnative := h.statement.text.isNativeStatement_eq
  unfold Scan.endStatement
  simp only [← hnative]
  split
  · next hs =>
    have hline := h.statement.line (h.statement.begun_of_native hs)
    have hmethod := readNativeMethod_mapLines s.owner s.statement.text hline
    rw [h.statement.text.readNativeMethod_eq s.owner t.statement.line, h.owner_eq] at hmethod
    rw [h.owner_eq]
    cases hm : readNativeMethod t.owner s.statement.line s.statement.text with
    | error fault =>
      rw [hm] at hmethod
      cases hn : readNativeMethod t.owner t.statement.line t.statement.text with
      | ok n =>
        rw [hn] at hmethod
        cases hmethod
      | error fault' =>
        rw [hn] at hmethod
        cases hmethod
        refine .error ?_
        simp only [Problem.mapLines, hline]
    | ok m =>
      rw [hm] at hmethod
      cases hn : readNativeMethod t.owner t.statement.line t.statement.text with
      | error fault' =>
        rw [hn] at hmethod
        cases hmethod
      | ok n =>
        rw [hn] at hmethod
        have hmn := Except.ok.inj hmethod
        exact .ok ⟨h.line, .clear _ _, h.scopes, congrArg some hmn, h.found⟩
  · exact .ok (h.setStatement (.clear _ _))

theorem openScope (h : s.Like f g before t) : s.openScope.Like f g before t.openScope := by
  refine ⟨h.line, .clear _ _, .cons ?_ h.scopes, h.pending, h.found⟩
  rw [← h.statement.depth]
  split
  · next hdepth => exact ⟨rfl, .some ⟨h.statement, h.statement.deep hdepth⟩⟩
  · exact ⟨h.statement.text.className?_eq, .none⟩

theorem closeScope (h : s.Like f g before t) :
    Agree f g (Like f g before) s.closeScope t.closeScope := by
  have hscopes := h.scopes
  unfold Scan.closeScope
  cases hs : s.scopes with
  | nil =>
    rw [hs, List.forall₂_nil_left_iff] at hscopes
    rw [hscopes]
    refine .error ?_
    simp only [Problem.mapLines, h.line]
  | cons scope scopes =>
    rw [hs, List.forall₂_cons_left_iff] at hscopes
    obtain ⟨scope', scopes', hscope, hlater, ht⟩ := hscopes
    rw [ht]
    refine .ok ⟨h.line, ?_, hlater, h.pending, h.found⟩
    have houter := hscope.outer
    cases hx : scope.outer with
    | none =>
      rw [hx] at houter
      cases hy : scope'.outer with
      | none => exact .clear _ _
      | some y =>
        rw [hy] at houter
        cases houter
    | some x =>
      rw [hx] at houter
      cases hy : scope'.outer with
      | none =>
        rw [hy] at houter
        cases houter
      | some y =>
        rw [hy] at houter
        cases houter with
        | some hxy => exact hxy.1.resume hxy.2

theorem mark (h : s.Like f g before t) (c : Char) :
    Agree f g (Like f g before) (s.mark c) (t.mark c) := by
  unfold Scan.mark
  split
  · exact h.endStatement
  split
  · exact .ok h.openScope
  split
  · exact h.closeScope
  · refine .ok (h.setStatement (h.statement.putText h.line [c] ?_))
    rw [h.statement.depth]

/-- One lexeme: alike scans are alike behind it, or find the same fault. -/
theorem read (hfg : Parallel f g) (h : s.Like f g before t) (l : Lexeme)
    (hl : ∀ c, l = .blank c → isBlank c = true) :
    Agree f g (Like f g before) (s.read l) (t.read l) := by
  cases l with
  | blank c => exact .ok (h.blank hfg c (hl c rfl))
  | comment body => exact .ok (h.comment hfg body)
  | lineComment body => exact .ok (h.dropPending.blank hfg ' ' rfl)
  | literal quote body => exact .ok (h.dropPending.putText _)
  | textBlock body => exact .ok (h.dropPending.textBlock hfg body)
  | mark c => exact h.dropPending.mark c

/-- Alike scans find the same in the rest of a file, or the same fault. -/
theorem readFrom (hfg : Parallel f g) (h : s.Like f g before t) (rest : Text) :
    Agree f g (fun c d => d.mapLines g = before.add (c.mapLines f)) (s.readFrom rest)
      (t.readFrom rest) := by
  induction hlength : rest.length using Nat.strong_induction_on generalizing s t rest with
  | _ n ih =>
  subst hlength
  cases rest with
  | nil =>
    rw [readFrom_nil, readFrom_nil]
    exact .ok h.finish
  | cons c rest =>
    cases hlexeme : lexeme? c rest with
    | error fault =>
      rw [readFrom_of_error s hlexeme, readFrom_of_error t hlexeme]
      refine .error ?_
      simp only [Problem.mapLines, h.line]
    | ok found =>
      obtain ⟨l, tail⟩ := found
      have hblank : ∀ d, l = .blank d → isBlank d = true := by
        rintro d rfl
        obtain ⟨rfl, -, hd⟩ := eq_of_lexeme?_blank hlexeme
        exact hd
      rw [readFrom_of_ok s hlexeme, readFrom_of_ok t hlexeme]
      exact (h.read hfg l hblank).bind fun a b hab =>
        ih tail.length (length_of_lexeme? hlexeme) hab tail rfl

end Scan.Like

end Source

end NativeGlue
