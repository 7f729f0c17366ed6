import NativeGlue.Proofs.Source.Lexing
import NativeGlue.Proofs.Traversal

/-!
Where segments stand in a source file. Every segment is the body of a block comment, and its code
is the part of the file between the comment's opener and the first `*/` behind that. A lexical
reading, which sees no statement, finds the same comments, and among them every raw block.
-/

namespace NativeGlue

open Text

namespace Segment

def isRaw : Segment → Bool
  | raw _ => true
  | _ => false

def code : Segment → Text
  | raw block => block.code
  | declared d => d.code
  | linked m => m.declaration.code

/-- What stands before the code in the source. -/
def opener : Segment → Text
  | raw _ => "/*JNI".toList
  | _ => "/*".toList

end Segment

namespace Source

/-- The text of lexemes that stand one after the other. -/
def spelled (ls : List Lexeme) : Text := ls.flatMap Lexeme.spelling

/-- A block comment among the lexemes of a file. -/
structure PlacedComment where
  ahead : List Lexeme
  body : Text
  behind : List Lexeme
  deriving DecidableEq, Repr

/-- The block comments among lexemes that stand behind the given ones. -/
def commentsFrom (ahead : List Lexeme) : List Lexeme → List PlacedComment
  | [] => []
  | .comment body :: ls => ⟨ahead, body, ls⟩ :: commentsFrom (ahead ++ [.comment body]) ls
  | l :: ls => commentsFrom (ahead ++ [l]) ls

def comments (ls : List Lexeme) : List PlacedComment := commentsFrom [] ls

/-- A part of a text, with what stands on either side of it. -/
structure Slice where
  before : Text
  text : Text
  after : Text
  deriving DecidableEq, Repr

namespace Slice

def whole (p : Slice) : Text := p.before ++ p.text ++ p.after

def start (p : Slice) : Nat := p.before.length

def stop (p : Slice) : Nat := p.before.length + p.text.length

/-- The slice of a text is the code of a segment: it stands behind the opener and ends before the
first `*/` from there on. -/
structure Holds (p : Slice) (t : Text) (segment : Segment) : Prop where
  whole_eq : p.whole = t
  text_eq : p.text = segment.code
  opened : segment.opener <:+ p.before
  closed : cut? "*/".toList (p.text ++ p.after) = some (p.text, p.after.drop 2)
  without_end : ¬ "*/".toList <:+: p.text

end Slice

namespace PlacedComment

def lexemes (p : PlacedComment) : List Lexeme := p.ahead ++ .comment p.body :: p.behind

/-- What stands behind the given opener and before the end of the comment. -/
def slice (p : PlacedComment) (opener inside : Text) : Slice :=
  ⟨spelled p.ahead ++ opener, inside, "*/".toList ++ spelled p.behind⟩

/-- The code of a tagged comment. -/
def rawSlice? (p : PlacedComment) : Option Slice :=
  (dropStart? Scan.rawTag p.body).map (p.slice "/*JNI".toList)

end PlacedComment

theorem spelled_append (ls ms : List Lexeme) : spelled (ls ++ ms) = spelled ls ++ spelled ms :=
  List.flatMap_append

theorem spelled_singleton (l : Lexeme) : spelled [l] = l.spelling := List.flatMap_singleton ..

theorem Lexed.spelled_eq {ls : List Lexeme} {t : Text} (h : Lexed ls t) : spelled ls = t := by
  induction h with
  | nil => rfl
  | cons hl hls ih => rw [spelled, List.flatMap_cons, ← spelled, ih]

theorem lexemes_of_mem_commentsFrom {ahead ls : List Lexeme} {p : PlacedComment}
    (h : p ∈ commentsFrom ahead ls) : ahead <+: p.ahead ∧ p.lexemes = ahead ++ ls := by
  fun_induction commentsFrom ahead ls with
  | case1 => cases h
  | case2 ahead body ls ih =>
    rcases List.mem_cons.mp h with rfl | h
    · exact ⟨List.prefix_refl _, rfl⟩
    · obtain ⟨hahead, hlexemes⟩ := ih h
      exact ⟨(List.prefix_append _ _).trans hahead, by simpa using hlexemes⟩
  | case3 ahead l ls hne ih =>
    obtain ⟨hahead, hlexemes⟩ := ih h
    exact ⟨(List.prefix_append _ _).trans hahead, by simpa using hlexemes⟩

/-- Each comment stands behind the end of the one before it. -/
theorem commentsFrom_pairwise (ahead ls : List Lexeme) :
    (commentsFrom ahead ls).Pairwise fun p q => p.ahead ++ [.comment p.body] <+: q.ahead := by
  fun_induction commentsFrom ahead ls with
  | case1 => exact .nil
  | case2 ahead body ls ih => exact .cons (fun q hq => (lexemes_of_mem_commentsFrom hq).1) ih
  | case3 ahead l ls hne ih => exact ih

namespace Scan

/-- The segment that a comment gives to a scan. -/
def segment? (s : Scan) (body : Text) : Option Segment :=
  match dropStart? rawTag body with
  | some code => some (.raw ⟨code, s.line⟩)
  | none =>
    if body.head? = some '*' then none
    else s.pending.map fun m => .declared (declarationOf m body s.line (s.line + feeds body))

theorem comment_segments (s : Scan) (body : Text) :
    (s.comment body).segments = s.segments ++ (s.segment? body).toList := by
  obtain ⟨-, -, -, hsegments⟩ := s.dropPending_fields
  unfold comment commentSegment segment?
  cases dropStart? rawTag body with
  | some code => simp [addSegment, hsegments]
  | none =>
    cases s.pending with
    | none => simp
    | some m =>
      by_cases hstar : body.head? = some '*'
      · simp [hstar, hsegments]
      · simp [hstar, addSegment]

/-- A comment gives a raw block or the method that waits. -/
theorem mem_segment?_cases {s : Scan} {body : Text} {x : Segment} (h : x ∈ s.segment? body) :
    (∃ block, x = .raw block) ∨ ∃ m, s.pending = some m ∧
      x = .declared (declarationOf m body s.line (s.line + feeds body)) := by
  unfold segment? at h
  split at h
  · exact .inl ⟨_, (Option.some.inj h).symm⟩
  · split_ifs at h
    · cases h
    · obtain ⟨m, hm, rfl⟩ := Option.map_eq_some_iff.mp h
      exact .inr ⟨m, hm, rfl⟩

theorem finish_segments (s : Scan) : s.finish.segments = s.segments := s.dropPending_fields.2.2.2

/-- Nothing but a comment gives a segment. -/
theorem read_segments {s next : Scan} {l : Lexeme} (h : s.read l = .ok next)
    (hl : ∀ body, l ≠ .comment body) : next.segments = s.segments := by
  obtain ⟨-, -, -, hsegments⟩ := s.dropPending_fields
  rw [← hsegments]
  cases l with
  | comment body => exact absurd rfl (hl body)
  | blank c =>
    cases h
    exact hsegments.symm
  | lineComment body =>
    cases h
    rfl
  | literal quote body =>
    cases h
    rfl
  | textBlock body =>
    cases h
    rfl
  | mark c =>
    rcases mark_cases h with ⟨-, h⟩ | ⟨-, rfl⟩ | ⟨-, h⟩ | ⟨-, -, -, rfl⟩
    · exact (endStatement_fields h).2
    · rfl
    · exact closeScope_segments h
    · rfl

end Scan

/-- The line feeds that a scan counts in a lexeme. -/
def Lexeme.lines : Lexeme → Nat
  | blank c => feeds [c]
  | comment body => feeds body
  | textBlock body => feeds body
  | lineComment _ | literal _ _ | mark _ => 0

def linesIn : List Lexeme → Nat
  | [] => 0
  | l :: ls => l.lines + linesIn ls

theorem linesIn_append (ls ms : List Lexeme) : linesIn (ls ++ ms) = linesIn ls + linesIn ms := by
  induction ls with
  | nil => exact (Nat.zero_add _).symm
  | cons l ls ih => rw [List.cons_append, linesIn, linesIn, ih, Nat.add_assoc]

/-- The line on which a scan finds the comment's opener. -/
def PlacedComment.line (p : PlacedComment) : Int := 1 + linesIn p.ahead

def PlacedComment.isTagged (p : PlacedComment) : Bool := (dropStart? Scan.rawTag p.body).isSome

/-- The segment is made from the comment. -/
def PlacedComment.Gives (p : PlacedComment) : Segment → Prop
  | .raw block => p.body = Scan.rawTag ++ block.code ∧ block.line = p.line
  | .declared d => p.isTagged = false ∧ p.body = d.code ∧ d.startLine = p.line ∧
      d.endLine = p.line + feeds d.code
  | .linked _ => False

namespace Scan

theorem read_line {s next : Scan} {l : Lexeme} (h : s.read l = .ok next) :
    next.line = s.line + l.lines := by
  obtain ⟨hline, -, -, -⟩ := s.dropPending_fields
  cases l with
  | blank c =>
    cases h
    by_cases hc : c = '\n' <;> simp [blank, Lexeme.lines, feeds, hc]
  | comment body =>
    cases h
    rfl
  | lineComment body =>
    cases h
    simpa [blank, Lexeme.lines] using hline
  | literal quote body =>
    cases h
    simpa [putText, Lexeme.lines] using hline
  | textBlock body =>
    cases h
    simp [textBlock, putText, Lexeme.lines, hline]
  | mark c =>
    have hkept : next.line = s.dropPending.line := by
      rcases mark_cases h with ⟨-, h⟩ | ⟨-, rfl⟩ | ⟨-, h⟩ | ⟨-, -, -, rfl⟩
      · rcases endStatement_cases h with ⟨-, rfl⟩ | ⟨-, m, -, rfl⟩ <;> rfl
      · rfl
      · obtain ⟨scope, scopes, -, rfl⟩ := closeScope_cases h
        rfl
      · rfl
    rw [hkept, hline]
    exact (Int.add_zero s.line).symm

theorem segment?_gives {s : Scan} {p : PlacedComment} {segment : Segment}
    (hline : s.line = p.line) (h : s.segment? p.body = some segment) : p.Gives segment := by
  unfold segment? at h
  cases htag : dropStart? rawTag p.body with
  | some code =>
    rw [htag] at h
    cases h
    exact ⟨eq_append_of_dropStart? htag, hline⟩
  | none =>
    simp only [htag] at h
    split at h
    · cases h
    · obtain ⟨m, -, rfl⟩ := Option.map_eq_some_iff.mp h
      exact ⟨by rw [PlacedComment.isTagged, htag]; rfl, rfl, hline, by rw [← hline]; rfl⟩

theorem isSome_segment?_of_isTagged (s : Scan) {p : PlacedComment} (h : p.isTagged = true) :
    (s.segment? p.body).isSome = true := by
  obtain ⟨code, hcode⟩ := Option.isSome_iff_exists.mp h
  simp [segment?, hcode]

theorem isTagged_eq_false_of_segment? {s : Scan} {p : PlacedComment}
    (h : s.segment? p.body = none) : p.isTagged = false := by
  by_contra htag
  have hsome := s.isSome_segment?_of_isTagged (p := p) (by simpa using htag)
  rw [h] at hsome
  cases hsome

/-- What a scan finds among lexemes are segments from comments in their order, and from every
tagged comment one. -/
theorem exists_found_of_run (s last : Scan) (ahead ls : List Lexeme)
    (hline : s.line = 1 + linesIn ahead) (h : s.run ls = .ok last) :
    ∃ found : List (PlacedComment × Segment),
      last.segments = s.segments ++ found.map Prod.snd ∧
      (found.map Prod.fst).Sublist (commentsFrom ahead ls) ∧
      (found.map Prod.fst).filter PlacedComment.isTagged =
        (commentsFrom ahead ls).filter PlacedComment.isTagged ∧
      ∀ f ∈ found, f.1.Gives f.2 := by
  induction ls generalizing s ahead with
  | nil =>
    cases h
    exact ⟨[], by simp [commentsFrom]⟩
  | cons l ls ih =>
    obtain ⟨next, hread, hrun⟩ := (run_cons_eq_ok_iff s last l ls).mp h
    have hnext : next.line = 1 + linesIn (ahead ++ [l]) := by
      rw [read_line hread, hline, linesIn_append]
      simp [linesIn, Int.add_assoc]
    obtain ⟨found, hsegments, hsublist, htagged, hgives⟩ := ih next (ahead ++ [l]) hnext hrun
    by_cases hcomment : ∃ body, l = .comment body
    · obtain ⟨body, rfl⟩ := hcomment
      let p : PlacedComment := ⟨ahead, body, ls⟩
      cases hread
      rw [comment_segments] at hsegments
      cases hnew : s.segment? body with
      | none =>
        have huntagged : p.isTagged = false := isTagged_eq_false_of_segment? hnew
        refine ⟨found, by simpa [hnew] using hsegments, hsublist.cons p, ?_, hgives⟩
        rw [commentsFrom, List.filter_cons_of_neg (by rw [huntagged]; simp), htagged]
      | some segment =>
        have hp : p.Gives segment := segment?_gives hline hnew
        refine ⟨(p, segment) :: found, by simpa [hnew] using hsegments, hsublist.cons_cons p,
          ?_, ?_⟩
        · rw [commentsFrom, List.map_cons, List.filter_cons, List.filter_cons, htagged]
        · rw [List.forall_mem_cons]
          exact ⟨hp, hgives⟩
    · have hne : ∀ body, l ≠ .comment body := fun body hl => hcomment ⟨body, hl⟩
      have hskip : commentsFrom ahead (l :: ls) = commentsFrom (ahead ++ [l]) ls := by
        rw [commentsFrom]
        exact hne
      rw [read_segments hread hne] at hsegments
      exact ⟨found, hsegments, hskip ▸ hsublist, hskip ▸ htagged, hgives⟩

end Scan

theorem Lexed.exists_endsBefore {ls : List Lexeme} {t : Text} (h : Lexed ls t) (l : Lexeme)
    (hl : l ∈ ls) : ∃ next, l.EndsBefore next := by
  induction h with
  | nil => cases hl
  | @cons m ls t hm hls ih =>
    rcases List.mem_cons.mp hl with rfl | hl
    · exact ⟨t.head?, hm⟩
    · exact ih hl

theorem mem_of_mem_comments {ls : List Lexeme} {p : PlacedComment} (h : p ∈ comments ls) :
    .comment p.body ∈ ls := by
  have hlexemes := (lexemes_of_mem_commentsFrom h).2
  rw [List.nil_append] at hlexemes
  rw [← hlexemes]
  simp [PlacedComment.lexemes]

/-- The whole text around a part of a comment. -/
theorem PlacedComment.whole_slice {ls : List Lexeme} {p : PlacedComment} (h : p ∈ comments ls)
    (opener inside : Text) (hbody : "/*".toList ++ p.body = opener ++ inside) :
    (p.slice opener inside).whole = spelled ls := by
  have hlexemes := (lexemes_of_mem_commentsFrom h).2
  rw [List.nil_append] at hlexemes
  rw [← hlexemes]
  have hspelling : spelled p.lexemes =
      spelled p.ahead ++ ("/*".toList ++ p.body ++ ("*/".toList ++ spelled p.behind)) := by
    simp [lexemes, spelled, Lexeme.spelling]
  rw [hspelling, hbody]
  simp [Slice.whole, slice]

/-- The comment of a segment holds the segment's code behind its opener. -/
theorem PlacedComment.Gives.body_eq {p : PlacedComment} {segment : Segment}
    (h : p.Gives segment) : "/*".toList ++ p.body = segment.opener ++ segment.code := by
  cases segment with
  | raw block =>
    rw [h.1]
    rfl
  | declared d =>
    rw [h.2.1]
    rfl
  | linked m => exact h.elim

theorem PlacedComment.Gives.holds {ls : List Lexeme} {t : Text} {p : PlacedComment}
    {segment : Segment} (hls : Lexed ls t) (hp : p ∈ comments ls) (h : p.Gives segment) :
    (p.slice segment.opener segment.code).Holds t segment := by
  obtain ⟨next, hbody⟩ := hls.exists_endsBefore _ (mem_of_mem_comments hp)
  have hinside : segment.code <:+: p.body := by
    cases segment with
    | raw block =>
      rw [h.1]
      exact (List.suffix_append _ _).isInfix
    | declared d =>
      rw [h.2.1]
      exact List.infix_rfl
    | linked m => exact h.elim
  have hfree : ¬ "*/".toList <:+: segment.code := fun hin => hbody (hin.trans hinside)
  refine ⟨?_, rfl, List.suffix_append _ _, ?_, hfree⟩
  · rw [p.whole_slice hp _ _ h.body_eq, hls.spelled_eq]
  · rw [← commentBody?_eq_cut?]
    exact commentBody?_append _ _ hfree

theorem PlacedComment.rawSlice?_eq {p : PlacedComment} {segment : Segment} (h : p.Gives segment) :
    p.rawSlice? = if segment.isRaw then some (p.slice segment.opener segment.code) else none := by
  cases segment with
  | raw block =>
    rw [rawSlice?, h.1, dropStart?_append]
    rfl
  | declared d =>
    have htag := h.1
    rw [isTagged, Option.isSome_eq_false_iff, Option.isNone_iff_eq_none] at htag
    rw [rawSlice?, htag]
    rfl
  | linked m => exact h.elim

/-- Only tagged comments hold raw code. -/
theorem filterMap_rawSlice?_filter (ps : List PlacedComment) :
    (ps.filter PlacedComment.isTagged).filterMap PlacedComment.rawSlice? =
      ps.filterMap PlacedComment.rawSlice? := by
  rw [List.filterMap_filter]
  refine List.filterMap_congr fun p _ => ?_
  rw [PlacedComment.rawSlice?, PlacedComment.isTagged]
  cases dropStart? Scan.rawTag p.body <;> rfl

theorem PlacedComment.stop_lt_start {p q : PlacedComment} {segment later : Segment}
    (hp : p.Gives segment) (hpq : p.ahead ++ [.comment p.body] <+: q.ahead) :
    (p.slice segment.opener segment.code).stop < (q.slice later.opener later.code).start := by
  obtain ⟨between, hahead⟩ := hpq
  have hbody := congrArg List.length hp.body_eq
  have hend : "*/".toList.length = 2 := rfl
  simp only [Slice.stop, Slice.start, slice, ← hahead, spelled_append, spelled_singleton,
    Lexeme.spelling, List.length_append, hend] at hbody ⊢
  omega

/-- Segments are slices of the file, each behind the one before it, and the raw blocks are
exactly the tagged comments of the lexical reading. -/
theorem segments_are_slices (t : Text) (contents : Contents) (h : Source.read t = .ok contents) :
    ∃ ls, (∀ ms, Lexed ms t ↔ ms = ls) ∧ ∃ found : List (Slice × Segment),
      found.map Prod.snd = contents.segments ∧
      (∀ f ∈ found, f.1.Holds t f.2 ∧
        ∃ p ∈ comments ls, f.1 = p.slice f.2.opener f.2.code) ∧
      found.Pairwise (fun f g => f.1.stop < g.1.start) ∧
      (found.filter (·.2.isRaw)).map Prod.fst = (comments ls).filterMap PlacedComment.rawSlice? := by
  obtain ⟨ls, last, hls, hrun, rfl⟩ := (read_eq_ok_iff t contents).mp h
  obtain ⟨found, hsegments, hsublist, htagged, hgives⟩ :=
    Scan.exists_found_of_run .start last [] ls rfl hrun
  have hmem : ∀ f ∈ found, f.1 ∈ comments ls := fun f hf =>
    hsublist.subset (List.mem_map_of_mem hf)
  have hpairwise := (commentsFrom_pairwise [] ls).sublist hsublist
  rw [List.pairwise_map] at hpairwise
  refine ⟨ls, fun ms => ?_, found.map fun f => (f.1.slice f.2.opener f.2.code, f.2), ?_, ?_, ?_, ?_⟩
  · rw [lexed_iff, (lexed_iff ls t).mp hls]
    simp [eq_comm]
  · rw [List.map_map]
    exact hsegments.symm.trans (Scan.finish_segments last).symm
  · rw [List.forall_mem_map]
    exact fun f hf => ⟨(hgives f hf).holds hls (hmem f hf), f.1, hmem f hf, rfl⟩
  · rw [List.pairwise_map]
    exact hpairwise.imp_of_mem fun hf _ hfg => PlacedComment.stop_lt_start (hgives _ hf) hfg
  · calc
      _ = found.filterMap fun f =>
          if f.2.isRaw then some (f.1.slice f.2.opener f.2.code) else none := by
        rw [List.filter_map, List.map_map, ← List.filterMap_eq_map, List.filterMap_filter]
        rfl
      _ = (found.map Prod.fst).filterMap PlacedComment.rawSlice? := by
        rw [List.filterMap_map]
        exact List.filterMap_congr fun f hf => (PlacedComment.rawSlice?_eq (hgives f hf)).symm
      _ = ((found.map Prod.fst).filter PlacedComment.isTagged).filterMap
          PlacedComment.rawSlice? := (filterMap_rawSlice?_filter _).symm
      _ = (comments ls).filterMap PlacedComment.rawSlice? := by
        rw [htagged]
        exact filterMap_rawSlice?_filter _

/-- A class with openers inside a literal and a line comment, a raw block inside a statement and
a method with its code before an idle comment. -/
def mixedFile : Text :=
  ("class A \x7b\nString s = \"/*JNI no*/\"; // /*JNI no*/\nint x /*JNI a*/ ;\n" ++
    "native void f(); /*b*/ /*c*/\n/*JNI*/ \x7d").toList

def mixedContents : Contents where
  segments :=
    [.raw ⟨" a".toList, 3⟩, .declared ⟨['A'], ['f'], false, [], ['b'], 4, 4, 4⟩, .raw ⟨[], 5⟩]
  skipped := []

theorem mixedFile_slices : Source.read mixedFile = .ok mixedContents ∧
    ∃ ls, (∀ ms, Lexed ms mixedFile ↔ ms = ls) ∧ ∃ found : List (Slice × Segment),
      found.map Prod.snd = mixedContents.segments ∧
      (∀ f ∈ found, f.1.Holds mixedFile f.2 ∧
        ∃ p ∈ comments ls, f.1 = p.slice f.2.opener f.2.code) ∧
      found.Pairwise (fun f g => f.1.stop < g.1.start) ∧
      (found.filter (·.2.isRaw)).map Prod.fst =
        (comments ls).filterMap PlacedComment.rawSlice? := by
  have hread : Source.read mixedFile = .ok mixedContents :=
    eq_ok_of_toOption (by decide +kernel)
  exact ⟨hread, segments_are_slices mixedFile mixedContents hread⟩

end Source

end NativeGlue
