import NativeGlue.Proofs.Source.Heading
import NativeGlue.Proofs.Source.Passage

/-!
The round trip of outlines. Reading the source file of any forest of classes succeeds and finds
what the outline says of itself. Inside the body of a method the invariant is that the statement
holds no parenthesis, so that no semicolon there ends a native method, whatever the braces open.
Between members the scan is at rest, its open scopes name the classes around it, and its line is
the last one printed.
-/

namespace NativeGlue.Outline

open Text Source

theorem isPlain_of_isBlank (c : Char) (h : isBlank c = true) : isPlain c = true :=
  isPlain_of isBlank (by decide) c h

theorem isPlain_of_isSpelling (c : Char) (h : isSpelling c = true) : isPlain c = true :=
  isPlain_of isSpelling (by decide) c h

theorem Blanks.flat (b : Blanks) : Flat b.text :=
  .of_forall (isBlank · = true) b.text b.blank (by decide) (by decide)

/-- Inside the body of a method. -/
structure Within (s : Scan) : Prop where
  none_pending : s.pending = none
  level : s.statement.depth = 0
  flat : '(' ∉ s.statement.text

theorem Within.of_fresh (s : Scan) (h : s.Fresh) : Within s := by
  obtain ⟨hpending, statement, hclear⟩ := h
  refine ⟨hpending, ?_, ?_⟩
  · rw [hclear]
    rfl
  · rw [hclear]
    exact List.not_mem_nil

/-- More of a body that holds no parenthesis. -/
theorem leads_within (s : Scan) (h : Within s) (t : Text) (hplain : ∀ c ∈ t, isPlain c = true)
    (hflat : Flat t) : Scan.Leads Within s t (s.takeAll t) s.scopes .none := by
  refine Scan.leads_takeAll s t h.none_pending hplain ⟨?_, ?_, ?_⟩
  · exact (s.takeAll_pending t).trans h.none_pending
  · rw [s.takeAll_depth, foldl_depthAfter t _ hflat, h.level]
  · rw [s.takeAll_text, List.mem_append, not_or]
    exact ⟨h.flat, fun hmem => (hflat '(' hmem).1 rfl⟩

theorem leads_blanks (s : Scan) (h : Within s) (b : Blanks) :
    Scan.Leads Within s b.text (s.takeAll b.text) s.scopes .none :=
  leads_within s h b.text (fun c hc => isPlain_of_isBlank c (b.blank c hc)) b.flat

/-- The body of a method holds nothing, and nothing in it is read as anything else. -/
theorem leads_body (b : Body) (s : Scan) (h : Within s) :
    ∃ next, Scan.Leads Within s b.text next s.scopes .none := by
  induction b generalizing s with
  | done => exact ⟨s, .nil s h⟩
  | word gap name rest ih =>
    have hgap := leads_blanks s h gap
    have hname := leads_within _ hgap.state name.text
      (fun c hc => isPlain_of_isSpelling c (name.spelled.2 c hc)) (name.spelled.flat _)
    obtain ⟨next, hrest⟩ := ih _ hname.state
    have hall := hgap.stay (hname.stay hrest)
    refine ⟨next, ?_⟩
    simpa [Body.text, Contents.none_add] using hall
  | semicolon gap rest ih =>
    have hgap := leads_blanks s h gap
    have hnative : isNativeStatement (s.takeAll gap.text).statement.text = false := by
      simp [isNativeStatement, hgap.state.flat]
    obtain ⟨closed, hclosed⟩ := Scan.leads_semicolon _ hgap.state.none_pending hnative
    obtain ⟨next, hrest⟩ := ih closed (.of_fresh closed hclosed.state)
    exact ⟨next, hgap.stay (hclosed.stay hrest)⟩
  | braces gap inner close rest ihInner ihRest =>
    have hgap := leads_blanks s h gap
    have hopen := Scan.leads_open _ hgap.state.none_pending hgap.state.level
    obtain ⟨inside, hinner⟩ := ihInner _ (.of_fresh _ hopen.state)
    have hinside := hopen.stay (hinner.stay (leads_blanks inside hinner.state close))
    rw [hgap.scopes_eq] at hinside
    obtain ⟨closed, hclosed⟩ := Scan.leads_close _ _ s.scopes hinside.scopes_eq
    obtain ⟨next, hrest⟩ := ihRest closed (.of_fresh closed hclosed.state)
    have hall := hgap.trans (hinside.trans (hclosed.stay hrest))
    refine ⟨next, ?_⟩
    simpa [Body.text, Contents.none_add] using hall

/-- The names of the classes that the open scopes belong to, outermost first. -/
def path (scopes : List Scope) : List Text := scopes.reverse.filterMap (·.name)

theorem path_cons (name : Text) (scopes : List Scope) :
    path (⟨some name, none⟩ :: scopes) = path scopes ++ [name] := by
  simp [path]

theorem owner_eq (s : Scan) (h : path s.scopes ≠ []) :
    s.owner = some (binaryName (path s.scopes)) := by
  have hnames : s.scopes.reverse.filterMap (·.name) = path s.scopes := rfl
  unfold Scan.owner
  rw [hnames]
  split
  · next hnil => exact absurd hnil h
  · rfl

/-- A brace behind a statement. -/
theorem leads_brace (s : Scan) (line : Int) (text : Text) (h : s.Stands line text) :
    ∃ next, Scan.Leads Scan.Fresh s [' ', '{'] next
      (⟨className? (text ++ [' ']), none⟩ :: s.scopes) .none := by
  obtain ⟨blanks, hblanks, htext⟩ := h.text_eq
  have hspace : Scan.Leads
      (fun next => next.pending = none ∧ next.statement.depth = 0 ∧
        next.statement.text = blanks ++ (text ++ [' ']))
      s [' '] (s.takeAll [' ']) s.scopes .none := by
    refine Scan.leads_takeAll s [' '] h.none_pending (List.forall_mem_singleton.mpr rfl)
      ⟨(s.takeAll_pending [' ']).trans h.none_pending, ?_, ?_⟩
    · rw [s.takeAll_depth, h.level]
      rfl
    · rw [s.takeAll_text, htext, List.append_assoc]
  obtain ⟨hpending, hlevel, hread⟩ := hspace.state
  have hopen := Scan.leads_open _ hpending hlevel
  rw [hread, className?_blanks_append blanks _ hblanks, hspace.scopes_eq] at hopen
  exact ⟨_, hspace.trans hopen⟩

theorem headText_chars (kind : ClassKind) (name : Name) :
    ∀ c ∈ headText kind name, c = ' ' ∨ isSpelling c = true := by
  intro c hc
  rcases List.mem_append.mp hc with hc | hc
  · have hkind : kind.text.all isSpelling = true := by cases kind <;> decide
    exact .inr (List.all_eq_true.mp hkind c hc)
  · rcases List.mem_cons.mp hc with rfl | hc
    · exact .inl rfl
    · exact .inr (name.spelled.2 c hc)

/-- A class leads on as its members do, in the scope that bears its name. -/
theorem leads_class (kind : ClassKind) (name : Name) (inside : Text) (found : Contents) (s : Scan)
    (hs : s.AtRest)
    (hinside : ∀ inner : Scan, inner.AtRest → inner.scopes = ⟨some name.text, none⟩ :: s.scopes →
      inner.line = s.line → ∃ next, Scan.Leads Scan.AtRest inner inside next inner.scopes found) :
    ∃ next, Scan.Leads Scan.AtRest s (classText kind name inside) next s.scopes found := by
  have hplain : ∀ c ∈ headText kind name, isPlain c = true := by
    intro c hc
    rcases headText_chars kind name c hc with rfl | hspelling
    · rfl
    · exact isPlain_of_isSpelling c hspelling
  have hflat : Flat (headText kind name) :=
    .of_forall _ _ (headText_chars kind name) (by decide) (by decide)
  obtain ⟨c, hfirst, hblank⟩ : ∃ c, (headText kind name).head? = some c ∧ isBlank c = false := by
    cases kind <;> exact ⟨_, rfl, rfl⟩
  obtain ⟨headed, hhead⟩ := Scan.leads_statement s hs _ c hfirst hblank hplain
    (foldl_depthAfter _ 0 hflat)
  obtain ⟨opened, hopen⟩ := leads_brace headed s.line _ hhead.state
  have hclass := className?_headText kind name [] (by simp)
  rw [List.nil_append] at hclass
  rw [hclass, hhead.scopes_eq] at hopen
  have hline : opened.line = s.line := by
    have hno : '\n' ∉ headText kind name := by
      intro hmem
      rcases headText_chars kind name _ hmem with h | h <;> revert h <;> decide
    rw [hopen.line_eq, hhead.line_eq, show feeds (headText kind name) = 0 from
      List.count_eq_zero.mpr hno]
    exact (Int.add_zero _).trans (Int.add_zero _)
  obtain ⟨last, hlast⟩ := hinside opened (Scan.Fresh.atRest _ hopen.state) hopen.scopes_eq hline
  have hmembers := hopen.stay (hlast.stay (Scan.leads_feed last hlast.state))
  obtain ⟨next, hclose⟩ := Scan.leads_close _ _ s.scopes hmembers.scopes_eq
  have hall := hhead.trans (hmembers.trans (hclose.mono Scan.Fresh.atRest))
  refine ⟨next, ?_⟩
  simpa [classText, Contents.none_add, Contents.add_none] using hall

namespace Heading

variable (h : Heading)

theorem isPlain_of_mem (c : Char) (hc : c ∈ h.text) : isPlain c = true := by
  rcases h.chars c hc with hother | hspelling
  · have hplain : [' ', ',', '(', ')'].all isPlain = true := by decide
    exact List.all_eq_true.mp hplain c hother
  · exact isPlain_of_isSpelling c hspelling

theorem feeds_text : feeds h.text = 0 := by
  refine List.count_eq_zero.mpr ?_
  intro hmem
  rcases h.chars _ hmem with hc | hc <;> revert hc <;> decide

theorem depth_text : h.text.foldl Scan.depthAfter 0 = 0 := by
  have hopen : Scan.depthAfter 0 '(' = 1 := rfl
  have hinside := foldl_depthAfter _ 1 (argumentsText_flat h.arguments)
  rw [argumentsText] at hinside
  rw [text, List.foldl_append, foldl_depthAfter _ 0 h.joined_flat, List.foldl_cons,
    List.foldl_append, hopen, hinside]
  rfl

theorem head?_text : ∃ c, h.text.head? = some c ∧ isBlank c = false := by
  obtain ⟨first, rest, hwords⟩ : ∃ first rest, h.words = first :: rest :=
    List.exists_cons_of_ne_nil (by simp [words])
  obtain ⟨hne, hparts⟩ := h.words_spelled first (hwords ▸ List.mem_cons_self)
  obtain ⟨c, more, rfl⟩ := List.exists_cons_of_ne_nil hne
  obtain ⟨after, hafter⟩ := prefix_join [' '] (c :: more) rest
  refine ⟨c, ?_, isBlank_of_isSpelling c (hparts c List.mem_cons_self)⟩
  rw [text, hwords, ← hafter]
  rfl

/-- The head of a method is read as a statement. -/
theorem leads_text (s : Scan) (hs : s.AtRest) :
    ∃ next, Scan.Leads (Scan.Stands s.line h.text) s h.text next s.scopes .none := by
  obtain ⟨c, hfirst, hblank⟩ := h.head?_text
  exact Scan.leads_statement s hs h.text c hfirst hblank h.isPlain_of_mem h.depth_text

end Heading

theorem leads_ordinary (h : Heading) (body : Body) (s : Scan) (hs : s.AtRest) :
    ∃ next, Scan.Leads Scan.AtRest s (ordinaryText h body) next s.scopes .none := by
  obtain ⟨headed, hhead⟩ := h.leads_text s hs
  obtain ⟨opened, hopen⟩ := leads_brace headed s.line _ hhead.state
  rw [hhead.scopes_eq] at hopen
  obtain ⟨last, hbody⟩ := leads_body body opened (.of_fresh opened hopen.state)
  have hspace := leads_blanks last hbody.state ⟨[' '], List.forall_mem_singleton.mpr rfl⟩
  have hinside := hopen.stay (hbody.stay hspace)
  obtain ⟨next, hclose⟩ := Scan.leads_close _ _ s.scopes hinside.scopes_eq
  have hall := hhead.trans (hinside.trans (hclose.mono Scan.Fresh.atRest))
  refine ⟨next, ?_⟩
  simpa [ordinaryText, Contents.none_add] using hall

theorem leads_native (h : NativeHeading) (code : Option CodeComment) (s : Scan) (hs : s.AtRest)
    (hpath : path s.scopes ≠ []) :
    ∃ next, Scan.Leads Scan.AtRest s (nativeText h code) next s.scopes
      (nativeContents h (path s.scopes) s.line code) := by
  obtain ⟨headed, hhead⟩ := h.leads_text s hs
  obtain ⟨hpending, ⟨blanks, hblanks, htext⟩, hstatement, -⟩ := hhead.state
  have howner := owner_eq headed (by rwa [hhead.scopes_eq])
  have hline : headed.line = s.line := by
    rw [hhead.line_eq, h.feeds_text]
    exact Int.add_zero _
  have hnative := h.isNativeStatement_text blanks hblanks
  rw [hhead.scopes_eq] at howner
  rw [← htext] at hnative
  have hread : readNativeMethod headed.owner headed.statement.line headed.statement.text =
      .ok (h.method (binaryName (path s.scopes)) s.line) := by
    rw [howner, hstatement, htext]
    exact h.readNativeMethod_text _ s.line blanks hblanks
  cases code with
  | none =>
    exact ⟨_, hhead.stay (Scan.leads_await headed _ hpending hnative hread)⟩
  | some c =>
    have hcode := Scan.leads_code headed _ c.body hpending hnative hread c.inside c.code
    rw [hline] at hcode
    exact ⟨_, hhead.stay hcode⟩

theorem rawText_inside (block : Comment) : ¬ "*/".toList <:+: Scan.rawTag ++ block.body := by
  intro hinfix
  have hi := infix_of_infix_cons (by decide) (infix_of_infix_cons (by decide) hinfix)
  exact block.inside (infix_of_infix_cons (by decide) hi)

/-- A member begins a line, and the members after it begin on the line after its last. -/
theorem leads_item (item : Text) (found : Contents) (rest : Members) (s : Scan) (hs : s.AtRest)
    (hpath : path s.scopes ≠ [])
    (hitem : ∀ s₁ : Scan, s₁.AtRest → s₁.scopes = s.scopes → s₁.line = s.line + 1 →
      ∃ next, Scan.Leads Scan.AtRest s₁ item next s₁.scopes found)
    (hrest : ∀ s₁ : Scan, s₁.AtRest → path s₁.scopes ≠ [] →
      ∃ next, Scan.Leads Scan.AtRest s₁ rest.text next s₁.scopes
        (rest.contents (path s₁.scopes) s₁.line)) :
    ∃ next, Scan.Leads Scan.AtRest s ('\n' :: item ++ rest.text) next s.scopes
      (found.add (rest.contents (path s.scopes) (s.line + 1 + feeds item))) := by
  have hfeed := Scan.leads_feed s hs
  obtain ⟨last, hlast⟩ := hitem _ hfeed.state hfeed.scopes_eq hfeed.line_eq
  have hmember := hfeed.stay hlast
  have hline : last.line = s.line + 1 + feeds item := by
    rw [hlast.line_eq, hfeed.line_eq]
    rfl
  obtain ⟨next, hnext⟩ := hrest last hlast.state (by rwa [hmember.scopes_eq])
  rw [hmember.scopes_eq, hline] at hnext
  exact ⟨next, hmember.trans hnext⟩

/-- The members of a class are found in the class that the open scopes name. -/
theorem leads_members (ms : Members) (s : Scan) (hs : s.AtRest) (hpath : path s.scopes ≠ []) :
    ∃ next, Scan.Leads Scan.AtRest s ms.text next s.scopes
      (ms.contents (path s.scopes) s.line) := by
  induction ms generalizing s with
  | done => exact ⟨s, .nil s hs⟩
  | nested kind name inner rest ihInner ihRest =>
    refine leads_item _ _ rest s hs hpath ?_ ihRest
    intro s₁ hs₁ hscopes hline
    refine leads_class kind name inner.text _ s₁ hs₁ ?_
    intro s₂ hs₂ hscopes₂ hline₂
    have hpath₂ : path s₂.scopes = path s.scopes ++ [name.text] := by
      rw [hscopes₂, path_cons, hscopes]
    have hinner := ihInner s₂ hs₂ (by simp [hpath₂])
    rwa [hline₂, hline, hpath₂] at hinner
  | raw block rest ih =>
    refine leads_item _ _ rest s hs hpath ?_ ih
    intro s₁ hs₁ _ hline
    have hraw := s₁.leads_raw block.body hs₁ (rawText_inside block)
    rw [hline] at hraw
    exact ⟨_, hraw⟩
  | native heading code rest ih =>
    refine leads_item _ _ rest s hs hpath ?_ ih
    intro s₁ hs₁ hscopes hline
    have hnative := leads_native heading code s₁ hs₁ (by rwa [hscopes])
    rwa [hline, show path s₁.scopes = path s.scopes by rw [hscopes]] at hnative
  | ordinary heading body rest ih =>
    refine leads_item _ .none rest s hs hpath ?_ ih
    intro s₁ hs₁ _ _
    exact leads_ordinary heading body s₁ hs₁

theorem leads_classTree (c : ClassTree) (s : Scan) (hs : s.AtRest) (hscopes : s.scopes = []) :
    ∃ next, Scan.Leads Scan.AtRest s c.text next []
      (c.members.contents [c.name.text] s.line) := by
  have hclass : ∃ next, Scan.Leads Scan.AtRest s c.text next s.scopes
      (c.members.contents [c.name.text] s.line) := by
    refine leads_class c.kind c.name c.members.text _ s hs ?_
    intro inner hinner hopen hline
    have hpath : path inner.scopes = [c.name.text] := by
      rw [hopen, path_cons, hscopes]
      rfl
    have hmembers := leads_members c.members inner hinner (by simp [hpath])
    rwa [hpath, hline] at hmembers
  rwa [hscopes] at hclass

theorem leads_forest (forest : List ClassTree) (s : Scan) (hs : s.AtRest)
    (hscopes : s.scopes = []) :
    ∃ next, Scan.Leads Scan.AtRest s (print forest) next [] (contentsFrom s.line forest) := by
  induction forest generalizing s with
  | nil =>
    have hnil := Scan.Leads.nil s hs
    rw [hscopes] at hnil
    exact ⟨s, hnil⟩
  | cons c forest ih =>
    obtain ⟨last, hclass⟩ := leads_classTree c s hs hscopes
    cases forest with
    | nil =>
      have hprint : print [c] = c.text := by simp [print, unlines, join]
      refine ⟨last, ?_⟩
      rw [hprint, contentsFrom, contentsFrom, Contents.add_none]
      exact hclass
    | cons next forest =>
      have hprint : print (c :: next :: forest) = c.text ++ ('\n' :: print (next :: forest)) := by
        simp [print, unlines, join_cons_cons]
      have hfeed := Scan.leads_feed last hclass.state
      rw [hclass.scopes_eq] at hfeed
      obtain ⟨final, hrest⟩ := ih _ hfeed.state hfeed.scopes_eq
      have hline : (last.blank '\n').line = s.line + feeds c.text + 1 := by
        rw [hfeed.line_eq, hclass.line_eq]
        rfl
      rw [hline] at hrest
      have hall := hclass.trans (hfeed.trans hrest)
      rw [hprint, contentsFrom]
      exact ⟨final, hall⟩

/-- Reading the source file of a forest of classes finds what the forest says of itself: its raw
blocks and its native methods with code, in the order of the file, each method under the binary
name of its class with its parameters and lines, and a warning for each native method without
code. -/
theorem read_print (forest : List ClassTree) :
    Source.read (print forest) = .ok (contents forest) := by
  have hstart : Scan.start.AtRest := ⟨by simp [Scan.start, Statement.empty], rfl, rfl⟩
  obtain ⟨last, hforest⟩ := leads_forest forest .start hstart rfl
  have hreads := hforest.reads []
  rw [List.append_nil] at hreads
  rw [Scan.read_eq_readFrom, hreads.readFrom_eq, Scan.readFrom_nil, hforest.finish_eq]
  rfl

/-- The outline of a class with a nested class, whose native method has code. -/
def nestedOutline : List ClassTree :=
  let outer : Name := ⟨['A'], rfl, List.forall_mem_singleton.mpr rfl, by decide⟩
  let inner : Name := ⟨['B'], rfl, List.forall_mem_singleton.mpr rfl, by decide⟩
  let method : Name := ⟨['f'], rfl, List.forall_mem_singleton.mpr rfl, by decide⟩
  let heading : NativeHeading :=
    ⟨⟨[⟨"native".toList, by decide⟩], none, method, [⟨⟨.primitive .int, 1⟩, inner⟩]⟩, by decide⟩
  let code : CodeComment := ⟨⟨['1'], by decide⟩, by decide⟩
  [⟨.plain, outer, .nested .enum inner (.native heading (some code) .done) .done⟩]

example : print nestedOutline =
    "class A \x7b\nenum B \x7b\nnative void f(int[] B); /*1*/\n\x7d\n\x7d".toList := by
  rfl

example : contents nestedOutline =
    ⟨[.declared ⟨"A$B".toList, ['f'], false, [⟨['B'], ⟨"int[]".toList, .array .int⟩⟩], ['1'],
      3, 3, 3⟩], []⟩ := by
  rfl

end NativeGlue.Outline
