import NativeGlue.Proofs.Header.Comment
import NativeGlue.Proofs.Header.ParameterSpacing

/-!
Headers in any spacing. Comments and lines become text without prototypes and keep their line feeds;
prototypes lose carriage returns at most, which no signature shows; and a reader that has met no
prototype yet, or has just read one, meets the next where it was printed. Two headers that differ
in the spacing of their types only declare the same heads and types.
-/

namespace NativeGlue

open Text Header
open Outline (Blanks commentText noBlanks oneBlank)

namespace HeaderOutline

section Items

/-- What is left of an item without comments. -/
def Item.clean : Item → Text
  | comment c => blockSubstitute c.body
  | line l => joinReturns (l.text ++ ['\n'])

theorem Line.not_infix_text (l : Line) (part : Text) (hfeed : '\n' ∉ part) (hne : part ≠ [])
    (h : ¬ part <:+: l.text) : ¬ part <:+: l.text ++ ['\n'] := by
  intro hin
  rcases infix_of_infix_append_cons hfeed hin with hleft | hright
  · exact h hleft
  · exact hne (List.infix_nil.mp hright)

theorem Item.erases (i : Item) : Erases i.text i.clean := by
  cases i with
  | comment c => exact erases_comment c.body c.inside
  | line l =>
    apply erases_joinReturns
    · exact l.not_infix_text _ (by decide) (by decide) l.noBlockComment
    · exact l.not_infix_text _ (by decide) (by decide) l.noLineComment
    · simp [text]
    · simp [text]

theorem lineAfter_add_feeds (line : Int) (c : Char) (t : Text) :
    lineAfter line c + feeds t = line + feeds (c :: t) := by
  unfold lineAfter feeds
  by_cases hfeed : c = '\n'
  · rw [if_pos hfeed, hfeed, List.count_cons_self]
    omega
  · rw [if_neg hfeed, List.count_cons_of_ne hfeed]

theorem signaturesFrom_skip (line : Int) (t rest : Text) :
    Header.signaturesFrom t.length line (t ++ rest) =
      Header.signaturesFrom 0 (line + feeds t) rest := by
  induction t generalizing line with
  | nil =>
    rw [List.length_nil, List.nil_append]
    exact congrArg (Header.signaturesFrom 0 · rest) (Int.add_zero line).symm
  | cons c t ih =>
    rw [List.length_cons, List.cons_append, Header.signaturesFrom, ih, lineAfter_add_feeds]

/-- A character at which no prototype begins is passed over. -/
theorem signaturesFrom_other (line : Int) {c : Char} {rest : Text}
    (h : prototype? (c :: rest) = none) :
    Header.signaturesFrom 0 line (c :: rest) = Header.signaturesFrom 0 (line + feeds [c]) rest := by
  rw [Header.signaturesFrom, h, ← lineAfter_add_feeds]
  exact congrArg (Header.signaturesFrom 0 · rest) (Int.add_zero _).symm

/-- A text without the export macro declares nothing, unless the macro begins at its end. -/
theorem signaturesFrom_filler (line : Int) (t rest : Text) (h : ¬ exportMacro <:+: t)
    (hlast : ∀ c, t.getLast? = some c → c ∉ exportMacro) :
    Header.signaturesFrom 0 line (t ++ rest) = Header.signaturesFrom 0 (line + feeds t) rest := by
  induction t generalizing line with
  | nil =>
    rw [List.nil_append]
    exact congrArg (Header.signaturesFrom 0 · rest) (Int.add_zero line).symm
  | cons c t ih =>
    have hnone : prototype? (c :: (t ++ rest)) = none := by
      have hexport : ¬ exportMacro <+: c :: (t ++ rest) := by
        intro hin
        rcases List.prefix_or_prefix_of_prefix hin (List.prefix_append (c :: t) rest) with
          hexport | hshort
        · exact h hexport.isInfix
        · have hsome := List.getLast?_eq_some_getLast (List.cons_ne_nil c t)
          exact hlast _ hsome (hshort.subset (List.getLast_mem _))
      rw [prototype?, (dropStart?_eq_none_iff _ _).mpr hexport, Option.bind_none]
    have hrest : ∀ d, t.getLast? = some d → d ∉ exportMacro :=
      fun d hd => hlast d (List.mem_getLast?_cons hd)
    have hfeeds : feeds (c :: t) = feeds [c] + feeds t := feeds_append [c] t
    rw [List.cons_append, signaturesFrom_other line hnone,
      ih _ (fun hin => h (List.infix_cons hin)) hrest, hfeeds]
    congr 1
    omega

/-- A prototype is read, and the reader goes on behind it. -/
theorem signaturesFrom_prototype (line : Int) {t : Text} {p : Prototype}
    (h : prototype? t = some p) :
    ∃ body, t = exportMacro ++ body ++ p.rest ∧
      Header.signaturesFrom 0 line t = p.signature line ::
        Header.signaturesFrom 0 (line + feeds (exportMacro ++ body)) p.rest := by
  obtain ⟨body, rfl⟩ := exists_body_of_prototype? h
  obtain ⟨c, tail, hbody⟩ : ∃ c tail, exportMacro ++ body = c :: tail := ⟨_, _, rfl⟩
  refine ⟨body, rfl, ?_⟩
  rw [hbody, List.cons_append] at h ⊢
  rw [Header.signaturesFrom, h]
  simp only [List.length_append, Nat.add_sub_cancel]
  rw [signaturesFrom_skip, lineAfter_add_feeds]

theorem Item.feeds_clean (i : Item) : feeds i.clean = feeds i.text := by
  cases i with
  | comment c =>
    rw [clean, feeds_blockSubstitute, text, commentText, feeds_append, feeds_append]
    exact (Nat.zero_add _).symm
  | line l => exact feeds_joinReturns _

/-- Items declare nothing. -/
theorem Item.signaturesFrom_clean (i : Item) (line : Int) (rest : Text) :
    Header.signaturesFrom 0 line (i.clean ++ rest) =
      Header.signaturesFrom 0 (line + feeds i.text) rest := by
  rw [← i.feeds_clean]
  cases i with
  | comment c =>
    have hblank : ∀ e ∈ blockSubstitute c.body, e ∉ exportMacro := by
      intro e he
      rcases mem_blockSubstitute c.body e he with rfl | rfl <;> decide
    apply signaturesFrom_filler
    · intro hin
      exact hblank 'J' (hin.subset (by decide)) (by decide)
    · intro e he
      exact hblank e (List.mem_of_getLast? he)
  | line l =>
    apply signaturesFrom_filler
    · intro hin
      exact l.not_infix_text _ (by decide) (by decide) l.noExport
        (infix_of_infix_joinReturns (by decide) hin)
    · intro e he
      rw [clean, getLast?_joinReturns, List.getLast?_concat, Option.some.injEq] at he
      rw [← he]
      decide

theorem signaturesFrom_items (line : Int) (items : List Item) (rest : Text) :
    Header.signaturesFrom 0 line (items.flatMap Item.clean ++ rest) =
      Header.signaturesFrom 0 (line + feeds (itemsText items)) rest := by
  induction items generalizing line with
  | nil => exact congrArg (Header.signaturesFrom 0 · rest) (Int.add_zero line).symm
  | cons i items ih =>
    have hfeeds : feeds (itemsText (i :: items)) = feeds i.text + feeds (itemsText items) := by
      rw [itemsText, List.flatMap_cons, feeds_append, itemsText]
    rw [List.flatMap_cons, List.append_assoc, i.signaturesFrom_clean, ih, hfeeds]
    congr 1
    omega

end Items

section Joined

def joinedBlanks (b : Blanks) : Blanks where
  text := joinReturns b.text
  blank c hc := b.blank c (mem_of_mem_joinReturns hc)

def Gap.joined (g : Gap) : Gap where
  toBlanks := joinedBlanks g.toBlanks
  nonempty hnil := by
    have hlast := getLast?_joinReturns g.text
    have hjoined : joinReturns g.text = [] := hnil
    rw [hjoined, List.getLast?_nil, eq_comm, List.getLast?_eq_none_iff] at hlast
    exact g.nonempty hlast

theorem IsWord.return_notMem {t : Text} (h : IsWord t) : '\r' ∉ t := h.notMem '\r' (by decide)

theorem IsWord.head?_ne {t : Text} (h : IsWord t) : t.head? ≠ some '\n' :=
  fun hfeed => h.notMem '\n' (by decide) (List.mem_of_head? hfeed)

end Joined

end HeaderOutline

namespace Header

section Joined

/-- Line ends are blanks, so a text that loses carriage returns still spells the same type. -/
theorem sameType_joinReturns (front t : Text) :
    SameType (front ++ t) (front ++ joinReturns t) := by
  fun_induction joinReturns t generalizing front with
  | case1 => exact .refl _
  | case2 rest ih =>
    have hend := sameType_exchange (.gap ⟨⟨['\r', '\n'], List.all_eq_true.mp rfl⟩, by decide⟩
      ⟨⟨['\n'], List.all_eq_true.mp rfl⟩, by decide⟩) front rest
    have hlater := ih (front ++ ['\n'])
    rw [List.append_assoc, List.append_assoc] at hlater
    exact hend.trans hlater
  | case3 c rest _ ih =>
    have hlater := ih (front ++ [c])
    rwa [List.append_assoc, List.append_assoc] at hlater

theorem isBlank_head?_joinReturns (t : Text) :
    (joinReturns t).head?.any isBlank = t.head?.any isBlank := by
  fun_cases joinReturns t <;> rfl

namespace SpelledPrototype

variable (s : SpelledPrototype)

/-- The prototype without the carriage returns of line ends. -/
def joined : SpelledPrototype where
  result := joinReturns s.result
  opened := by rw [isBlank_head?_joinReturns, s.opened]
  closed := by rw [getLast?_joinReturns, s.closed]
  hasWord := by
    have hsame := (sameType_joinReturns [] s.result).normalizeType_eq
    have hword := s.hasWord
    rw [Ne, trim_eq_nil_iff, ← normalizeType_eq_nil_iff] at hword ⊢
    exact hsame ▸ hword
  isType c hc := s.isType c (mem_of_mem_joinReturns hc)
  nameGap := s.nameGap.joined
  name := s.name
  listGap := HeaderOutline.joinedBlanks s.listGap
  list := joinReturns s.list
  isList c hc := s.isList c (mem_of_mem_joinReturns hc)
  endGap := HeaderOutline.joinedBlanks s.endGap

theorem joinReturns_heading (rest : Text) (hrest : rest.head? ≠ some '\n') :
    joinReturns (s.heading ++ rest) = s.joined.heading ++ joinReturns rest := by
  have hfirst (u : Text) : (s.name.text ++ u).head? ≠ some '\n' := by
    rw [List.head?_append_of_ne_nil _ s.name.isWord.nonempty]
    exact s.name.isWord.head?_ne
  rw [heading, List.append_assoc, List.append_assoc, joinReturns_append _ _ fun _ => hfirst _,
    joinReturns_plain_append _ _ s.name.isWord.return_notMem, joinReturns_append _ _ fun _ => hrest,
    heading, List.append_assoc, List.append_assoc]
  rfl

theorem joinReturns_closing : joinReturns s.closing = s.joined.closing := by
  have hend : joinReturns (s.endGap.text ++ [';']) = joinReturns s.endGap.text ++ [';'] :=
    joinReturns_append _ _ fun _ => by decide
  rw [closing, joinReturns_append _ _ fun _ => by simp,
    joinReturns_cons ')' _ fun h => absurd h (by decide), hend]
  rfl

theorem joinReturns_text : joinReturns s.text = s.joined.text := by
  have hcall (u : Text) : (callMacro ++ u).head? ≠ some '\n' := by
    rw [List.head?_append_of_ne_nil _ (by decide)]
    decide
  rw [text, joinReturns_plain_append exportMacro _ (by decide), joinReturns_append _ _ fun _ =>
    hcall _, joinReturns_plain_append callMacro _ (by decide), s.joinReturns_heading _ (by simp),
    joinReturns_cons '(' _ fun h => absurd h (by decide), joinReturns_closing]
  rfl

/-- A part of a header without slashes is kept up to its carriage returns. -/
theorem erases (hresult : '/' ∉ s.result) (hlist : '/' ∉ s.list) : Erases s.text s.joined.text := by
  have hslash : '/' ∉ s.text := by
    simp only [text, heading, closing, List.mem_append, List.mem_cons, not_or]
    exact ⟨by decide, hresult, by decide, ⟨notMem_blanks s.nameGap.blank rfl,
      s.name.isWord.notMem '/' (by decide), notMem_blanks s.listGap.blank rfl⟩, by decide, hlist,
      by decide, notMem_blanks s.endGap.blank rfl, by decide, List.not_mem_nil⟩
  have hlast : s.text.getLast? = some ';' := by
    simp [text, closing, List.getLast?_append, List.getLast?_cons]
  rw [← s.joinReturns_text]
  apply erases_joinReturns
  · exact fun hin => hslash (hin.subset (by decide))
  · exact fun hin => hslash (hin.subset (by decide))
  · rw [hlast]
    decide
  · rw [hlast]
    decide

end SpelledPrototype

end Joined

section Reading

namespace SpelledPrototype

variable (s : SpelledPrototype)

theorem signature_joined (line : Int) : s.joined.signature line = s.signature line := by
  rw [signature, signature]
  refine Prototype.signature_congr ?_ ?_ ?_ line
  · rfl
  · exact (sameType_joinReturns [] s.result).symm
  · exact .of_type (sameType_joinReturns [] s.list).symm

theorem signaturesFrom_text (line : Int) (rest : Text) :
    signaturesFrom 0 line (s.text ++ rest) =
      s.signature line :: signaturesFrom 0 (line + feeds s.text) rest := by
  obtain ⟨body, hbody, hread⟩ :=
    HeaderOutline.signaturesFrom_prototype line (s.prototype?_text rest)
  have hsignature : (⟨trim s.result, s.name.text, s.list, rest⟩ : Prototype).signature line =
      s.signature line := by
    rw [signature]
    refine Prototype.signature_congr ?_ ?_ ?_ line
    · rfl
    · exact (sameType_trim s.result).symm
    · exact .refl s.list
  rw [hread, hsignature, ← List.append_cancel_right hbody]

end SpelledPrototype

end Reading

end Header

open HeaderOutline (Item itemsText)

/-- A prototype in which no comment begins, and what stands before it. -/
structure SpelledEntry where
  before : List Item
  prototype : SpelledPrototype
  noSlash : '/' ∉ prototype.result ∧ '/' ∉ prototype.list

namespace SpelledEntry

def text (e : SpelledEntry) : Text := itemsText e.before ++ e.prototype.text

/-- What is left of an entry without comments. -/
def clean (e : SpelledEntry) : Text := e.before.flatMap Item.clean ++ e.prototype.joined.text

theorem erases (e : SpelledEntry) : Erases e.text e.clean :=
  (Erases.flatMap Item.text Item.clean e.before fun i _ => i.erases).append
    (e.prototype.erases e.noSlash.1 e.noSlash.2)

/-- The signatures of entries, the first of which begins on the given line. -/
def signaturesFrom (line : Int) : List SpelledEntry → List Signature
  | [] => []
  | e :: entries =>
    e.prototype.signature (line + feeds (itemsText e.before)) ::
      signaturesFrom (line + feeds e.text) entries

/-- Entry by entry the reader finds the signatures. -/
theorem signaturesFrom_clean (line : Int) (entries : List SpelledEntry) (closing : List Item) :
    Header.signaturesFrom 0 line (entries.flatMap clean ++ closing.flatMap Item.clean) =
      signaturesFrom line entries := by
  induction entries generalizing line with
  | nil =>
    have hnone := HeaderOutline.signaturesFrom_items line closing []
    rw [List.append_nil] at hnone
    rw [List.flatMap_nil, List.nil_append, hnone]
    rfl
  | cons e entries ih =>
    have hfeeds : feeds e.prototype.joined.text = feeds e.prototype.text := by
      rw [← e.prototype.joinReturns_text, feeds_joinReturns]
    rw [List.flatMap_cons, List.append_assoc, clean, List.append_assoc,
      HeaderOutline.signaturesFrom_items, e.prototype.joined.signaturesFrom_text,
      e.prototype.signature_joined, hfeeds, ih, signaturesFrom, text, feeds_append]
    congr 2
    omega

end SpelledEntry

/-- A header with its prototypes in any spacing. -/
structure SpelledHeader where
  entries : List SpelledEntry
  closing : List Item

namespace SpelledHeader

variable (h : SpelledHeader)

def text : Text := h.entries.flatMap SpelledEntry.text ++ itemsText h.closing

theorem erases_text :
    Erases h.text (h.entries.flatMap SpelledEntry.clean ++ h.closing.flatMap Item.clean) :=
  (Erases.flatMap SpelledEntry.text SpelledEntry.clean h.entries fun e _ => e.erases).append
    (Erases.flatMap Item.text Item.clean h.closing fun i _ => i.erases)

/-- One signature for each prototype. -/
theorem signatures_eq : signatures h.text = SpelledEntry.signaturesFrom 1 h.entries := by
  have hclean := h.erases_text []
  rw [List.append_nil] at hclean
  have hnone : eraseComments (joinReturns []) = [] := by
    rw [joinReturns, eraseComments, eraseBlocks]
    rfl
  rw [signatures, hclean, hnone, List.append_nil, SpelledEntry.signaturesFrom_clean]

end SpelledHeader

namespace Header

/-- Prototypes that differ in the spacing of their types only. -/
structure SpelledPrototype.SameTypes (s t : SpelledPrototype) : Prop where
  name : s.name = t.name
  result : SameType s.result t.result
  list : SameList s.list t.list

/-- Signatures of the same types, on whatever lines. -/
structure SameDeclaration (s t : Signature) : Prop where
  head : s.head = t.head
  parameterTypes : s.parameterTypes = t.parameterTypes
  returnType : s.returnType = t.returnType

theorem SpelledPrototype.SameTypes.sameDeclaration {s t : SpelledPrototype} (h : s.SameTypes t)
    (line line' : Int) : SameDeclaration (s.signature line) (t.signature line') := by
  have hsame : s.signature line = t.signature line :=
    Prototype.signature_congr (congrArg HeaderOutline.Identifier.text h.name) h.result h.list line
  rw [hsame]
  exact ⟨rfl, rfl, rfl⟩

theorem sameDeclaration_signaturesFrom {entries others : List SpelledEntry}
    (h : List.Forall₂ (fun e f => e.prototype.SameTypes f.prototype) entries others)
    (line line' : Int) :
    List.Forall₂ SameDeclaration (SpelledEntry.signaturesFrom line entries)
      (SpelledEntry.signaturesFrom line' others) := by
  induction h generalizing line line' with
  | nil => exact .nil
  | cons hfirst _ ih => exact .cons (hfirst.sameDeclaration _ _) (ih _ _)

theorem length_signaturesFrom (line : Int) (entries : List SpelledEntry) :
    (SpelledEntry.signaturesFrom line entries).length = entries.length := by
  induction entries generalizing line with
  | nil => rfl
  | cons e entries ih => exact congrArg (· + 1) (ih _)

/-- Each type has one normal spelling, which all its spellings share with no others. So headers
that differ in the spacing of their types declare the same heads and the same types. -/
theorem one_normal_spelling :
    (∀ t, normalizeType (normalizeType t) = normalizeType t) ∧
    (∀ t u, normalizeType t = normalizeType u ↔ SameType t u) ∧
    ∀ h k : SpelledHeader,
      List.Forall₂ (fun e f => e.prototype.SameTypes f.prototype) h.entries k.entries →
      (signatures h.text).length = h.entries.length ∧
        List.Forall₂ SameDeclaration (signatures h.text) (signatures k.text) := by
  refine ⟨normalizeType_normalizeType, fun t u => normalizeType_eq_iff, fun h k hsame => ?_⟩
  rw [h.signatures_eq, k.signatures_eq]
  exact ⟨length_signaturesFrom 1 h.entries, sameDeclaration_signaturesFrom hsame 1 1⟩

/-- A prototype in two spellings, with line ends of both kinds among the blanks. -/
def spaced : SpelledPrototype where
  result := " jint\r\n * ".toList
  opened := rfl
  closed := rfl
  hasWord := by decide
  isType := forall_mem_of_all rfl
  nameGap := HeaderOutline.oneSpace
  name := ⟨"Java_A_f".toList, rfl⟩
  listGap := noBlanks
  list := "JNIEnv * env, jint".toList
  isList := forall_mem_of_all rfl
  endGap := noBlanks

def respaced : SpelledPrototype where
  result := "\tjint* ".toList
  opened := rfl
  closed := rfl
  hasWord := by decide
  isType := forall_mem_of_all rfl
  nameGap := HeaderOutline.oneSpace
  name := spaced.name
  listGap := ⟨" ".toList, List.all_eq_true.mp rfl⟩
  list := "JNIEnv *env , jint ".toList
  isList := forall_mem_of_all rfl
  endGap := ⟨"\n".toList, List.all_eq_true.mp rfl⟩

def spacedHeader : SpelledHeader := ⟨[⟨[], spaced, by decide⟩], []⟩

def respacedHeader : SpelledHeader := ⟨[⟨[], respaced, by decide⟩], []⟩

theorem spaced_declares_as_respaced :
    spaced.SameTypes respaced ∧ (signatures spacedHeader.text).length = 1 ∧
      List.Forall₂ SameDeclaration (signatures spacedHeader.text)
        (signatures respacedHeader.text) := by
  have hlist : SameList spaced.list respaced.list := by
    have htype : SameType spaced.list "JNIEnv *env, jint ".toList :=
      normalizeType_eq_iff.mp (by decide)
    have hfront : "JNIEnv *env".toList.foldl parameterBrackets.depthAfter 0 = 0 := by decide
    have hcomma : RespacesList "JNIEnv *env, jint ".toList respaced.list :=
      .comma hfront oneBlank noBlanks " jint ".toList
    exact .trans _ _ _ (SameList.of_type htype) (.rel _ _ hcomma)
  have hsame : spaced.SameTypes respaced := ⟨rfl, normalizeType_eq_iff.mp (by decide), hlist⟩
  exact ⟨hsame, one_normal_spelling.2.2 spacedHeader respacedHeader (.cons hsame .nil)⟩

end Header

end NativeGlue
