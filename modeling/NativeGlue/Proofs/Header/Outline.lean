import NativeGlue.Header.Signature
import NativeGlue.Proofs.Source.Outline
import NativeGlue.Proofs.Text.Word

/-!
Outlines of native headers: prototypes with comments and preprocessor lines before them and after
the last. An outline is printed as a header and says of itself which signatures that declares.
The blanks around the stars of a type are part of the outline but not of the signatures.
-/

namespace NativeGlue

open Text
open Outline (Blanks Comment commentText)

namespace HeaderOutline

structure Identifier where
  text : Text
  isName : isAsciiName text = true
  deriving DecidableEq, Repr

/-- The types of the native interface. All but two are a `j` with letters behind it. -/
inductive InterfaceType where
  | environment
  | machine
  | lettered (letters : Text) (nonempty : letters ≠ [])
    (isLetter : letters.all isAsciiLetter = true)
  deriving DecidableEq, Repr

def InterfaceType.text : InterfaceType → Text
  | environment => "JNIEnv".toList
  | machine => "JavaVM".toList
  | lettered letters _ _ => 'j' :: letters

structure Gap extends Blanks where
  nonempty : text ≠ []
  deriving DecidableEq, Repr

/-- What follows the type of a parameter. A name stands behind a gap or a star. -/
inductive Declarator where
  | nothing
  | named (gap : Gap) (name : Identifier)
  | starred (before after : Blanks) (name : Option Identifier)
  deriving DecidableEq, Repr

namespace Declarator

def text : Declarator → Text
  | nothing => []
  | named gap name => gap.text ++ name.text
  | starred before after name =>
    before.text ++ '*' :: (after.text ++ (name.map Identifier.text).getD [])

def stars : Declarator → Text
  | starred _ _ _ => ['*']
  | _ => []

end Declarator

structure Parameter where
  type : InterfaceType
  declarator : Declarator
  deriving DecidableEq, Repr

namespace Parameter

def text (p : Parameter) : Text := p.type.text ++ p.declarator.text

/-- The type with its star. -/
def spelling (p : Parameter) : Text := p.type.text ++ p.declarator.stars

end Parameter

/-- A prototype, with the blanks before each star of its result type. -/
structure Declaration where
  result : Identifier
  stars : List Blanks
  name : Identifier
  parameters : List Parameter
  deriving DecidableEq, Repr

def starsText (stars : List Blanks) : Text := stars.flatMap fun gap => gap.text ++ ['*']

namespace Declaration

def list (d : Declaration) : Text := join ", ".toList (d.parameters.map Parameter.text)

def text (d : Declaration) : Text :=
  Header.exportMacro ++ ' ' :: (d.result.text ++ starsText d.stars ++ ' ' :: (Header.callMacro ++
    ' ' :: (d.name.text ++ "\n  (".toList ++ d.list ++ ");".toList)))

def resultType (d : Declaration) : Text :=
  d.result.text ++ List.replicate d.stars.length '*'

/-- The signature of a prototype that begins on the given line. -/
def signature (d : Declaration) (line : Int) : Signature where
  head := Header.exportMacro ++ ' ' :: d.resultType ++ ' ' :: Header.callMacro ++ ' ' :: d.name.text
  name := d.name.text
  parameterTypes := d.parameters.map Parameter.spelling
  returnType := d.resultType
  line := line

end Declaration

/-- A line that holds neither a comment nor a prototype. -/
structure Line where
  text : Text
  oneLine : '\n' ∉ text
  noBlockComment : ¬ "/*".toList <:+: text
  noLineComment : ¬ "//".toList <:+: text
  noExport : ¬ Header.exportMacro <:+: text
  deriving DecidableEq, Repr

inductive Item where
  | comment (comment : Comment)
  | line (line : Line)
  deriving DecidableEq, Repr

def Item.text : Item → Text
  | comment c => commentText c.body
  | line l => l.text ++ ['\n']

def itemsText (items : List Item) : Text := items.flatMap Item.text

/-- A prototype and what stands before it. -/
structure Entry where
  before : List Item
  declaration : Declaration
  deriving DecidableEq, Repr

def Entry.text (e : Entry) : Text := itemsText e.before ++ e.declaration.text

/-- The signatures of entries, the first of which begins on the given line. -/
def signaturesFrom (line : Int) : List Entry → List Signature
  | [] => []
  | e :: entries =>
    e.declaration.signature (line + feeds (itemsText e.before)) ::
      signaturesFrom (line + feeds e.text) entries

end HeaderOutline

structure HeaderOutline where
  entries : List HeaderOutline.Entry
  closing : List HeaderOutline.Item
  deriving DecidableEq, Repr

namespace HeaderOutline

def text (h : HeaderOutline) : Text := h.entries.flatMap Entry.text ++ itemsText h.closing

def signatures (h : HeaderOutline) : List Signature := signaturesFrom 1 h.entries

theorem isAsciiWord_of_isAsciiLetter (c : Char) (h : isAsciiLetter c = true) :
    isAsciiWord c = true := by
  have hletter : c.isAlpha = true := h
  simp [isAsciiWord, Char.isAlphanum, hletter]

theorem isBlank_of_isAsciiWord (c : Char) (h : isAsciiWord c = true) : isBlank c = false := by
  have hpart : isNamePart c = true := by rw [isNamePart, isWord, h, Bool.true_or, Bool.true_or]
  exact isBlank_of_isNamePart c hpart

/-- A text of word characters, of which there is at least one. -/
structure IsWord (t : Text) : Prop where
  nonempty : t ≠ []
  chars : ∀ c ∈ t, isAsciiWord c = true

namespace IsWord

theorem isBlank_of_mem {t : Text} (h : IsWord t) (c : Char) (hc : c ∈ t) : isBlank c = false :=
  isBlank_of_isAsciiWord c (h.chars c hc)

theorem notMem {t : Text} (h : IsWord t) (c : Char) (hc : isAsciiWord c = false) : c ∉ t := by
  intro hin
  rw [h.chars c hin] at hc
  cases hc

end IsWord

namespace Identifier

/-- A name begins like one and goes on with word characters. -/
theorem exists_cons (i : Identifier) : ∃ c rest, i.text = c :: rest ∧
    Header.startsWord c = true ∧ ∀ d ∈ c :: rest, isAsciiWord d = true := by
  obtain ⟨text, hname⟩ := i
  cases text with
  | nil => cases hname
  | cons c rest =>
    rw [isAsciiName, Bool.and_eq_true, List.all_eq_true] at hname
    refine ⟨c, rest, rfl, hname.1, ?_⟩
    rw [List.forall_mem_cons]
    refine ⟨?_, hname.2⟩
    rcases Bool.or_eq_true_iff.mp hname.1 with hletter | hline
    · exact isAsciiWord_of_isAsciiLetter c hletter
    · simp [isAsciiWord, hline]

theorem isWord (i : Identifier) : IsWord i.text := by
  obtain ⟨c, rest, htext, -, hword⟩ := i.exists_cons
  rw [htext]
  exact ⟨List.cons_ne_nil c rest, hword⟩

end Identifier

namespace InterfaceType

/-- The first letter of a type of the interface is a `J` of either case. -/
theorem exists_cons (t : InterfaceType) : ∃ c rest, t.text = c :: rest ∧ (c = 'J' ∨ c = 'j') := by
  cases t with
  | environment => exact ⟨_, _, rfl, .inl rfl⟩
  | machine => exact ⟨_, _, rfl, .inl rfl⟩
  | lettered letters _ _ => exact ⟨_, letters, rfl, .inr rfl⟩

theorem isWord (t : InterfaceType) : IsWord t.text := by
  obtain ⟨first, rest, htext, -⟩ := t.exists_cons
  refine ⟨by simp [htext], fun c hc => ?_⟩
  cases t with
  | environment =>
    have hname : "JNIEnv".toList.all isAsciiWord = true := rfl
    exact List.all_eq_true.mp hname c hc
  | machine =>
    have hname : "JavaVM".toList.all isAsciiWord = true := rfl
    exact List.all_eq_true.mp hname c hc
  | lettered letters _ hletters =>
    rcases List.mem_cons.mp hc with rfl | hc
    · decide
    · exact isAsciiWord_of_isAsciiLetter c (List.all_eq_true.mp hletters c hc)

theorem isInterfaceName_text (t : InterfaceType) : Header.isInterfaceName t.text = true := by
  cases t with
  | environment => rfl
  | machine => rfl
  | lettered letters hne hletters =>
    obtain ⟨c, rest, rfl⟩ := List.exists_cons_of_ne_nil hne
    change (_ || (c :: rest).all isAsciiLetter) = true
    rw [hletters, Bool.or_true]

end InterfaceType

/-- The characters of types and parameters. -/
def isTypePart (c : Char) : Bool := isAsciiWord c || isBlank c || c == '*'

theorem isTypePart_of_isAsciiWord {c : Char} (h : isAsciiWord c = true) : isTypePart c = true := by
  simp [isTypePart, h]

theorem isTypePart_of_isBlank {c : Char} (h : isBlank c = true) : isTypePart c = true := by
  simp [isTypePart, h]

/-- The characters of a parameter separate no parameters, and end neither a parameter list nor a
return type. -/
theorem separates_eq_false (c : Char) (h : isTypePart c = true) :
    (c ≠ ',' ∧ Header.parameterBrackets.opens c = false ∧
        Header.parameterBrackets.closes c = false) ∧
      (c ≠ ';' ∧ Header.isBrace c = false) ∧ Header.endsReturnType c = false := by
  have hother : ∀ d ∈ ([',', '(', '[', ')', ']', ';', '{', '}'] : Text), c ≠ d := by
    rintro d hd rfl
    have hnone : ([',', '(', '[', ')', ']', ';', '{', '}'] : Text).all (!isTypePart ·) = true :=
      rfl
    have hpart := List.all_eq_true.mp hnone c hd
    rw [h] at hpart
    cases hpart
  simp only [List.forall_mem_cons] at hother
  simp [Header.parameterBrackets, Header.isBrace, Header.endsReturnType, hother]

theorem isTypePart_of_mem_starsText (stars : List Blanks) (c : Char) (hc : c ∈ starsText stars) :
    isTypePart c = true := by
  obtain ⟨gap, -, hc⟩ := List.mem_flatMap.mp hc
  rcases List.mem_append.mp hc with hc | hc
  · exact isTypePart_of_isBlank (gap.blank c hc)
  · rw [List.mem_singleton.mp hc]
    rfl

theorem Parameter.isTypePart_of_mem (p : Parameter) (c : Char) (hc : c ∈ p.text) :
    isTypePart c = true := by
  obtain ⟨type, declarator⟩ := p
  rcases List.mem_append.mp hc with hc | hc
  · exact isTypePart_of_isAsciiWord (type.isWord.chars c hc)
  cases declarator with
  | nothing => cases hc
  | named gap name =>
    rcases List.mem_append.mp hc with hc | hc
    · exact isTypePart_of_isBlank (gap.blank c hc)
    · exact isTypePart_of_isAsciiWord (name.isWord.chars c hc)
  | starred before after name =>
    rcases List.mem_append.mp hc with hc | hc
    · exact isTypePart_of_isBlank (before.blank c hc)
    rcases List.mem_cons.mp hc with rfl | hc
    · rfl
    rcases List.mem_append.mp hc with hc | hc
    · exact isTypePart_of_isBlank (after.blank c hc)
    cases name with
    | none => cases hc
    | some name => exact isTypePart_of_isAsciiWord (name.isWord.chars c hc)

/-- A parameter begins neither with a blank nor as `void` does. -/
theorem Parameter.text_eq_cons (p : Parameter) :
    ∃ c rest, p.text = c :: rest ∧ isBlank c = false ∧ c ≠ 'v' := by
  obtain ⟨c, rest, htype, hfirst⟩ := p.type.exists_cons
  refine ⟨c, rest ++ p.declarator.text, by rw [text, htype, List.cons_append], ?_⟩
  rcases hfirst with rfl | rfl <;> exact ⟨rfl, by decide⟩

end HeaderOutline

end NativeGlue
