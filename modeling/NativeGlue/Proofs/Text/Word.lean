import NativeGlue.Proofs.Text.Occurrence
import NativeGlue.Proofs.Text.Splitting
import NativeGlue.Text.Word

/-!
Words between other characters than those of names. A text has a word just when one of the parts
has it into which such a character cuts the text, and a name has no word but itself.
-/

namespace NativeGlue.Text

/-- The code points of blanks. -/
def blankPoints : List Nat :=
  [9, 10, 11, 12, 13, 28, 29, 30, 31, 32, 0x85, 0xA0, 0x1680, 0x2000, 0x2001, 0x2002, 0x2003,
    0x2004, 0x2005, 0x2006, 0x2007, 0x2008, 0x2009, 0x200A, 0x2028, 0x2029, 0x202F, 0x205F,
    0x3000]

theorem mem_blankPoints_of_isBlank (c : Char) (h : isBlank c = true) :
    c.toNat ∈ blankPoints := by
  simp only [isBlank, Bool.or_eq_true, Bool.and_eq_true, decide_eq_true_eq, beq_iff_eq] at h
  simp only [blankPoints, List.mem_cons, List.not_mem_nil, or_false]
  omega

/-- No blank is a character of names. -/
theorem isNamePart_of_isBlank (c : Char) (h : isBlank c = true) : isNamePart c = false := by
  have htable : ∀ n ∈ blankPoints, isNamePart (Char.ofNat n) = false := by decide +kernel
  have hpoint := htable c.toNat (mem_blankPoints_of_isBlank c h)
  rwa [Char.ofNat_toNat] at hpoint

theorem isBlank_of_isNamePart (c : Char) (h : isNamePart c = true) : isBlank c = false := by
  cases hblank : isBlank c with
  | false => rfl
  | true => rw [isNamePart_of_isBlank c hblank] at h; cases h

/-- A beginning made of name characters does not reach beyond another character. -/
theorem dropStart?_append_cons (word before after : Text) (c : Char)
    (hword : ∀ d ∈ word, isNamePart d = true) (hc : isNamePart c = false) :
    dropStart? word (before ++ c :: after) =
      (dropStart? word before).map (· ++ c :: after) := by
  induction word generalizing before with
  | nil => rfl
  | cons d word ih =>
    have hd : d ≠ c := by
      rintro rfl
      simp [hword d List.mem_cons_self] at hc
    cases before with
    | nil => simp [dropStart?, hd]
    | cons e before =>
      simp only [List.cons_append, dropStart?]
      split
      · exact ih before fun x hx => hword x (List.mem_cons_of_mem d hx)
      · rfl

theorem atNameBoundary_some (c : Char) : atNameBoundary (some c) = !isNamePart c := rfl

/-- What comes before a text matters only as far as it ends a name. -/
theorem afterWordFrom?_congr (word t : Text) (b₁ b₂ : Option Char)
    (h : atNameBoundary b₁ = atNameBoundary b₂) :
    afterWordFrom? word b₁ t = afterWordFrom? word b₂ t := by
  cases t with
  | nil => rfl
  | cons c rest => simp only [afterWordFrom?, h]

theorem isSome_afterWordFrom?_append (word before after : Text) (c : Char) (b : Option Char)
    (hne : word ≠ []) (hword : ∀ d ∈ word, isNamePart d = true) (hc : isNamePart c = false) :
    (afterWordFrom? word b (before ++ c :: after)).isSome =
      ((afterWordFrom? word b before).isSome || hasWord word after) := by
  have hafter : afterWordFrom? word (some c) after = afterWordFrom? word none after :=
    afterWordFrom?_congr word after _ _ (by rw [atNameBoundary_some, hc]; rfl)
  induction before generalizing b with
  | nil =>
    have hnone : dropStart? word ([] ++ c :: after) = none := by
      rw [dropStart?_append_cons word [] after c hword hc]
      obtain ⟨d, word, rfl⟩ := List.exists_cons_of_ne_nil hne
      rfl
    rw [List.nil_append] at hnone ⊢
    simp only [afterWordFrom?, hnone, hafter, hasWord, Option.isSome_none, Bool.false_or]
  | cons d before ih =>
    have hdrop := dropStart?_append_cons word (d :: before) after c hword hc
    rw [List.cons_append] at hdrop ⊢
    simp only [afterWordFrom?, hdrop]
    cases hstart : dropStart? word (d :: before) with
    | none => exact ih (some d)
    | some tail =>
      have hhead : atNameBoundary (tail ++ c :: after).head? = atNameBoundary tail.head? := by
        cases tail with
        | nil => rw [List.nil_append, List.head?_cons, atNameBoundary_some, hc]; rfl
        | cons e tail => rfl
      simp only [Option.map_some, hhead]
      split
      · rfl
      · exact ih (some d)

/-- A word stands on one side of any character that is not part of a name. -/
theorem hasWord_append_cons (word before after : Text) (c : Char) (hne : word ≠ [])
    (hword : ∀ d ∈ word, isNamePart d = true) (hc : isNamePart c = false) :
    hasWord word (before ++ c :: after) = (hasWord word before || hasWord word after) :=
  isSome_afterWordFrom?_append word before after c none hne hword hc

theorem hasWord_cons (word t : Text) (c : Char) (hne : word ≠ [])
    (hword : ∀ d ∈ word, isNamePart d = true) (hc : isNamePart c = false) :
    hasWord word (c :: t) = hasWord word t := by
  have hcut := hasWord_append_cons word [] t c hne hword hc
  rwa [show hasWord word [] = false from rfl, Bool.false_or] at hcut

theorem hasWord_gap_append (word gap t : Text) (hne : word ≠ [])
    (hword : ∀ d ∈ word, isNamePart d = true) (hgap : ∀ d ∈ gap, isNamePart d = false) :
    hasWord word (gap ++ t) = hasWord word t := by
  induction gap with
  | nil => rfl
  | cons c gap ih =>
    rw [List.cons_append, hasWord_cons word _ c hne hword (hgap c List.mem_cons_self)]
    exact ih fun d hd => hgap d (List.mem_cons_of_mem c hd)

theorem hasWord_append_gap (word t gap : Text) (hne : word ≠ [])
    (hword : ∀ d ∈ word, isNamePart d = true) (hgap : ∀ d ∈ gap, isNamePart d = false) :
    hasWord word (t ++ gap) = hasWord word t := by
  cases gap with
  | nil => rw [List.append_nil]
  | cons c gap =>
    have hrest := hasWord_gap_append word gap [] hne hword
      fun d hd => hgap d (List.mem_cons_of_mem c hd)
    rw [List.append_nil] at hrest
    rw [hasWord_append_cons word t gap c hne hword (hgap c List.mem_cons_self), hrest]
    exact Bool.or_false _

/-- The words of joined pieces are those of the pieces. -/
theorem hasWord_join (word : Text) (c : Char) (gap : Text) (pieces : List Text) (hne : word ≠ [])
    (hword : ∀ d ∈ word, isNamePart d = true) (hgap : ∀ d ∈ c :: gap, isNamePart d = false) :
    hasWord word (join (c :: gap) pieces) = pieces.any (hasWord word) := by
  induction pieces with
  | nil => rfl
  | cons piece pieces ih =>
    cases pieces with
    | nil => simp [join]
    | cons next pieces =>
      rw [join_cons_cons, List.append_assoc, List.cons_append,
        hasWord_append_cons word _ _ c hne hword (hgap c List.mem_cons_self),
        hasWord_gap_append word gap _ hne hword fun d hd => hgap d (List.mem_cons_of_mem c hd), ih]
      rfl

theorem afterWordFrom?_name (word name : Text) (b : Char) (hb : isNamePart b = true)
    (hname : ∀ c ∈ name, isNamePart c = true) : afterWordFrom? word (some b) name = none := by
  induction name generalizing b with
  | nil => rfl
  | cons c name ih =>
    have hrest := ih c (hname c List.mem_cons_self) fun d hd => hname d (List.mem_cons_of_mem c hd)
    simp only [afterWordFrom?, atNameBoundary_some, hb, Bool.not_true, Bool.false_and,
      Bool.false_eq_true, if_false, hrest]
    split <;> rfl

/-- The only word of a name is the name. -/
theorem hasWord_name (word name : Text) (hne : word ≠ [])
    (hname : ∀ c ∈ name, isNamePart c = true) : hasWord word name = decide (name = word) := by
  cases name with
  | nil => simp [hasWord, afterWordFrom?, Ne.symm hne]
  | cons c name =>
    have hrest := afterWordFrom?_name word name c (hname c List.mem_cons_self)
      fun d hd => hname d (List.mem_cons_of_mem c hd)
    simp only [hasWord, afterWordFrom?, hrest]
    cases hstart : dropStart? word (c :: name) with
    | none =>
      have hneq : c :: name ≠ word := by
        rintro rfl
        have hself := dropStart?_append (c :: name) []
        rw [List.append_nil, hstart] at hself
        cases hself
      simp [hneq]
    | some tail =>
      have hsplit := eq_append_of_dropStart? hstart
      cases tail with
      | nil =>
        rw [List.append_nil] at hsplit
        simp [hsplit, atNameBoundary]
      | cons d tail =>
        have hd : isNamePart d = true := hname d (by simp [hsplit])
        have hneq : c :: name ≠ word := by
          intro heq
          have hlength := congrArg List.length hsplit
          simp [heq] at hlength
        simp [hneq, atNameBoundary_some, hd]

end NativeGlue.Text
