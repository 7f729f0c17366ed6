import NativeGlue.Text.Blank
import NativeGlue.Text.Word

/-!
Annotations and balanced parentheses. An annotation is an at sign, a dotted name and optionally
an argument list in parentheses, which may hold anything that leaves them balanced.
-/

namespace NativeGlue.Source

open Text

/-- How far into the text the first closing parenthesis stands at which the depth returns to
zero; `depth` counts the parentheses open so far. -/
def closingFrom? (depth : Int) : Text → Option Nat
  | [] => none
  | '(' :: rest => (closingFrom? (depth + 1) rest).map (· + 1)
  | ')' :: rest =>
    if depth - 1 = 0 then some 0 else (closingFrom? (depth - 1) rest).map (· + 1)
  | _ :: rest => (closingFrom? depth rest).map (· + 1)

/-- The offset of the parenthesis that closes the group at the start of a text. -/
def closing? (t : Text) : Option Nat := closingFrom? 0 t

def isDottedNamePart (c : Char) : Bool := isNamePart c || c == '.'

/-- What follows the name of an annotation, read after its at sign. -/
def afterAnnotationName? (t : Text) : Option Text :=
  match skipBlanks t with
  | c :: rest => if isNameStart c then some (rest.dropWhile isDottedNamePart) else none
  | [] => none

/-- What follows an argument list. Blanks before it belong to it; where there is none, all of
the text follows. An argument list that never closes gives nothing. -/
def afterArguments? (t : Text) : Option Text :=
  match skipBlanks t with
  | '(' :: rest => (closing? ('(' :: rest)).map fun close => rest.drop close
  | _ => some t

theorem length_dropWhile_le (p : Char → Bool) (t : Text) : (t.dropWhile p).length ≤ t.length := by
  induction t with
  | nil => exact Nat.le_refl _
  | cons c rest ih =>
    rw [List.dropWhile_cons]
    split
    · exact Nat.le_succ_of_le ih
    · exact Nat.le_refl _

theorem length_afterName {t rest : Text} (h : afterAnnotationName? t = some rest) :
    rest.length ≤ t.length := by
  have hskip := length_skipBlanks_le t
  unfold afterAnnotationName? at h
  split at h
  · next c tail hc =>
    split at h
    · cases h
      have := length_dropWhile_le isDottedNamePart tail
      rw [hc, List.length_cons] at hskip
      omega
    · cases h
  · cases h

theorem length_afterArguments {t rest : Text} (h : afterArguments? t = some rest) :
    rest.length ≤ t.length := by
  have hskip := length_skipBlanks_le t
  unfold afterArguments? at h
  split at h
  · next tail hc =>
    obtain ⟨close, -, rfl⟩ := Option.map_eq_some_iff.mp h
    rw [hc, List.length_cons] at hskip
    rw [List.length_drop]
    omega
  · cases h
    exact Nat.le_refl _

/-- Each annotation becomes a space. One whose argument list never closes stays, with all that
follows it. -/
def eraseAnnotations : Text → Text
  | [] => []
  | c :: rest =>
    if c = '@' then
      match hname : afterAnnotationName? rest with
      | none => c :: eraseAnnotations rest
      | some tail =>
        match hargs : afterArguments? tail with
        | none => c :: rest
        | some after =>
          have : after.length ≤ rest.length :=
            Nat.le_trans (length_afterArguments hargs) (length_afterName hname)
          ' ' :: eraseAnnotations after
    else c :: eraseAnnotations rest
termination_by t => t.length

end NativeGlue.Source
