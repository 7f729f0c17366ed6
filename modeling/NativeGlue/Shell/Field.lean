import NativeGlue.Shell.Pattern

/-!
Cutting expanded words into fields. Only values are cut, at separators that no quotes protect;
blank separators count as one, and any other separator ends a field even if that is empty.
-/

namespace NativeGlue.Shell

open Text

/-- A piece of an expanded word. -/
inductive Glyph where
  /-- A character, whether quotes protect it, and whether it may separate fields. -/
  | char (c : Char) (isQuoted canSplit : Bool)
  | mark
  /-- Here a value begins; the fields of a list of arguments are cut at its gaps only. -/
  | region (isList : Bool)
  | gap
  deriving DecidableEq, Repr

namespace Glyph

def isBlankSeparator (c : Char) : Bool := c == ' ' || c == '\t' || c == '\n'

def literal (t : Text) (isQuoted : Bool) : List Glyph := t.map fun c => .char c isQuoted false

/-- Drop the separators that follow one: all blank ones, and one more if that one was blank. -/
def dropSeparators (separators : Text) : Bool → List Glyph → List Glyph
  | afterBlank, .char c isQuoted true :: rest =>
    if !separators.contains c then .char c isQuoted true :: rest
    else if isBlankSeparator c then dropSeparators separators afterBlank rest
    else if afterBlank then dropSeparators separators false rest
    else .char c isQuoted true :: rest
  | afterBlank, .gap :: rest => dropSeparators separators afterBlank rest
  | _, rest => rest

/-- How far a word has been cut. `isBegun` tells whether the present field holds anything, and
`inList` whether the present value is a list of arguments. -/
structure Cutting where
  done : List Pattern
  field : Pattern
  isBegun : Bool
  inList : Bool
  afterList : Bool

namespace Cutting

def start : Cutting := ⟨[], [], false, false, false⟩

def push (k : Cutting) (c : Char) (isQuoted : Bool) : Cutting :=
  { k with field := ⟨c, isQuoted⟩ :: k.field, isBegun := true }

def finish (k : Cutting) : Cutting :=
  { k with done := k.field.reverse :: k.done, field := [], isBegun := false }

def cutFrom (separators : Text) : Nat → Cutting → List Glyph → Cutting
  | 0, k, _ => k
  | _, k, [] => k
  | fuel + 1, k, g :: rest =>
    match g with
    | .mark => cutFrom separators fuel { k with isBegun := true } rest
    | .region isList =>
      cutFrom separators fuel { k with inList := isList, afterList := k.inList } rest
    | .gap =>
      if k.inList then cutFrom separators fuel k.finish rest
      else if !k.isBegun && !k.afterList then cutFrom separators fuel k rest
      else cutFrom separators fuel { k.finish with afterList := false }
        (dropSeparators separators true rest)
    | .char c isQuoted canSplit =>
      if canSplit && separators.contains c then
        if isBlankSeparator c && !k.isBegun && !k.afterList then cutFrom separators fuel k rest
        else cutFrom separators fuel { k.finish with afterList := false }
          (dropSeparators separators (isBlankSeparator c) rest)
      else cutFrom separators fuel (k.push c isQuoted) rest

end Cutting

/-- The fields of an expanded word. The last is one if it holds anything, or if it ends a list
of arguments. -/
def fields (separators : Text) (gs : List Glyph) : List Pattern :=
  let k := Cutting.cutFrom separators (gs.length + 1) .start gs
  (if k.isBegun || k.inList then k.finish else k).done.reverse

/-- The text of a word that is not cut. -/
def text (gs : List Glyph) : Text :=
  gs.filterMap fun g =>
    match g with
    | .char c _ _ => some c
    | _ => none

/-- A word that is not cut, as a pattern. -/
def pattern (gs : List Glyph) : Pattern :=
  gs.filterMap fun g =>
    match g with
    | .char c isQuoted _ => some ⟨c, isQuoted⟩
    | _ => none

end Glyph

end NativeGlue.Shell
