import NativeGlue.Header.Comment
import NativeGlue.Proofs.Text.Lines

/-!
Comments of a header in parts. A part of a header gives the same text whatever follows it, if it
is a block comment, or if no comment begins in it or at its end. Such parts may be put one after
the other.
-/

namespace NativeGlue.Header

open Text

theorem feeds_blockSubstitute (body : Text) : feeds (blockSubstitute body) = feeds body := by
  unfold blockSubstitute
  split
  · next hnone => exact hnone.symm
  · exact List.count_replicate_self

theorem mem_blockSubstitute (body : Text) (c : Char) (hc : c ∈ blockSubstitute body) :
    c = ' ' ∨ c = '\n' := by
  unfold blockSubstitute at hc
  split at hc
  · exact .inl (List.mem_singleton.mp hc)
  · exact .inr (List.eq_of_mem_replicate hc)

theorem blockSubstitute_joinReturns (body : Text) :
    blockSubstitute (joinReturns body) = blockSubstitute body := by
  rw [blockSubstitute, feeds_joinReturns, blockSubstitute]

/-- A block comment that ends gives way to its substitute. -/
theorem eraseBlocks_of_commentBody? {t body after : Text}
    (h : commentBody? t = some (body, after)) :
    eraseBlocks ('/' :: '*' :: t) = blockSubstitute body ++ eraseBlocks after := by
  rw [eraseBlocks]
  split
  · next found =>
    rw [h] at found
    cases found
    rfl
  · next hnone =>
    rw [h] at hnone
    cases hnone

theorem eraseBlocks_block (body t : Text) (h : ¬ "*/".toList <:+: body) :
    eraseBlocks ('/' :: '*' :: (body ++ '*' :: '/' :: t)) =
      blockSubstitute body ++ eraseBlocks t :=
  eraseBlocks_of_commentBody? (commentBody?_append body t h)

theorem eraseBlocks_cons (c : Char) (t : Text) (h : c = '/' → t.head? ≠ some '*') :
    eraseBlocks (c :: t) = c :: eraseBlocks t := by
  rw [eraseBlocks]
  rintro rest rfl rfl
  exact h rfl rfl

theorem eraseLinesFrom_cons (c : Char) (t : Text) (h : c = '/' → t.head? ≠ some '/') :
    eraseLinesFrom false (c :: t) = c :: eraseLinesFrom false t := by
  rw [eraseLinesFrom]
  · split <;> rfl
  · rintro rest rfl rfl
    exact h rfl rfl

/-- Text in which no block comment begins is kept. -/
theorem eraseBlocks_append (t rest : Text) (h : ¬ "/*".toList <:+: t)
    (hlast : t.getLast? ≠ some '/') : eraseBlocks (t ++ rest) = t ++ eraseBlocks rest :=
  append_of_copies eraseBlocks '/' '*' eraseBlocks_cons t rest h hlast

theorem eraseLinesFrom_append (t rest : Text) (h : ¬ "//".toList <:+: t)
    (hlast : t.getLast? ≠ some '/') :
    eraseLinesFrom false (t ++ rest) = t ++ eraseLinesFrom false rest :=
  append_of_copies (eraseLinesFrom false) '/' '/' eraseLinesFrom_cons t rest h hlast

theorem eraseLinesFrom_blockSubstitute_append (body rest : Text) :
    eraseLinesFrom false (blockSubstitute body ++ rest) =
      blockSubstitute body ++ eraseLinesFrom false rest := by
  have hslash : '/' ∉ blockSubstitute body := fun hin => by
    rcases mem_blockSubstitute body _ hin with h | h <;> cases h
  exact eraseLinesFrom_append _ rest (fun hin => hslash (hin.subset (by simp)))
    (fun hlast => hslash (List.mem_of_getLast? hlast))

theorem eraseComments_block (body t : Text) (h : ¬ "*/".toList <:+: body) :
    eraseComments ('/' :: '*' :: (body ++ '*' :: '/' :: t)) =
      blockSubstitute body ++ eraseComments t := by
  rw [eraseComments, eraseBlocks_block body t h]
  exact eraseLinesFrom_blockSubstitute_append body _

/-- The part of a header becomes the given text, whatever follows it. -/
def Erases (t clean : Text) : Prop :=
  ∀ rest, eraseComments (joinReturns (t ++ rest)) = clean ++ eraseComments (joinReturns rest)

theorem Erases.nil : Erases [] [] := fun _ => rfl

theorem Erases.append {t u clean more : Text} (ht : Erases t clean) (hu : Erases u more) :
    Erases (t ++ u) (clean ++ more) := by
  intro rest
  rw [List.append_assoc, ht, hu, List.append_assoc]

theorem Erases.flatMap {α : Type} (text clean : α → Text) (xs : List α)
    (h : ∀ x ∈ xs, Erases (text x) (clean x)) : Erases (xs.flatMap text) (xs.flatMap clean) := by
  induction xs with
  | nil => exact .nil
  | cons x xs ih =>
    rw [List.forall_mem_cons] at h
    exact h.1.append (ih h.2)

theorem erases_comment (body : Text) (h : ¬ "*/".toList <:+: body) :
    Erases ("/*".toList ++ body ++ "*/".toList) (blockSubstitute body) := by
  intro rest
  have hinside : ¬ "*/".toList <:+: joinReturns body := fun hin =>
    h (infix_of_infix_joinReturns (by decide) hin)
  have hjoined : joinReturns ("/*".toList ++ body ++ "*/".toList ++ rest) =
      '/' :: '*' :: (joinReturns body ++ '*' :: '/' :: joinReturns rest) := by
    have hclose : ("*/".toList ++ rest).head? ≠ some '\n' := by simp
    have hopened : "/*".toList.getLast? ≠ some '\r' := by decide
    have hclosed : "*/".toList.getLast? ≠ some '\r' := by decide
    rw [List.append_assoc, List.append_assoc, joinReturns_append _ _ fun h => absurd h hopened,
      joinReturns_append body _ fun _ => hclose,
      joinReturns_append _ rest fun h => absurd h hclosed]
    rfl
  rw [hjoined, eraseComments_block _ _ hinside, blockSubstitute_joinReturns]

/-- A part in which no comment begins is only rid of its carriage returns. -/
theorem erases_joinReturns (t : Text) (hblock : ¬ "/*".toList <:+: t)
    (hline : ¬ "//".toList <:+: t) (hslash : t.getLast? ≠ some '/')
    (hreturn : t.getLast? ≠ some '\r') : Erases t (joinReturns t) := by
  intro rest
  have hblock' : ¬ "/*".toList <:+: joinReturns t := fun hin =>
    hblock (infix_of_infix_joinReturns (by decide) hin)
  have hline' : ¬ "//".toList <:+: joinReturns t := fun hin =>
    hline (infix_of_infix_joinReturns (by decide) hin)
  rw [← getLast?_joinReturns t] at hslash
  rw [joinReturns_append t rest fun h => absurd h hreturn, eraseComments,
    eraseBlocks_append _ _ hblock' hslash, eraseLineComments,
    eraseLinesFrom_append _ _ hline' hslash]
  rfl

end NativeGlue.Header
