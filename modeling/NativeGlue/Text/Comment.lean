import NativeGlue.Text.Basic

/-!
Block comments, which end at the first star with a slash after it, on either side alike.
-/

namespace NativeGlue.Text

/-- The body of a block comment, read after its opener, and what follows the comment. -/
def commentBody? : Text → Option (Text × Text)
  | [] => none
  | '*' :: '/' :: rest => some ([], rest)
  | c :: rest => (commentBody? rest).map fun found => (c :: found.1, found.2)

theorem eq_append_of_commentBody? {t body tail : Text} (h : commentBody? t = some (body, tail)) :
    t = body ++ '*' :: '/' :: tail := by
  fun_induction commentBody? t generalizing body tail with
  | case1 => cases h
  | case2 rest => cases h; rfl
  | case3 c rest _ ih =>
    obtain ⟨found, hfound, heq⟩ := Option.map_eq_some_iff.mp h
    cases heq
    simp [ih hfound]

theorem length_of_commentBody? {t body tail : Text} (h : commentBody? t = some (body, tail)) :
    tail.length < t.length := by
  rw [eq_append_of_commentBody? h]
  simp only [List.length_append, List.length_cons]
  omega

end NativeGlue.Text
