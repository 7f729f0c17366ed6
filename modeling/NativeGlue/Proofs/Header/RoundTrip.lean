import NativeGlue.Proofs.Header.SpelledHeader

/-!
The header that an outline is printed as declares the signatures of the outline: each prototype is
printed in one of its spellings, and the reader finds it in any of them.
-/

namespace NativeGlue.HeaderOutline

open Text Header Outline

theorem Declaration.slash_notMem (d : Declaration) :
    '/' ∉ d.spelled.result ∧ '/' ∉ d.spelled.list := by
  constructor
  · exact fun hslash => absurd (d.isTypePart_of_mem_result '/' hslash) (by decide)
  · intro hslash
    rcases d.isTypePart_of_mem_list '/' hslash with hpart | hcomma
    · exact absurd hpart (by decide)
    · exact absurd hcomma (by decide)

def Entry.spelled (e : Entry) : SpelledEntry :=
  ⟨e.before, e.declaration.spelled, e.declaration.slash_notMem⟩

def Entry.clean (e : Entry) : Text := e.spelled.clean

theorem Entry.text_spelled (e : Entry) : e.spelled.text = e.text := by
  rw [SpelledEntry.text, spelled, e.declaration.text_spelled, text]

theorem Entry.erases (e : Entry) : Erases e.text e.clean := by
  rw [← e.text_spelled]
  exact e.spelled.erases

theorem erases_text (h : HeaderOutline) :
    Erases h.text (h.entries.flatMap Entry.clean ++ h.closing.flatMap Item.clean) :=
  (Erases.flatMap Entry.text Entry.clean h.entries fun e _ => e.erases).append
    (Erases.flatMap Item.text Item.clean h.closing fun i _ => i.erases)

theorem signaturesFrom_spelled (line : Int) (entries : List Entry) :
    SpelledEntry.signaturesFrom line (entries.map Entry.spelled) = signaturesFrom line entries := by
  induction entries generalizing line with
  | nil => rfl
  | cons e entries ih =>
    rw [List.map_cons, SpelledEntry.signaturesFrom, ih, e.text_spelled, signaturesFrom]
    exact congrArg (· :: _) (e.declaration.signature_spelled _)

/-- Entry by entry the reader finds the signatures of the outline. -/
theorem signaturesFrom_entries (line : Int) (entries : List Entry) (closing : List Item) :
    Header.signaturesFrom 0 line (entries.flatMap Entry.clean ++ closing.flatMap Item.clean) =
      signaturesFrom line entries := by
  have hread := SpelledEntry.signaturesFrom_clean line (entries.map Entry.spelled) closing
  rw [List.flatMap_map] at hread
  exact hread.trans (signaturesFrom_spelled line entries)

/-- A printed outline is read as what it says of itself: one signature for each prototype, in
their order, with the names, the types and the lines of the outline. -/
theorem signatures_text (h : HeaderOutline) : Header.signatures h.text = h.signatures := by
  have hclean := erases_text h []
  rw [List.append_nil] at hclean
  rw [Header.signatures, hclean]
  have hnone : eraseComments (joinReturns []) = [] := by
    rw [joinReturns, eraseComments, eraseBlocks]
    rfl
  rw [hnone, List.append_nil, signaturesFrom_entries]
  rfl

/-- A prototype in a comment is not declared, but its lines count. -/
example : Header.signatures ("/* JNIEXPORT void JNICALL Java_A_f\n  (JNIEnv *); */\n".toList ++
      "JNIEXPORT jint JNICALL Java_A_g\n  (JNIEnv * env, jclass);".toList) =
    [⟨"JNIEXPORT jint JNICALL Java_A_g".toList, "Java_A_g".toList,
      ["JNIEnv*".toList, "jclass".toList], "jint".toList, 3⟩] := by
  decide +kernel

end NativeGlue.HeaderOutline
