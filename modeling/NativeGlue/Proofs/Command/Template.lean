import NativeGlue.Command.External
import NativeGlue.Proofs.Text.Filling
import Mathlib.Data.List.Nodup

/-!
Command templates. Slots are filled one after another, so an earlier value, or the place where it
meets the template, can make a slot that a later step fills. Where that does not happen, filling
them in any order is one pass over the template that never looks at a value.
-/

namespace NativeGlue.External

open Text

/-- The text that stands for the slot of a key. -/
def marker (key : Text) : Text := '{' :: (key ++ ['}'])

/-- Slots with distinct keys that hold no braces. -/
structure HasPlainKeys (slots : List (Text × Text)) : Prop where
  distinct : (slots.map (·.1)).Nodup
  noOpening : ∀ slot ∈ slots, '{' ∉ slot.1
  noClosing : ∀ slot ∈ slots, '}' ∉ slot.1

/-- A part of a word of a template. -/
inductive Piece where
  | letter (c : Char)
  | slot (s : Text × Text)
  deriving DecidableEq, Repr

/-- The slot with which a text starts. -/
def startingSlot? (slots : List (Text × Text)) (t : Text) : Option (Text × Text) :=
  slots.find? fun slot => (marker slot.1).isPrefixOf t

/-- The first `skip` characters belong to a slot that was already met. -/
def piecesFrom (slots : List (Text × Text)) : Nat → Text → List Piece
  | _, [] => []
  | skip + 1, _ :: rest => piecesFrom slots skip rest
  | 0, c :: rest =>
    match startingSlot? slots (c :: rest) with
    | some slot => .slot slot :: piecesFrom slots (slot.1.length + 1) rest
    | none => .letter c :: piecesFrom slots 0 rest

/-- The slots and letters that a scan of a word from the left meets. -/
def pieces (slots : List (Text × Text)) (word : Text) : List Piece := piecesFrom slots 0 word

def Piece.filled : Piece → Text
  | letter c => [c]
  | slot s => s.2

/-- Fill all slots of a word in one pass that copies everything else. -/
def fillAtOnce (slots : List (Text × Text)) (word : Text) : Text :=
  (pieces slots word).flatMap Piece.filled

/-- Filling the slots one after another makes no new ones: when a slot's turn comes, it stands in
the word as often as at first. -/
def MakesNoSlots (slots : List (Text × Text)) (word : Text) : Prop :=
  ∀ i : Fin slots.length,
    occurrences (marker slots[i].1) ((slots.take i).foldl fillSlot word) =
      occurrences (marker slots[i].1) word

instance (slots : List (Text × Text)) (word : Text) : Decidable (MakesNoSlots slots word) :=
  inferInstanceAs (Decidable (∀ _ : Fin slots.length, _))

section Scan

variable {slots : List (Text × Text)} {slot other : Text × Text} {word rest : Text} {c : Char}

theorem prefix_of_startingSlot? (h : startingSlot? slots word = some slot) :
    slot ∈ slots ∧ marker slot.1 <+: word :=
  ⟨List.mem_of_find?_eq_some h, by simpa using List.find?_some h⟩

theorem not_prefix_of_startingSlot? (h : startingSlot? slots word = none) (hslot : slot ∈ slots) :
    ¬ marker slot.1 <+: word := fun hprefix =>
  List.find?_eq_none.mp h slot hslot (List.isPrefixOf_iff_prefix.mpr hprefix)

theorem pieces_letter (h : startingSlot? slots (c :: rest) = none) :
    pieces slots (c :: rest) = .letter c :: pieces slots rest := by
  unfold pieces
  rw [piecesFrom, h]

theorem pieces_slot (h : startingSlot? slots (marker slot.1 ++ rest) = some slot) :
    pieces slots (marker slot.1 ++ rest) = .slot slot :: pieces slots rest := by
  have hskip (front : Text) :
      piecesFrom slots front.length (front ++ rest) = pieces slots rest := by
    induction front with
    | nil => rfl
    | cons c front ih => exact ih
  have hbody := hskip (slot.1 ++ ['}'])
  rw [List.length_append, List.length_singleton] at hbody
  unfold pieces
  rw [marker, List.cons_append, piecesFrom]
  rw [marker, List.cons_append] at h
  rw [h]
  exact congrArg (Piece.slot slot :: ·) hbody

/-- A word is built from its end by letters and slots as they are met. -/
theorem pieces_induction (slots : List (Text × Text)) {motive : Text → Prop} (nil : motive [])
    (letter : ∀ c rest, startingSlot? slots (c :: rest) = none → motive rest → motive (c :: rest))
    (slot : ∀ slot rest, startingSlot? slots (marker slot.1 ++ rest) = some slot → motive rest →
      motive (marker slot.1 ++ rest))
    (word : Text) : motive word := by
  induction hsize : word.length using Nat.strongRecOn generalizing word with
  | ind size ih =>
    subst hsize
    cases word with
    | nil => exact nil
    | cons c rest =>
      cases hfound : startingSlot? slots (c :: rest) with
      | none => exact letter c rest hfound (ih rest.length (Nat.lt_succ_self _) rest rfl)
      | some found =>
        obtain ⟨-, behind, hword⟩ := prefix_of_startingSlot? hfound
        rw [← hword] at hfound ih ⊢
        have hshorter : behind.length < (marker found.1 ++ behind).length := by
          rw [List.length_append, marker, List.length_cons]
          omega
        exact slot found behind hfound (ih behind.length hshorter behind rfl)

/-- No marker of a plain key starts another. -/
theorem eq_of_marker_starts (hslots : HasPlainKeys slots) (hslot : slot ∈ slots)
    (hother : other ∈ slots) (h : marker slot.1 <+: marker other.1 ++ rest) : slot = other := by
  obtain ⟨behind, heq⟩ := h
  have hkeys : slot.1 ++ '}' :: behind = other.1 ++ '}' :: rest := by
    simpa [marker] using heq
  have hkey : slot.1 = other.1 :=
    (prefix_of_append_cons (hslots.noClosing slot hslot) hkeys.symm).eq_of_length_le
      (prefix_of_append_cons (hslots.noClosing other hother) hkeys).length_le
  exact List.inj_on_of_nodup_map hslots.distinct hslot hother hkey

end Scan

section Filling

variable {slots done : List (Text × Text)} {slot : Text × Text} {word : Text}

/-- What stands for a piece when some slots are filled. -/
def Piece.text (done : List (Text × Text)) : Piece → Text
  | .letter c => [c]
  | .slot s => if s ∈ done then s.2 else marker s.1

/-- The same with the places of one slot left open. -/
def Piece.opened (done : List (Text × Text)) (left : Text × Text) : Piece → List (Option Char)
  | .letter c => [some c]
  | .slot s => if s = left then [none] else (Piece.text done (.slot s)).map some

/-- The text of a word that was partly filled. -/
def partialText (done : List (Text × Text)) (ps : List Piece) : Text := ps.flatMap (Piece.text done)

theorem fill_map_some (new t : Text) : Text.fill new (t.map some) = t := by
  have hletters := fill_letters_append new t []
  rwa [List.append_nil, fill_nil, List.append_nil] at hletters

/-- An open place stands for what is filled into it. -/
theorem fill_opened (done : List (Text × Text)) (slot : Text × Text) (filled : List (Text × Text))
    (hfilled : ∀ s, s ≠ slot → (s ∈ filled ↔ s ∈ done)) (ps : List Piece) :
    Text.fill (if slot ∈ filled then slot.2 else marker slot.1)
      (ps.flatMap (Piece.opened done slot)) = partialText filled ps := by
  unfold partialText
  induction ps with
  | nil => rfl
  | cons piece ps ih =>
    rw [List.flatMap_cons, List.flatMap_cons, fill_append, ih]
    congr 1
    cases piece with
    | letter c => rfl
    | slot s =>
      unfold Piece.opened
      by_cases hs : s = slot
      · subst hs
        simp [Piece.text]
      · simp only [if_neg hs, fill_map_some, Piece.text, hfilled s hs]

theorem count_opened (done : List (Text × Text)) (slot : Text × Text) (ps : List Piece) :
    (ps.flatMap (Piece.opened done slot)).count none =
      (ps.flatMap (Piece.opened [] slot)).count none := by
  induction ps with
  | nil => rfl
  | cons piece ps ih =>
    rw [List.flatMap_cons, List.flatMap_cons, List.count_append, List.count_append, ih]
    congr 1
    cases piece with
    | letter c => rfl
    | slot s =>
      have hletters (t : Text) : (t.map some).count none = 0 := by simp [List.count_eq_zero]
      simp only [Piece.opened]
      split_ifs
      · rfl
      · rw [hletters, hletters]

/-- The word itself is what stands for its pieces when none is filled. -/
theorem partialText_pieces (slots : List (Text × Text)) (word : Text) :
    partialText [] (pieces slots word) = word := by
  induction word using pieces_induction slots with
  | nil => rfl
  | letter c rest hstart ih =>
    rw [pieces_letter hstart]
    exact congrArg (c :: ·) ih
  | slot slot rest hstart ih =>
    rw [pieces_slot hstart]
    exact congrArg (marker slot.1 ++ ·) ih

/-- A scan for one slot meets it where a scan for all slots does. -/
theorem slots_word (hslots : HasPlainKeys slots) (hslot : slot ∈ slots) (word : Text) :
    Text.slots (marker slot.1) word = (pieces slots word).flatMap (Piece.opened [] slot) := by
  induction word using pieces_induction slots with
  | nil => rfl
  | letter c rest hstart ih =>
    have hprefix := not_prefix_of_startingSlot? hstart hslot
    rw [pieces_letter hstart, slots_cons_of_not_start hprefix, ih]
    rfl
  | slot other rest hstart ih =>
    rw [pieces_slot hstart, List.flatMap_cons, ← ih]
    by_cases hsame : other = slot
    · subst hsame
      have hmarker : marker other.1 ≠ [] := List.cons_ne_nil _ _
      rw [slots_append_self hmarker, Piece.opened, if_pos rfl]
      rfl
    · have hother := (prefix_of_startingSlot? hstart).1
      have hprefix : ¬ marker slot.1 <+: '{' :: (other.1 ++ ['}'] ++ rest) := fun hprefix =>
        hsame (eq_of_marker_starts hslots hslot hother hprefix).symm
      have hbody : '{' ∉ other.1 ++ ['}'] := by simpa using hslots.noOpening other hother
      have hcopy : Text.slots (marker slot.1) (other.1 ++ ['}'] ++ rest) =
          (other.1 ++ ['}']).map some ++ Text.slots (marker slot.1) rest :=
        slots_append_of_notMem hbody rest
      have hmarker : marker other.1 ++ rest = '{' :: (other.1 ++ ['}'] ++ rest) := rfl
      rw [hmarker, slots_cons_of_not_start hprefix, hcopy, Piece.opened, if_neg hsame, Piece.text,
        if_neg List.not_mem_nil]
      rfl

theorem fillSlot_eq_fill (word : Text) (slot : Text × Text) :
    fillSlot word slot = Text.fill slot.2 (Text.slots (marker slot.1) word) :=
  replace_eq_fill (marker slot.1) slot.2 word

theorem slots_fill_marker {key : Text} (hkey : '{' ∉ key) (opened : List (Option Char)) :
    Text.slots (marker key) (Text.fill (marker key) opened) = opened ∨
      opened.count none < occurrences (marker key) (Text.fill (marker key) opened) :=
  slots_fill (by simpa using hkey) opened

/-- A step fills its slot and nothing else if the slot stands in the word as often as at first. -/
theorem fillSlot_partialText (hslots : HasPlainKeys slots) (hslot : slot ∈ slots)
    (hdone : slot ∉ done)
    (h : occurrences (marker slot.1) (partialText done (pieces slots word)) =
      occurrences (marker slot.1) word) :
    fillSlot (partialText done (pieces slots word)) slot =
      partialText (done ++ [slot]) (pieces slots word) := by
  have hopen := fill_opened done slot done (fun _ _ => Iff.rfl) (pieces slots word)
  have hfilled := fill_opened done slot (done ++ [slot]) (by simp +contextual) (pieces slots word)
  rw [if_neg hdone] at hopen
  rw [if_pos (by simp)] at hfilled
  have hscan := slots_fill_marker (hslots.noOpening slot hslot)
    ((pieces slots word).flatMap (Piece.opened done slot))
  rw [hopen, h, occurrences, slots_word hslots hslot word, count_opened] at hscan
  rw [fillSlot_eq_fill, hscan.resolve_right (Nat.lt_irrefl _), hfilled]

theorem mem_of_slot_mem_pieces (h : .slot slot ∈ pieces slots word) : slot ∈ slots := by
  induction word using pieces_induction slots with
  | nil => cases h
  | letter c rest hstart ih =>
    rw [pieces_letter hstart] at h
    exact ih ((List.mem_cons.mp h).resolve_left fun heq => nomatch heq)
  | slot other rest hstart ih =>
    rw [pieces_slot hstart] at h
    rcases List.mem_cons.mp h with heq | hrest
    · cases heq
      exact (prefix_of_startingSlot? hstart).1
    · exact ih hrest

/-- Slots filled one after another, in any order that makes no new ones, are filled at once. -/
theorem foldl_fillSlot {order : List (Text × Text)} (hslots : HasPlainKeys slots)
    (horder : order.Perm slots) (h : MakesNoSlots order word) :
    order.foldl fillSlot word = fillAtOnce slots word := by
  have hnodup : order.Nodup := horder.nodup_iff.mpr hslots.distinct.of_map
  have hsteps (n : Nat) (hn : n ≤ order.length) :
      (order.take n).foldl fillSlot word = partialText (order.take n) (pieces slots word) := by
    induction n with
    | zero => exact (partialText_pieces slots word).symm
    | succ n ih =>
      have htake := List.take_succ_eq_append_getElem hn
      have hfresh : order[n] ∉ order.take n := by
        have hparts := hnodup.sublist (List.take_sublist (n + 1) order)
        rw [htake] at hparts
        exact fun hmem => (List.nodup_append.mp hparts).2.2 _ hmem _ List.mem_cons_self rfl
      have hcount := h ⟨n, hn⟩
      have hbefore := ih (Nat.le_of_succ_le hn)
      rw [hbefore] at hcount
      rw [htake, List.foldl_append, hbefore]
      exact fillSlot_partialText hslots (horder.subset (List.getElem_mem hn)) hfresh hcount
  have hall := hsteps order.length (Nat.le_refl _)
  rw [List.take_length] at hall
  rw [hall]
  refine List.flatMap_congr fun piece hpiece => ?_
  cases piece with
  | letter c => rfl
  | slot s => exact if_pos (horder.symm.subset (mem_of_slot_mem_pieces hpiece))

/-- One step is one pass for its slot. -/
theorem fillAtOnce_singleton (slot : Text × Text) (word : Text) :
    fillAtOnce [slot] word = fillSlot word slot := by
  have hfrom (skip : Nat) : (piecesFrom [slot] skip word).flatMap Piece.filled =
      replaceFrom (marker slot.1) slot.2 skip word := by
    induction word generalizing skip with
    | nil => cases skip <;> rfl
    | cons c rest ih =>
      cases skip with
      | succ skip => exact ih skip
      | zero =>
        have hlength : (marker slot.1).length - 1 = slot.1.length + 1 := by simp [marker]
        rw [piecesFrom, replaceFrom, startingSlot?, List.find?_cons, hlength]
        cases (marker slot.1).isPrefixOf (c :: rest) with
        | true => exact congrArg (slot.2 ++ ·) (ih _)
        | false => exact congrArg (c :: ·) (ih 0)
  exact hfrom 0

end Filling

/-- Each slot in its turn is filled in one pass over what the earlier ones left. In any order in
which no slot is made, all slots are filled in one pass over the template. -/
theorem fill_outcomes (template : List Text) (slots : List (Text × Text))
    (hslots : HasPlainKeys slots) :
    fill template slots = (template.map fun word =>
        slots.foldl (fun word slot => fillAtOnce [slot] word) word).filter (!·.isEmpty) ∧
      ∀ order : List (Text × Text), order.Perm slots →
        (∀ word ∈ template, MakesNoSlots order word) →
        fill template order = (template.map (fillAtOnce slots)).filter (!·.isEmpty) := by
  constructor
  · simp only [fillAtOnce_singleton]
    rfl
  · intro order horder hmakes
    unfold fill
    rw [List.map_congr_left fun word hword => foldl_fillSlot hslots horder (hmakes word hword)]

def javacTemplate : List Text :=
  ["javac".toList, "-h".toList, "{jni_dir}".toList, "{class_dir}".toList, "{source}".toList]

def javacSlots : List (Text × Text) :=
  [("source".toList, "/src/A.java".toList), ("jni_dir".toList, "/src/jni".toList),
    ("class_dir".toList, [])]

/-- A command whose paths hold no braces. -/
theorem javac_filled : HasPlainKeys javacSlots ∧ javacSlots.reverse.Perm javacSlots ∧
    (∀ word ∈ javacTemplate, MakesNoSlots javacSlots.reverse word) ∧
    fill javacTemplate javacSlots.reverse =
      ["javac".toList, "-h".toList, "/src/jni".toList, "/src/A.java".toList] := by
  have hkeys : HasPlainKeys javacSlots := ⟨by decide, by decide, by decide⟩
  have hmakes : ∀ word ∈ javacTemplate, MakesNoSlots javacSlots.reverse word := by decide
  refine ⟨hkeys, List.reverse_perm javacSlots, hmakes, ?_⟩
  rw [(fill_outcomes javacTemplate javacSlots hkeys).2 _ (List.reverse_perm javacSlots) hmakes]
  decide

/-- A path that holds a slot has it filled by a later step, and another order leaves it. -/
theorem slot_in_path_filled :
    let slots : List (Text × Text) := [("source".toList, "/src/{class_name}.java".toList),
      ("class_name".toList, "A".toList)]
    fill ["{source}".toList] slots = ["/src/A.java".toList] ∧
      fillAtOnce slots "{source}".toList = "/src/{class_name}.java".toList ∧
      fill ["{source}".toList] slots.reverse = ["/src/{class_name}.java".toList] := by
  decide

end NativeGlue.External
