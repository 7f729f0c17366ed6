import NativeGlue.Proofs.Text.Occurrence

/-!
Texts with slots. Replacing a part of a text fills its occurrences with another text, and what was
filled in can be read off again. A separator that was not filled in splits a filled text where it
splits the slots.
-/

namespace NativeGlue.Text

/-- The characters of a text with `none` for each occurrence of a part that is replaced. -/
def slotsFrom (part : Text) : Nat → Text → List (Option Char)
  | _, [] => []
  | skip + 1, _ :: rest => slotsFrom part skip rest
  | 0, c :: rest =>
    if part.isPrefixOf (c :: rest) then none :: slotsFrom part (part.length - 1) rest
    else some c :: slotsFrom part 0 rest

def slots (part t : Text) : List (Option Char) := slotsFrom part 0 t

def fill (new : Text) (pieces : List (Option Char)) : Text :=
  pieces.flatMap fun piece => piece.elim new fun c => [c]

variable {part new other : Text} {pieces others : List (Option Char)}

@[simp] theorem fill_nil (new : Text) : fill new [] = [] := rfl

@[simp] theorem fill_cons_none (new : Text) (pieces : List (Option Char)) :
    fill new (none :: pieces) = new ++ fill new pieces := List.flatMap_cons

@[simp] theorem fill_cons_some (new : Text) (c : Char) (pieces : List (Option Char)) :
    fill new (some c :: pieces) = c :: fill new pieces := List.flatMap_cons

theorem fill_append (new : Text) (pieces others : List (Option Char)) :
    fill new (pieces ++ others) = fill new pieces ++ fill new others := List.flatMap_append

theorem fill_letters_append (new t : Text) (pieces : List (Option Char)) :
    fill new (t.map some ++ pieces) = t ++ fill new pieces := by
  induction t with
  | nil => rfl
  | cons c t ih => rw [List.map_cons, List.cons_append, fill_cons_some, ih, List.cons_append]

theorem count_letters_append (t : Text) (pieces : List (Option Char)) :
    (t.map some ++ pieces).count none = pieces.count none := by
  simp [List.count_eq_zero]

theorem replace_eq_fill (part new t : Text) : replace part new t = fill new (slots part t) := by
  have hfrom (skip : Nat) : replaceFrom part new skip t = fill new (slotsFrom part skip t) := by
    induction t generalizing skip with
    | nil => cases skip <;> rfl
    | cons c t ih =>
      cases skip with
      | succ skip => exact ih skip
      | zero =>
        rw [replaceFrom, slotsFrom]
        split_ifs
        · rw [fill_cons_none, ih]
        · rw [fill_cons_some, ih]
  exact hfrom 0

theorem none_mem_slots {t : Text} (hpart : part ≠ []) (h : part <:+: t) : none ∈ slots part t := by
  unfold slots
  induction t with
  | nil => exact absurd (List.infix_nil.mp h) hpart
  | cons c t ih =>
    rw [slotsFrom]
    split_ifs with hstart
    · exact List.mem_cons_self
    · refine List.mem_cons_of_mem _ (ih ?_)
      exact (List.infix_cons_iff.mp h).resolve_left fun hprefix =>
        hstart (List.isPrefixOf_iff_prefix.mpr hprefix)

theorem length_fill (new : Text) (pieces : List (Option Char)) :
    (fill new pieces).length =
      pieces.count none * new.length + (pieces.filter Option.isSome).length := by
  induction pieces with
  | nil => simp
  | cons piece pieces ih =>
    cases piece with
    | none =>
      rw [fill_cons_none, List.length_append, ih, List.count_cons_self,
        List.filter_cons_of_neg Bool.false_ne_true, Nat.succ_mul]
      omega
    | some c =>
      rw [fill_cons_some, List.length_cons, ih, List.count_cons_of_ne (by simp),
        List.filter_cons_of_pos rfl, List.length_cons]
      omega

/-- What was filled into a slot can be told from the filled text. -/
theorem fill_inj (h : none ∈ pieces) (heq : fill new pieces = fill other pieces) : new = other := by
  have hlength : new.length = other.length := by
    have hfilled := congrArg List.length heq
    rw [length_fill, length_fill, Nat.add_right_cancel_iff] at hfilled
    exact Nat.eq_of_mul_eq_mul_left (List.count_pos_iff.mpr h) hfilled
  induction pieces with
  | nil => cases h
  | cons piece pieces ih =>
    cases piece with
    | none => exact (List.append_inj heq hlength).1
    | some c =>
      refine ih ?_ (List.cons.inj heq).2
      exact (List.mem_cons.mp h).resolve_left (by simp)

/-- Without a slot it does not matter what is filled in. -/
theorem fill_eq_of_none_notMem (new other : Text) (h : none ∉ pieces) :
    fill new pieces = fill other pieces := by
  refine List.flatMap_congr fun piece hpiece => ?_
  cases piece with
  | none => exact absurd hpiece h
  | some c => rfl

theorem sublist_fill (new : Text) (h : none ∈ pieces) : new.Sublist (fill new pieces) := by
  obtain ⟨before, after, rfl⟩ := List.append_of_mem h
  rw [fill_append, fill_cons_none]
  exact (List.sublist_append_left new _).trans (List.sublist_append_right _ _)

section Occurrences

/-- How often a scan from the left meets a part. -/
def occurrences (part t : Text) : Nat := (slots part t).count none

theorem slots_append_self (hpart : part ≠ []) (rest : Text) :
    slots part (part ++ rest) = none :: slots part rest := by
  have hskip (front : Text) : slotsFrom part front.length (front ++ rest) = slots part rest := by
    induction front with
    | nil => rfl
    | cons c front ih => exact ih
  obtain ⟨c, body, rfl⟩ := List.exists_cons_of_ne_nil hpart
  unfold slots
  have hstart : (c :: body).isPrefixOf (c :: (body ++ rest)) = true :=
    List.isPrefixOf_iff_prefix.mpr (List.prefix_append (c :: body) rest)
  rw [List.cons_append, slotsFrom, if_pos hstart]
  exact congrArg (none :: ·) (hskip body)

theorem slots_cons_of_not_start {c : Char} {rest : Text} (h : ¬ part <+: c :: rest) :
    slots part (c :: rest) = some c :: slots part rest := by
  unfold slots
  rw [slotsFrom, if_neg fun hprefix => h (List.isPrefixOf_iff_prefix.mp hprefix)]

variable {first : Char} {body : Text}

/-- Characters with which no occurrence starts are copied. -/
theorem slots_append_of_notMem {t : Text} (ht : first ∉ t) (rest : Text) :
    slots (first :: body) (t ++ rest) = t.map some ++ slots (first :: body) rest := by
  induction t with
  | nil => rfl
  | cons c t ih =>
    rw [List.mem_cons, not_or] at ht
    rw [List.cons_append, slots_cons_of_not_start, ih ht.2]
    · rfl
    · exact fun hprefix => ht.1 (List.cons_prefix_cons.mp hprefix).1

/-- Characters with which no occurrence starts do not reach into a slot. -/
theorem exists_of_prefix_fill {tail : Text} (hbody : first ∉ body)
    (h : body <+: fill (first :: tail) pieces) : ∃ others, pieces = body.map some ++ others := by
  induction body generalizing pieces with
  | nil => exact ⟨pieces, rfl⟩
  | cons c body ih =>
    rw [List.mem_cons, not_or] at hbody
    cases pieces with
    | nil => exact absurd (List.prefix_nil.mp h) (List.cons_ne_nil c body)
    | cons piece pieces =>
      cases piece with
      | none => exact absurd (List.cons_prefix_cons.mp h).1.symm hbody.1
      | some d =>
        obtain ⟨rfl, hrest⟩ := List.cons_prefix_cons.mp h
        obtain ⟨others, rfl⟩ := ih hbody.2 hrest
        exact ⟨others, rfl⟩

/-- A scan of a text with a part in its slots meets the slots, or it meets the part more often. -/
theorem slots_fill (hbody : first ∉ body) (pieces : List (Option Char)) :
    slots (first :: body) (fill (first :: body) pieces) = pieces ∨
      pieces.count none < occurrences (first :: body) (fill (first :: body) pieces) := by
  unfold occurrences
  induction hsize : pieces.length using Nat.strongRecOn generalizing pieces with
  | ind size ih =>
    subst hsize
    have hslots (rest : Text) := slots_append_self (List.cons_ne_nil first body) rest
    cases pieces with
    | nil => exact .inl rfl
    | cons piece rest =>
      cases piece with
      | none =>
        rw [fill_cons_none, hslots, List.count_cons_self, List.count_cons_self]
        exact (ih rest.length (Nat.lt_succ_self _) rest rfl).imp (congrArg _) Nat.succ_lt_succ
      | some c =>
        rw [fill_cons_some, List.count_cons_of_ne (by simp)]
        by_cases hprefix : first :: body <+: c :: fill (first :: body) rest
        · -- an occurrence that is no slot is one more than those in the slots behind it
          obtain ⟨rfl, hbehind⟩ := List.cons_prefix_cons.mp hprefix
          obtain ⟨others, rfl⟩ := exists_of_prefix_fill hbody hbehind
          have hshorter : others.length < (some first :: (body.map some ++ others)).length := by
            rw [List.length_cons, List.length_append]
            omega
          have hothers : others.count none ≤
              (slots (first :: body) (fill (first :: body) others)).count none := by
            rcases ih others.length hshorter others rfl with hsame | hmore
            · exact Nat.le_of_eq (congrArg _ hsame.symm)
            · exact Nat.le_of_lt hmore
          rw [fill_letters_append, count_letters_append, ← List.cons_append, hslots,
            List.count_cons_self]
          exact .inr (Nat.lt_succ_of_le hothers)
        · rw [slots_cons_of_not_start hprefix, List.count_cons_of_ne (by simp)]
          exact (ih rest.length (Nat.lt_succ_self _) rest rfl).imp_left (congrArg _)

end Occurrences

section Splitting

variable {separator : Char}

theorem splitOn_append (t rest : Text) (h : separator ∉ t) :
    (t ++ rest).splitOn separator = (rest.splitOn separator).modifyHead (t ++ ·) := by
  induction t with
  | nil =>
    rw [List.nil_append]
    exact (congrFun List.modifyHead_id _).symm
  | cons c t ih =>
    have hc : (c == separator) = false := beq_false_of_ne fun heq => h (heq ▸ List.mem_cons_self)
    have hrest := ih fun hmem => h (List.mem_cons_of_mem c hmem)
    rw [List.cons_append, List.splitOn_cons_eq_if_modifyHead, if_neg (by rw [hc]; decide), hrest,
      List.modifyHead_modifyHead]
    rfl

/-- An ending without separators is the ending of the last piece. -/
theorem exists_splitOn_append (start ending : Text) (h : separator ∉ ending) :
    ∃ before last, (start ++ ending).splitOn separator = before ++ [last ++ ending] := by
  induction start with
  | nil => exact ⟨[], [], List.splitOn_eq_singleton h⟩
  | cons c start ih =>
    obtain ⟨before, last, hsplit⟩ := ih
    rw [List.cons_append, List.splitOn_cons_eq_if_modifyHead, hsplit]
    split_ifs
    · exact ⟨[] :: before, last, rfl⟩
    · cases before with
      | nil => exact ⟨[], c :: last, rfl⟩
      | cons first before => exact ⟨(c :: first) :: before, last, rfl⟩

theorem map_modifyHead {α β : Type} {f : α → α} {g : α → β} {h : β → β}
    (hfg : ∀ a, g (f a) = h (g a)) (as : List α) :
    (as.modifyHead f).map g = (as.map g).modifyHead h := by
  cases as with
  | nil => rfl
  | cons a as => exact congrArg (· :: as.map g) (hfg a)

/-- A separator that was not filled in splits a filled text where it splits the slots. -/
theorem splitOn_fill (pieces : List (Option Char)) (h : separator ∉ new) :
    (fill new pieces).splitOn separator = (pieces.splitOn (some separator)).map (fill new) := by
  induction pieces with
  | nil => rfl
  | cons piece pieces ih =>
    rw [List.splitOn_cons_eq_if_modifyHead]
    cases piece with
    | none =>
      rw [fill_cons_none, splitOn_append new _ h, ih, if_neg (by simp)]
      exact (map_modifyHead (fill_cons_none new) _).symm
    | some c =>
      rw [fill_cons_some, List.splitOn_cons_eq_if_modifyHead, ih]
      by_cases hc : c = separator
      · rw [if_pos (by simp [hc]), if_pos (by simp [hc])]
        rfl
      · rw [if_neg (by simp [hc]), if_neg (by simp [hc])]
        exact (map_modifyHead (fill_cons_some new c) _).symm

theorem exists_mem_splitOn {α : Type} [BEq α] [LawfulBEq α] {a b : α} {as : List α} (ha : a ∈ as)
    (hne : a ≠ b) : ∃ piece ∈ as.splitOn b, a ∈ piece := by
  induction as with
  | nil => cases ha
  | cons c as ih =>
    rw [List.splitOn_cons_eq_if_modifyHead]
    split_ifs with hc
    · have hmem : a ∈ as :=
        (List.mem_cons.mp ha).resolve_left fun heq => hne (heq ▸ beq_iff_eq.mp hc)
      obtain ⟨piece, hpiece, hin⟩ := ih hmem
      exact ⟨piece, List.mem_cons_of_mem [] hpiece, hin⟩
    · obtain ⟨first, rest, hsplit⟩ := List.exists_cons_of_ne_nil (List.splitOn_ne_nil b as)
      rw [hsplit] at ih ⊢
      rcases List.mem_cons.mp ha with rfl | hmem
      · exact ⟨a :: first, List.mem_cons_self, List.mem_cons_self⟩
      · obtain ⟨piece, hpiece, hin⟩ := ih hmem
        rcases List.mem_cons.mp hpiece with rfl | hpiece
        · exact ⟨c :: piece, List.mem_cons_self, List.mem_cons_of_mem c hin⟩
        · exact ⟨piece, List.mem_cons_of_mem _ hpiece, hin⟩

/-- A filled text starts with as many separators as the slots. -/
theorem length_takeWhile_fill (pieces : List (Option Char)) (hnew : new ≠ [])
    (h : separator ∉ new) :
    ((fill new pieces).takeWhile (· == separator)).length =
      (pieces.takeWhile (· == some separator)).length := by
  induction pieces with
  | nil => rfl
  | cons piece pieces ih =>
    cases piece with
    | none =>
      obtain ⟨c, new, rfl⟩ := List.exists_cons_of_ne_nil hnew
      have hc : c ≠ separator := fun heq => h (heq ▸ List.mem_cons_self)
      simp [hc]
    | some c =>
      by_cases hc : c = separator
      · simp [hc, ih]
      · simp [hc]

end Splitting

/-- Nothing is replaced in a text that lacks a character of the part. -/
theorem replaceFrom_of_not_mem {c : Char} {t : Text} (hc : c ∈ part) (ht : c ∉ t) :
    replaceFrom part new 0 t = t := by
  induction t with
  | nil => rfl
  | cons d t ih =>
    rw [replaceFrom, if_neg, ih fun hin => ht (List.mem_cons_of_mem d hin)]
    intro hprefix
    exact ht ((List.isPrefixOf_iff_prefix.mp hprefix).subset hc)

/-- A part that starts before an ending without its last character ends there too. -/
theorem length_le_of_prefix_append {start ending : Text} {last : Char}
    (hlast : part.getLast? = some last) (hending : last ∉ ending) (h : part <+: start ++ ending) :
    part.length ≤ start.length := by
  by_contra hlong
  obtain ⟨more, rfl⟩ := List.prefix_of_prefix_length_le (List.prefix_append start ending) h
    (Nat.le_of_not_le hlong)
  have hmore : more ≠ [] := by
    rintro rfl
    exact hlong (by simp)
  rw [List.getLast?_append_of_ne_nil _ hmore] at hlast
  exact hending (((List.prefix_append_right_inj _).mp h).subset (List.mem_of_getLast? hlast))

/-- What follows the last slot stays at the end. -/
theorem suffix_replace {t ending : Text} {last : Char} (hlast : part.getLast? = some last)
    (hending : last ∉ ending) (h : ending <:+ t) : ending <:+ replace part new t := by
  obtain ⟨start, rfl⟩ := h
  unfold replace
  suffices hfrom : ∀ skip, skip ≤ start.length →
      ending <:+ replaceFrom part new skip (start ++ ending) from hfrom 0 (Nat.zero_le _)
  induction start with
  | nil =>
    intro skip hskip
    obtain rfl := Nat.le_zero.mp hskip
    have hkept : replaceFrom part new 0 ending = ending :=
      replaceFrom_of_not_mem (List.mem_of_getLast? hlast) hending
    simp only [List.nil_append, hkept, List.suffix_rfl]
  | cons c start ih =>
    intro skip hskip
    cases skip with
    | succ skip => exact ih skip (Nat.le_of_succ_le_succ hskip)
    | zero =>
      rw [List.cons_append, replaceFrom]
      split_ifs with hstart
      · have hlength : part.length ≤ (c :: start).length :=
          length_le_of_prefix_append hlast hending (List.isPrefixOf_iff_prefix.mp hstart)
        exact (ih _ (Nat.sub_le_of_le_add hlength)).trans (List.suffix_append _ _)
      · exact (ih 0 (Nat.zero_le _)).trans (List.suffix_cons _ _)

end NativeGlue.Text
