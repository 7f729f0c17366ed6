import Mathlib.Data.Nat.Digits.Lemmas
import NativeGlue.Proofs.Source.Names
import NativeGlue.Proofs.Traversal
import NativeGlue.Symbol

/-!
Symbols of methods. Escapes are read back one by one, as none begins another, and the underscore
between class and method begins no escape, as no method name begins with a digit. So a symbol tells
its names, but for one thing: a character beyond the first plane has five hexadecimal digits or
more, and is escaped as the character of the first four with the other digits behind it.
-/

namespace NativeGlue

open Text

section Digits

/-- The value of a hexadecimal digit in lower case. -/
def digitValue (c : Char) : Nat := if c.isDigit then c.toNat - 48 else c.toNat - 87

def valueFrom (n : Nat) (digits : Text) : Nat :=
  digits.foldl (fun n c => 16 * n + digitValue c) n

theorem digitValue_digitChar (d : Nat) (hd : d < 16) : digitValue d.digitChar = d := by
  have htable : ∀ d < 16, digitValue d.digitChar = d := by decide
  exact htable d hd

theorem valueFrom_toDigits (n : Nat) : valueFrom 0 (Nat.toDigits 16 n) = n := by
  induction n using Nat.strongRecOn with
  | ind n ih =>
    by_cases hn : n < 16
    · rw [Nat.toDigits_of_lt_base hn]
      exact (Nat.zero_add _).trans (digitValue_digitChar n hn)
    · have hshorter := ih (n / 16) (by omega)
      rw [Nat.toDigits_of_base_le (by decide) (by omega), valueFrom, List.foldl_append]
      unfold valueFrom at hshorter
      rw [hshorter, List.foldl_cons, List.foldl_nil, digitValue_digitChar _ (by omega)]
      omega

theorem valueFrom_hex (width n : Nat) : valueFrom 0 (hex width n) = n := by
  have hzeros (k : Nat) (t : Text) : valueFrom 0 (List.replicate k '0' ++ t) = valueFrom 0 t := by
    induction k with
    | zero => rfl
    | succ k ih => exact ih
  exact (hzeros _ _).trans (valueFrom_toDigits n)

theorem hex_inj (width m n : Nat) : hex width m = hex width n ↔ m = n := by
  refine ⟨fun h => ?_, congrArg _⟩
  rw [← valueFrom_hex width m, h, valueFrom_hex]

theorem length_hex (width n : Nat) (hwidth : 0 < width) (hn : n < 16 ^ width) :
    (hex width n).length = width := by
  have hle := (Nat.length_toDigits_le_iff (b := 16) (by decide) hwidth).mpr hn
  simp only [hex, List.length_append, List.length_replicate]
  omega

/-- A number that fills the width is written without zeros before it. -/
theorem hex_eq_toDigits (width n : Nat) (hn : 16 ^ width ≤ n) :
    hex (width + 1) n = Nat.toDigits 16 n := by
  have hlength : width < (Nat.toDigits 16 n).length := by
    by_contra hshort
    have hpos : 0 < width := lt_of_lt_of_le Nat.length_toDigits_pos (not_lt.mp hshort)
    have := (Nat.length_toDigits_le_iff (b := 16) (by decide) hpos).mp (not_lt.mp hshort)
    omega
  rw [hex, Nat.sub_eq_zero_of_le hlength]
  rfl

/-- Beyond the width, a number is written as its sixteenth with a digit more. -/
theorem hex_append_digit (width n d : Nat) (hn : 16 ^ width ≤ n) (hd : d < 16) :
    hex (width + 1) (16 * n + d) = hex (width + 1) n ++ [d.digitChar] := by
  have hpos : 0 < n := lt_of_lt_of_le (Nat.pow_pos (by decide)) hn
  rw [hex_eq_toDigits width n hn, hex_eq_toDigits width _ (by omega),
    ← Nat.toDigits_append_toDigits (by decide) hpos hd, Nat.toDigits_of_lt_base hd]

end Digits

section Escapes

/-- A character that is no separator of packages and has four hexadecimal digits at most. -/
structure IsNarrow (c : Char) : Prop where
  ne_dot : c ≠ '.'
  toNat_lt : c.toNat < 16 ^ 4

/-- An escape begins with an underscore, and what follows tells how long it is. -/
theorem escapeSymbol_cases (c : Char) (hc : c ≠ '.') :
    (c.isAlphanum = true ∧ escapeSymbol c = [c]) ∨ (c = '_' ∧ escapeSymbol c = ['_', '1']) ∨
      (c.isAlphanum = false ∧ escapeSymbol c = '_' :: '0' :: hex 4 c.toNat) := by
  unfold escapeSymbol
  split_ifs with hunderscore hdollar halnum
  · exact .inr (.inl ⟨hunderscore, rfl⟩)
  · subst hdollar
    exact .inr (.inr ⟨rfl, rfl⟩)
  · exact .inl ⟨halnum, rfl⟩
  · exact .inr (.inr ⟨Bool.not_eq_true _ ▸ halnum, rfl⟩)

variable {c d : Char} {x y : Text}

/-- The escapes of narrow characters are told apart wherever they stand. -/
theorem escapeSymbol_append_inj (hc : IsNarrow c) (hd : IsNarrow d)
    (h : escapeSymbol c ++ x = escapeSymbol d ++ y) : c = d ∧ x = y := by
  have hunderscore (e : Char) (halnum : e.isAlphanum = true) : e ≠ '_' := by
    rintro rfl
    cases halnum
  -- the first two characters of an escape fix its kind, and only code points go on behind them
  rcases escapeSymbol_cases c hc.ne_dot with ⟨halnum, hesc⟩ | ⟨hc', hesc⟩ | ⟨-, hesc⟩ <;>
    rcases escapeSymbol_cases d hd.ne_dot with ⟨halnum', hesc'⟩ | ⟨hd', hesc'⟩ | ⟨-, hesc'⟩ <;>
    rw [hesc, hesc'] at h <;> simp only [List.cons_append, List.nil_append, List.cons.injEq] at h
  · exact h
  · exact absurd h.1 (hunderscore c halnum)
  · exact absurd h.1 (hunderscore c halnum)
  · exact absurd h.1.symm (hunderscore d halnum')
  · exact ⟨hc'.trans hd'.symm, h.2.2⟩
  · exact absurd h.2.1 (by decide)
  · exact absurd h.1.symm (hunderscore d halnum')
  · exact absurd h.2.1 (by decide)
  · have hlength : (hex 4 c.toNat).length = (hex 4 d.toNat).length := by
      rw [length_hex 4 _ (by decide) hc.toNat_lt, length_hex 4 _ (by decide) hd.toNat_lt]
    obtain ⟨hdigits, htail⟩ := List.append_inj h.2.2 hlength
    exact ⟨Char.toNat_inj.mp ((hex_inj 4 _ _).mp hdigits), htail⟩

/-- No escape stands at the beginning. -/
def EndsEscapes (t : Text) : Prop := ∀ c, IsNarrow c → ∀ rest, t ≠ escapeSymbol c ++ rest

theorem escapeSymbol_ne_nil (c : Char) (hc : c ≠ '.') : escapeSymbol c ≠ [] := by
  rcases escapeSymbol_cases c hc with ⟨-, hesc⟩ | ⟨-, hesc⟩ | ⟨-, hesc⟩ <;> rw [hesc] <;>
    exact List.cons_ne_nil _ _

theorem endsEscapes_nil : EndsEscapes [] := by
  intro c hc rest h
  exact escapeSymbol_ne_nil c hc.ne_dot (List.append_eq_nil_iff.mp h.symm).1

/-- Escaped names are told apart wherever the escapes end. -/
theorem mangle_append_inj (a b : Text) (ha : ∀ c ∈ a, IsNarrow c) (hb : ∀ c ∈ b, IsNarrow c)
    (hx : EndsEscapes x) (hy : EndsEscapes y) (h : mangle a ++ x = mangle b ++ y) :
    a = b ∧ x = y := by
  -- where one name ends before the other, the other would go on with an escape
  induction a generalizing b with
  | nil =>
    cases b with
    | nil => exact ⟨rfl, h⟩
    | cons d b =>
      rw [mangle, mangle, List.flatMap_nil, List.flatMap_cons, List.append_assoc] at h
      exact absurd h (hx d (hb d List.mem_cons_self) _)
  | cons c a ih =>
    cases b with
    | nil =>
      rw [mangle, mangle, List.flatMap_nil, List.flatMap_cons, List.append_assoc] at h
      exact absurd h.symm (hy c (ha c List.mem_cons_self) _)
    | cons d b =>
      rw [mangle, mangle, List.flatMap_cons, List.flatMap_cons, List.append_assoc,
        List.append_assoc] at h
      obtain ⟨rfl, htail⟩ :=
        escapeSymbol_append_inj (ha c List.mem_cons_self) (hb d List.mem_cons_self) h
      obtain ⟨rfl, hend⟩ := ih b (fun e he => ha e (List.mem_cons_of_mem c he))
        (fun e he => hb e (List.mem_cons_of_mem c he)) htail
      exact ⟨rfl, hend⟩

theorem mangle_inj (a b : Text) (ha : ∀ c ∈ a, IsNarrow c) (hb : ∀ c ∈ b, IsNarrow c) :
    mangle a = mangle b ↔ a = b := by
  refine ⟨fun h => ?_, congrArg _⟩
  refine (mangle_append_inj a b ha hb endsEscapes_nil endsEscapes_nil ?_).1
  rw [List.append_nil, List.append_nil, h]

theorem escapeSymbol_nameStart (c : Char) (hc : isNameStart c = true) :
    ∃ first rest, escapeSymbol c = first :: rest ∧ first ≠ '0' ∧ first ≠ '1' := by
  have hdigit (e : Char) (he : isNameStart e = false) : c ≠ e := by
    rintro rfl
    rw [hc] at he
    cases he
  rcases escapeSymbol_cases c (hdigit '.' rfl) with ⟨-, hesc⟩ | ⟨-, hesc⟩ | ⟨-, hesc⟩
  · exact ⟨c, [], hesc, hdigit '0' rfl, hdigit '1' rfl⟩
  · exact ⟨'_', ['1'], hesc, by decide, by decide⟩
  · exact ⟨'_', _, hesc, by decide, by decide⟩

/-- As a name begins with no digit, the underscore before it begins no escape. -/
theorem endsEscapes_of_isName (name : Text) (h : isName name = true) :
    EndsEscapes ('_' :: mangle name) := by
  intro c hc rest hsame
  cases name with
  | nil => cases h
  | cons d name =>
    rw [isName, Bool.and_eq_true] at h
    obtain ⟨first, tail, hfirst, hzero, hone⟩ := escapeSymbol_nameStart d h.1
    rw [mangle, List.flatMap_cons, hfirst, List.cons_append] at hsame
    rcases escapeSymbol_cases c hc.ne_dot with ⟨halnum, hesc⟩ | ⟨-, hesc⟩ | ⟨-, hesc⟩ <;>
      rw [hesc] at hsame <;> simp only [List.cons_append, List.cons.injEq] at hsame
    · rw [← hsame.1] at halnum
      cases halnum
    · exact hone hsame.2.1
    · exact hzero hsame.2.1

end Escapes

section Spelling

/-- The narrow characters with the same escape: a wider one is written by its first four
hexadecimal digits, its last digit behind. -/
def spell (c : Char) : Text :=
  if c.toNat < 16 ^ 4 then [c] else [Char.ofNat (c.toNat / 16), Nat.digitChar (c.toNat % 16)]

def spellOut (t : Text) : Text := t.flatMap spell

/-- Characters of names have five hexadecimal digits at most, and the first four of these are no
half of a surrogate pair. -/
def nameBound : Nat := 0xD8000

theorem toNat_lt_of_isAsciiWord (c : Char) (h : isAsciiWord c = true) : c.toNat < 128 := by
  have hlast (last : Char) (hsmall : last.toNat < 128) (hle : c.val ≤ last.val) :
      c.toNat < 128 :=
    Nat.lt_of_le_of_lt (UInt32.le_iff_toNat_le.mp hle) hsmall
  rcases Bool.or_eq_true_iff.mp h with halnum | hunderscore
  · rcases Bool.or_eq_true_iff.mp halnum with hletter | hdigit
    · rcases Bool.or_eq_true_iff.mp hletter with hupper | hlower
      · exact hlast 'Z' (by decide) (of_decide_eq_true hupper).2
      · exact hlast 'z' (by decide) (of_decide_eq_true (Bool.and_eq_true_iff.mp hlower).2)
    · exact hlast '9' (by decide) (of_decide_eq_true (Bool.and_eq_true_iff.mp hdigit).2)
  · exact beq_iff_eq.mp hunderscore ▸ by decide

theorem toNat_lt_of_isNamePart (c : Char) (h : isNamePart c = true) : c.toNat < nameBound := by
  have htable : ∀ r ∈ wordRanges, r.2 < nameBound := by decide +kernel
  simp only [isNamePart, isWord, Bool.or_eq_true, Bool.and_eq_true, beq_iff_eq] at h
  rcases h with (hascii | ⟨-, hranges⟩) | rfl
  · exact Nat.lt_trans (toNat_lt_of_isAsciiWord c hascii) (by decide)
  · obtain ⟨r, hr, hc⟩ := List.any_eq_true.mp hranges
    rw [Bool.and_eq_true, decide_eq_true_eq, decide_eq_true_eq] at hc
    exact Nat.lt_of_le_of_lt hc.2 (htable r hr)
  · decide

theorem escapeSymbol_of_not_ascii (c : Char) (h : 128 ≤ c.toNat) :
    escapeSymbol c = '_' :: '0' :: hex 4 c.toNat := by
  have hword : ¬ isAsciiWord c = true := fun hc => by
    have := toNat_lt_of_isAsciiWord c hc
    omega
  have hdot : c ≠ '.' := by
    rintro rfl
    exact absurd h (by decide)
  rw [isAsciiWord, Bool.or_eq_true, not_or, beq_iff_eq] at hword
  rcases escapeSymbol_cases c hdot with ⟨halnum, -⟩ | ⟨hc, -⟩ | ⟨-, hesc⟩
  · exact absurd halnum hword.1
  · exact absurd hc hword.2
  · exact hesc

theorem spell_of_narrow (c : Char) (h : c.toNat < 16 ^ 4) : spell c = [c] := if_pos h

/-- How a wide character is spelled. -/
theorem exists_spell_of_wide (c : Char) (h : 16 ^ 4 ≤ c.toNat) (hbound : c.toNat < nameBound) :
    ∃ first last, spell c = [first, last] ∧ first.toNat = c.toNat / 16 ∧
      last = Nat.digitChar (c.toNat % 16) := by
  refine ⟨_, _, if_neg (by omega), ?_, rfl⟩
  have hvalid : c.toNat / 16 < 0xD800 := by
    unfold nameBound at hbound
    omega
  rw [Char.ofNat, dif_pos (Or.inl hvalid)]
  rfl

theorem escapeSymbol_digitChar (n : Nat) (hn : n < 16) :
    escapeSymbol n.digitChar = [n.digitChar] := by
  have htable : ∀ n < 16, escapeSymbol n.digitChar = [n.digitChar] := by decide
  exact htable n hn

theorem mangle_spell (c : Char) (hbound : c.toNat < nameBound) :
    mangle (spell c) = escapeSymbol c := by
  by_cases hc : c.toNat < 16 ^ 4
  · rw [spell_of_narrow c hc]
    exact List.append_nil _
  · obtain ⟨first, last, hspell, hfirst, rfl⟩ := exists_spell_of_wide c (by omega) hbound
    -- the last digit is a letter or digit, and so its own escape
    have hdigits := hex_append_digit 3 (c.toNat / 16) (c.toNat % 16) (by omega) (by omega)
    rw [Nat.div_add_mod] at hdigits
    have hlast := escapeSymbol_digitChar (c.toNat % 16) (by omega)
    rw [escapeSymbol_of_not_ascii c (by omega), hdigits, hspell, mangle, List.flatMap_cons,
      List.flatMap_singleton, escapeSymbol_of_not_ascii first (by omega), hfirst, hlast]
    rfl

theorem isNarrow_of_mem_spell (c : Char) (hdot : c ≠ '.') (hbound : c.toNat < nameBound)
    (d : Char) (hd : d ∈ spell c) : IsNarrow d := by
  by_cases hc : c.toNat < 16 ^ 4
  · rw [spell_of_narrow c hc, List.mem_singleton] at hd
    exact hd ▸ ⟨hdot, hc⟩
  · obtain ⟨first, last, hspell, hfirst, hlast⟩ := exists_spell_of_wide c (by omega) hbound
    rw [hspell, List.mem_pair] at hd
    rcases hd with rfl | rfl
    · refine ⟨?_, ?_⟩
      · rintro rfl
        have hsmall : '.'.toNat = 46 := rfl
        omega
      · unfold nameBound at hbound
        omega
    · have htable : ∀ n < 16, n.digitChar ≠ '.' ∧ n.digitChar.toNat < 16 ^ 4 := by decide
      obtain ⟨hne, hlt⟩ := htable (c.toNat % 16) (by omega)
      exact hlast ▸ ⟨hne, hlt⟩

variable {name : Text}

theorem spellOut_of_narrow (h : ∀ c ∈ name, c.toNat < 16 ^ 4) : spellOut name = name := by
  calc
    spellOut name = name.flatMap fun c => [c] :=
      List.flatMap_congr fun c hc => spell_of_narrow c (h c hc)
    _ = name := List.flatMap_singleton' name

theorem mangle_spellOut (h : ∀ c ∈ name, isNamePart c = true) :
    mangle (spellOut name) = mangle name := by
  rw [mangle, spellOut, List.flatMap_assoc]
  exact List.flatMap_congr fun c hc => mangle_spell c (toNat_lt_of_isNamePart c (h c hc))

theorem isNarrow_of_mem_spellOut (h : ∀ c ∈ name, isNamePart c = true) :
    ∀ c ∈ spellOut name, IsNarrow c := by
  intro d hd
  obtain ⟨c, hc, hd⟩ := List.mem_flatMap.mp hd
  have hdot : c ≠ '.' := by
    rintro rfl
    exact absurd (h _ hc) (by decide)
  exact isNarrow_of_mem_spell c hdot (toNat_lt_of_isNamePart c (h c hc)) d hd

end Spelling

namespace Declaration

/-- Two methods share a symbol just when their names and the names of their classes are spelled
alike. -/
theorem IsNamed.symbol_inj {d e : Declaration} (hd : d.IsNamed) (he : e.IsNamed) :
    d.symbol = e.symbol ↔ spellOut d.className = spellOut e.className ∧
      spellOut d.methodName = spellOut e.methodName := by
  have hclass (x : Declaration) (hx : x.IsNamed) := hx.className.isNamePart_of_mem
  have hmethod (x : Declaration) (hx : x.IsNamed) := isNamePart_of_isName _ hx.methodName
  have hsymbol (x : Declaration) (hx : x.IsNamed) :
      x.symbol = mangle (spellOut x.className) ++ '_' :: mangle x.methodName := by
    rw [symbol, mangle_spellOut (hclass x hx)]
  have hnarrow (x : Declaration) (hx : x.IsNamed) := isNarrow_of_mem_spellOut (hclass x hx)
  rw [hsymbol d hd, hsymbol e he]
  constructor
  · intro h
    obtain ⟨hclasses, hmethods⟩ := mangle_append_inj _ _ (hnarrow d hd) (hnarrow e he)
      (endsEscapes_of_isName _ hd.methodName) (endsEscapes_of_isName _ he.methodName) h
    rw [List.cons.injEq, ← mangle_spellOut (hmethod d hd), ← mangle_spellOut (hmethod e he),
      mangle_inj _ _ (isNarrow_of_mem_spellOut (hmethod d hd))
        (isNarrow_of_mem_spellOut (hmethod e he))] at hmethods
    exact ⟨hclasses, hmethods.2⟩
  · rintro ⟨hclasses, hmethods⟩
    rw [hclasses, ← mangle_spellOut (hmethod d hd), hmethods, mangle_spellOut (hmethod e he)]

/-- Where no character is wider than four hexadecimal digits, the symbol tells the names. -/
theorem IsNamed.names_eq_of_symbol_eq {d e : Declaration} (hd : d.IsNamed) (he : e.IsNamed)
    (hnarrow : ∀ x ∈ [d, e], ∀ c ∈ x.className ++ x.methodName, c.toNat < 16 ^ 4)
    (h : d.symbol = e.symbol) : d.className = e.className ∧ d.methodName = e.methodName := by
  have hspell (x : Declaration) (hx : x ∈ [d, e]) :
      spellOut x.className = x.className ∧ spellOut x.methodName = x.methodName :=
    ⟨spellOut_of_narrow fun c hc => hnarrow x hx c (List.mem_append_left _ hc),
      spellOut_of_narrow fun c hc => hnarrow x hx c (List.mem_append_right _ hc)⟩
  have hd' := hspell d List.mem_cons_self
  have he' := hspell e (List.mem_cons_of_mem d List.mem_cons_self)
  rw [hd.symbol_inj he, hd'.1, hd'.2, he'.1, he'.2] at h
  exact h

end Declaration

/-- Two methods of any files share a symbol just when their names are spelled alike. -/
theorem symbol_eq_iff_of_read {t u : Text} {contents others : Source.Contents}
    (ht : Source.read t = .ok contents) (hu : Source.read u = .ok others) {d e : Declaration}
    (hd : d ∈ contents.declarations) (he : e ∈ others.declarations) :
    d.symbol = e.symbol ↔ spellOut d.className = spellOut e.className ∧
      spellOut d.methodName = spellOut e.methodName :=
  (Source.isNamed_of_read ht d hd).symbol_inj (Source.isNamed_of_read hu e he)

/-- A class of two methods with these names. -/
def pairSource (first second : Text) : Text :=
  "class A \x7b\nnative void ".toList ++ first ++ "(); /*1*/\nnative void ".toList ++ second ++
    "(); /*2*/\n\x7d".toList

def pairMethod (name : Text) (line : Int) (code : Char) : Declaration :=
  ⟨['A'], name, false, [], [code], line, line, line⟩

/-- An underscore and a dollar sign at the end of a name are told apart. -/
theorem symbol_tells_marks :
    Source.read (pairSource "a_".toList "a$".toList) =
      .ok ⟨[.declared (pairMethod "a_".toList 2 '1'), .declared (pairMethod "a$".toList 3 '2')],
        []⟩ ∧
    (pairMethod "a_".toList 2 '1').symbol ≠ (pairMethod "a$".toList 3 '2').symbol := by
  have hread : Source.read (pairSource "a_".toList "a$".toList) =
      .ok ⟨[.declared (pairMethod "a_".toList 2 '1'), .declared (pairMethod "a$".toList 3 '2')],
        []⟩ := eq_ok_of_toOption (by decide +kernel)
  have hiff := symbol_eq_iff_of_read hread hread (d := pairMethod "a_".toList 2 '1')
    (e := pairMethod "a$".toList 3 '2') List.mem_cons_self
    (List.mem_cons_of_mem _ List.mem_cons_self)
  refine ⟨hread, fun hsame => ?_⟩
  exact absurd (hiff.mp hsame).2 (by decide)

/-- A character of the second plane as the last of a name. -/
def wideName : Text := ['a', Char.ofNat 0x10000]

/-- The character of its first four hexadecimal digits, with the fifth behind. -/
def digitName : Text := ['a', Char.ofNat 0x1000, '0']

/-- In one class two methods may share a symbol. -/
theorem wide_name_shares_symbol :
    ∃ contents d e, Source.read (pairSource digitName wideName) = .ok contents ∧
      contents.declarations = [d, e] ∧ d.symbol = e.symbol ∧ d.methodName ≠ e.methodName := by
  refine ⟨⟨[.declared (pairMethod digitName 2 '1'), .declared (pairMethod wideName 3 '2')], []⟩,
    pairMethod digitName 2 '1', pairMethod wideName 3 '2', ?_, rfl, ?_, ?_⟩
  · exact eq_ok_of_toOption (by decide +kernel)
  · decide +kernel
  · decide +kernel

end NativeGlue
