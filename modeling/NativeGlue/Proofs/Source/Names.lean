import NativeGlue.Proofs.Source.NativeOutcome
import NativeGlue.Proofs.Source.Slices
import NativeGlue.Proofs.Text.Splitting
import NativeGlue.Text.Word

/-!
The names under which methods are declared. A method has a name of its own and the names of the
classes around it, joined by dollar signs, and all of them are identifiers.
-/

namespace NativeGlue

open Text

theorem isNamePart_of_isName (name : Text) (h : isName name = true) :
    ∀ c ∈ name, isNamePart c = true := by
  cases name with
  | nil => cases h
  | cons first rest =>
    rw [isName, Bool.and_eq_true] at h
    intro c hc
    rcases List.mem_cons.mp hc with rfl | hc
    · simp only [isNameStart, isAsciiLetter, Bool.or_eq_true] at h
      simp only [isNamePart, isWord, isAsciiWord, Char.isAlphanum, Bool.or_eq_true]
      tauto
    · exact List.all_eq_true.mp h.2 c hc

/-- The name of a class is made of the identifiers of the classes around it. -/
def IsClassName (t : Text) : Prop :=
  ∃ names : List Text, names ≠ [] ∧ (∀ name ∈ names, isName name = true) ∧ t = join ['$'] names

theorem IsClassName.isNamePart_of_mem {name : Text} (h : IsClassName name) :
    ∀ c ∈ name, isNamePart c = true := by
  obtain ⟨names, -, hnames, rfl⟩ := h
  refine forall_mem_join ['$'] names (isNamePart · = true) (fun c hc => ?_) fun part hpart =>
    isNamePart_of_isName part (hnames part hpart)
  exact List.mem_singleton.mp hc ▸ rfl

structure Declaration.IsNamed (d : Declaration) : Prop where
  className : IsClassName d.className
  methodName : isName d.methodName = true

namespace Source

theorem isName_of_nameAfterKeyword? {t name : Text} (h : nameAfterKeyword? t = some name) :
    isName name = true := by
  obtain ⟨word, -, h⟩ := List.exists_of_findSome?_eq_some h
  obtain ⟨rest, -, h⟩ := Option.bind_eq_some_iff.mp h
  split at h
  · next c tail _ _ =>
    split_ifs at h with hc
    cases h
    rw [isName, hc, Bool.true_and]
    exact List.all_takeWhile
  · cases h

theorem isName_of_className? {statement name : Text} (h : className? statement = some name) :
    isName name = true := by
  have hfrom (before : Option Char) (t : Text) (h : classNameFrom? before t = some name) :
      isName name = true := by
    induction t generalizing before with
    | nil => cases h
    | cons c t ih =>
      unfold classNameFrom? at h
      split at h
      · next found hfound =>
        cases h
        split_ifs at hfound
        exact isName_of_nameAfterKeyword? hfound
      · exact ih _ h
  exact hfrom none statement h

theorem isName_of_methodName {statement name : Text} {words modifiers : List Text}
    (h : methodName statement words = .ok (name, modifiers)) : isName name = true := by
  unfold methodName at h
  split at h
  · cases h
  · next found _ =>
    dsimp only at h
    split_ifs at h with hrefused
    cases h
    rw [Bool.or_eq_true, not_or, Bool.not_eq_true', Bool.not_eq_false] at hrefused
    exact hrefused.1

namespace Scan

/-- What a scan knows by name. -/
structure IsNamed (s : Scan) : Prop where
  scopes : ∀ scope ∈ s.scopes, ∀ name, scope.name = some name → isName name = true
  pending : ∀ m, s.pending = some m → IsClassName m.className ∧ isName m.methodName = true
  segments : ∀ x ∈ s.segments, ∀ d, x.declaration? = some d → d.IsNamed

namespace IsNamed

variable {s next : Scan}

theorem start : Scan.start.IsNamed where
  scopes _ h := by cases h
  pending _ h := by cases h
  segments _ h := by cases h

theorem owner (h : s.IsNamed) {owner : Text} (howner : s.owner = some owner) :
    IsClassName owner := by
  unfold Scan.owner at howner
  split at howner
  · cases howner
  · next hne =>
    cases howner
    refine ⟨_, hne, fun name hname => ?_, rfl⟩
    obtain ⟨scope, hscope, hfound⟩ := List.mem_filterMap.mp hname
    exact h.scopes scope (List.mem_reverse.mp hscope) name hfound

theorem dropPending (h : s.IsNamed) : s.dropPending.IsNamed := by
  obtain ⟨-, -, hscopes, hsegments⟩ := s.dropPending_fields
  refine ⟨hscopes ▸ h.scopes, fun m hm => ?_, hsegments ▸ h.segments⟩
  rw [s.dropPending_pending] at hm
  cases hm

theorem mark {c : Char} (h : s.IsNamed) (hread : s.mark c = .ok next) : next.IsNamed := by
  rcases mark_cases hread with ⟨-, hend⟩ | ⟨-, rfl⟩ | ⟨-, hclose⟩ | ⟨-, -, -, rfl⟩
  · rcases endStatement_cases hend with ⟨-, rfl⟩ | ⟨-, m, hm, rfl⟩
    · exact ⟨h.scopes, h.pending, h.segments⟩
    · refine ⟨h.scopes, fun n hn => ?_, h.segments⟩
      cases hn
      obtain ⟨howner, -, head, modifiers, hname, -⟩ := readNativeMethod_cases hm
      exact ⟨h.owner howner, isName_of_methodName hname⟩
  · refine ⟨fun scope hscope name hname => ?_, h.pending, h.segments⟩
    rcases List.mem_cons.mp hscope with rfl | hscope
    · split_ifs at hname
      exact isName_of_className? hname
    · exact h.scopes scope hscope name hname
  · obtain ⟨scope, scopes, hscopes, rfl⟩ := closeScope_cases hclose
    refine ⟨fun inner hinner => h.scopes inner ?_, h.pending, h.segments⟩
    exact hscopes ▸ List.mem_cons_of_mem scope hinner
  · exact ⟨h.scopes, h.pending, h.segments⟩

theorem comment (h : s.IsNamed) (body : Text) : (s.comment body).IsNamed where
  scopes := (s.commentSegment_fields body _).1 ▸ h.scopes
  pending m hm := by
    rw [s.comment_pending] at hm
    cases hm
  segments x hx d hd := by
    rw [comment_segments, List.mem_append] at hx
    rcases hx with hx | hx
    · exact h.segments x hx d hd
    · rcases mem_segment?_cases (Option.mem_toList.mp hx) with ⟨block, rfl⟩ | ⟨m, hm, rfl⟩
      · cases hd
      · cases hd
        exact ⟨(h.pending m hm).1, (h.pending m hm).2⟩

theorem read {l : Lexeme} (h : s.IsNamed) (hread : s.read l = .ok next) : next.IsNamed := by
  cases l with
  | comment body =>
    cases hread
    exact h.comment body
  | mark c => exact h.dropPending.mark hread
  | blank c =>
    cases hread
    exact ⟨h.scopes, h.pending, h.segments⟩
  | lineComment body | literal quote body | textBlock body =>
    cases hread
    exact ⟨h.dropPending.scopes, h.dropPending.pending, h.dropPending.segments⟩

end IsNamed

end Scan

/-- The methods of a file are declared under identifiers. -/
theorem isNamed_of_read {t : Text} {contents : Contents} (h : Source.read t = .ok contents) :
    ∀ d ∈ contents.declarations, d.IsNamed := by
  obtain ⟨ls, last, -, hrun, rfl⟩ := (read_eq_ok_iff t contents).mp h
  have hlast : last.IsNamed :=
    Scan.run_induction (fun _ _ _ _ hread h => h.read hread) hrun Scan.IsNamed.start
  intro d hd
  obtain ⟨x, hx, hdeclared⟩ := List.mem_filterMap.mp hd
  rw [Scan.finish_segments] at hx
  exact hlast.segments x hx d hdeclared

end Source

end NativeGlue
