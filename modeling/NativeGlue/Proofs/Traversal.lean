import Mathlib.Data.List.Forall2

/-!
Traversals of lists by steps that may fail. A traversal succeeds just when every step does, and
its result holds the results of the steps in their order.
-/

namespace NativeGlue

variable {α β ε : Type}

theorem eq_ok_of_toOption {x : Except ε α} {a : α} (h : x.toOption = some a) : x = .ok a := by
  cases x with
  | error fault => cases h
  | ok b => exact congrArg Except.ok (Option.some.inj h)

theorem bind_eq_ok_iff (x : Except ε α) (f : α → Except ε β) (b : β) :
    x >>= f = .ok b ↔ ∃ a, x = .ok a ∧ f a = .ok b := by
  cases x with
  | error fault => simp [bind, Except.bind]
  | ok a => simp [bind, Except.bind]

theorem exists_bind_eq_ok_iff (x : Except ε α) (f : α → Except ε β) :
    (∃ b, x >>= f = .ok b) ↔ ∃ a, x = .ok a ∧ ∃ b, f a = .ok b := by
  simp only [bind_eq_ok_iff]
  exact ⟨fun ⟨b, a, ha, hb⟩ => ⟨a, ha, b, hb⟩, fun ⟨a, ha, b, hb⟩ => ⟨b, a, ha, hb⟩⟩

theorem forM_eq_ok_iff (f : α → Except ε Unit) (xs : List α) :
    xs.forM f = .ok () ↔ ∀ x ∈ xs, f x = .ok () := by
  induction xs with
  | nil => exact ⟨fun _ _ hx => absurd hx List.not_mem_nil, fun _ => rfl⟩
  | cons x xs ih =>
    rw [List.forall_mem_cons, ← ih]
    exact (bind_eq_ok_iff (f x) (fun _ => xs.forM f) ()).trans
      ⟨fun ⟨_, hx, hxs⟩ => ⟨hx, hxs⟩, fun ⟨hx, hxs⟩ => ⟨(), hx, hxs⟩⟩

theorem mapM_eq_ok_iff (f : α → Except ε β) (xs : List α) (ys : List β) :
    xs.mapM f = .ok ys ↔ List.Forall₂ (fun x y => f x = .ok y) xs ys := by
  induction xs generalizing ys with
  | nil =>
    rw [List.mapM_nil, List.forall₂_nil_left_iff]
    exact ⟨fun h => (Except.ok.inj h).symm, fun h => h ▸ rfl⟩
  | cons x xs ih =>
    rw [List.mapM_cons, List.forall₂_cons_left_iff]
    constructor
    · intro h
      cases hx : f x with
      | error fault => simp [hx, bind, Except.bind] at h
      | ok y =>
        cases hxs : xs.mapM f with
        | error fault => simp [hx, hxs, bind, Except.bind] at h
        | ok tail =>
          simp only [hx, hxs, bind, Except.bind, pure, Except.pure, Except.ok.injEq] at h
          exact ⟨y, tail, rfl, (ih tail).mp hxs, h.symm⟩
    · rintro ⟨y, tail, hy, htail, rfl⟩
      simp only [hy, (ih tail).mpr htail, bind, Except.bind, pure, Except.pure]

theorem exists_of_forall₂ {R : α → β → Prop} {xs : List α} {ys : List β}
    (h : List.Forall₂ R xs ys) {y : β} (hy : y ∈ ys) : ∃ x ∈ xs, R x y := by
  obtain ⟨i, hi, rfl⟩ := List.mem_iff_getElem.mp hy
  have hxs : i < xs.length := by rwa [h.length_eq]
  exact ⟨xs[i], List.getElem_mem hxs, h.get hxs hi⟩

/-- Every result of a traversal is the result of a step. -/
theorem exists_of_mem_mapM (f : α → Except ε β) (xs : List α) (ys : List β)
    (h : xs.mapM f = .ok ys) (y : β) (hy : y ∈ ys) : ∃ x ∈ xs, f x = .ok y :=
  exists_of_forall₂ ((mapM_eq_ok_iff f xs ys).mp h) hy

/-- A traversal that fails does so at the first step that does. -/
theorem exists_of_mapM_eq_error (f : α → Except ε β) (xs : List α) (fault : ε)
    (h : xs.mapM f = .error fault) : ∃ before x after, xs = before ++ x :: after ∧
      (∀ y ∈ before, ∃ z, f y = .ok z) ∧ f x = .error fault := by
  induction xs with
  | nil => cases h
  | cons x xs ih =>
    rw [List.mapM_cons] at h
    cases hx : f x with
    | error other =>
      simp only [hx, bind, Except.bind, Except.error.injEq] at h
      exact ⟨[], x, xs, rfl, by simp, h ▸ hx⟩
    | ok y =>
      cases hxs : xs.mapM f with
      | ok ys => simp [hx, hxs, bind, Except.bind, pure, Except.pure] at h
      | error other =>
        simp only [hx, hxs, bind, Except.bind, Except.error.injEq] at h
        obtain ⟨before, w, after, rfl, hbefore, hw⟩ := ih (h ▸ hxs)
        refine ⟨x :: before, w, after, rfl, ?_, hw⟩
        rintro z (_ | ⟨_, hz⟩)
        · exact ⟨y, hx⟩
        · exact hbefore z hz

theorem exists_mapM_eq_ok (f : α → Except ε β) (xs : List α)
    (h : ∀ x ∈ xs, ∃ y, f x = .ok y) : ∃ ys, xs.mapM f = .ok ys := by
  induction xs with
  | nil => exact ⟨[], rfl⟩
  | cons x xs ih =>
    obtain ⟨y, hy⟩ := h x List.mem_cons_self
    obtain ⟨ys, hys⟩ := ih fun z hz => h z (List.mem_cons_of_mem x hz)
    exact ⟨y :: ys, by simp only [List.mapM_cons, hy, hys, bind, Except.bind, pure, Except.pure]⟩

end NativeGlue
