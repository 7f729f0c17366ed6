import NativeGlue.Proofs.Glue.Layout

/-!
The pointers of a declaration. Buffers, strings and arrays are acquired, in this order, and of them
arrays and then strings are given back.
-/

namespace NativeGlue

namespace JavaType

theorem isAcquired_eq (t : JavaType) :
    t.isAcquired = (t.isBuffer || t.isString || t.isArray) := by
  unfold isAcquired isPlain isObject isBuffer isString isArray
  cases t.category <;> rfl

/-- A type is of one acquired kind at most. -/
theorem kinds_disjoint (t : JavaType) :
    (t.isBuffer && t.isString) = false ∧ (t.isBuffer && t.isArray) = false ∧
      (t.isString && t.isArray) = false := by
  unfold isBuffer isString isArray
  cases t.category <;> exact ⟨rfl, rfl, rfl⟩

end JavaType

private theorem filter_or_perm {α : Type} (p q : α → Bool) (h : ∀ x, (p x && q x) = false)
    (xs : List α) : (xs.filter p ++ xs.filter q).Perm (xs.filter fun x => p x || q x) := by
  induction xs with
  | nil => exact .nil
  | cons x xs ih =>
    have hx := h x
    cases hp : p x with
    | true =>
      have hq : q x = false := by simpa [hp] using hx
      simpa [hp, hq] using ih
    | false =>
      cases hq : q x with
      | true => simpa [hp, hq] using List.perm_middle.trans (ih.cons x)
      | false => simpa [hp, hq] using ih

namespace Declaration

/-- The pointers of a declaration: what is acquired, what of it is given back, and when. -/
structure OrderedPointers (d : Declaration) : Prop where
  acquired_perm : d.acquired.Perm (d.parameters.filter (·.type.isAcquired))
  acquired_eq : d.acquired = d.parameters.filter (·.type.isBuffer) ++
    d.parameters.filter (·.type.isString) ++ d.parameters.filter (·.type.isArray)
  released_perm : d.released.Perm (d.acquired.filter (·.type.isReleased))
  released_eq : d.released = d.acquired.filter (·.type.isArray) ++
    d.acquired.filter (·.type.isString)
  released_not_buffer : ∀ p ∈ d.released, p.type.isBuffer = false

theorem acquired_perm (d : Declaration) :
    d.acquired.Perm (d.parameters.filter (·.type.isAcquired)) := by
  have hpair := filter_or_perm (·.type.isBuffer) (·.type.isString)
    (fun p => (p.type.kinds_disjoint).1) d.parameters
  have hboth : ∀ p : Parameter,
      ((p.type.isBuffer || p.type.isString) && p.type.isArray) = false := by
    intro p
    obtain ⟨-, hbuffer, hstring⟩ := p.type.kinds_disjoint
    rw [Bool.and_or_distrib_right, hbuffer, hstring]
    rfl
  have hall := filter_or_perm _ (·.type.isArray) hboth d.parameters
  simp only [JavaType.isAcquired_eq]
  exact (hpair.append_right d.arrays).trans hall

theorem filter_isArray_acquired (d : Declaration) :
    d.acquired.filter (·.type.isArray) = d.arrays := by
  have hkinds : ∀ t : JavaType, (t.isArray && t.isBuffer) = false ∧
      (t.isArray && t.isString) = false := by
    intro t
    obtain ⟨-, hbuffer, hstring⟩ := t.kinds_disjoint
    exact ⟨Bool.and_comm _ _ ▸ hbuffer, Bool.and_comm _ _ ▸ hstring⟩
  simp [acquired, buffers, strings, arrays, List.filter_filter, hkinds]

theorem filter_isString_acquired (d : Declaration) :
    d.acquired.filter (·.type.isString) = d.strings := by
  have hkinds : ∀ t : JavaType, (t.isString && t.isBuffer) = false ∧
      (t.isString && t.isArray) = false := by
    intro t
    obtain ⟨hbuffer, -, harray⟩ := t.kinds_disjoint
    exact ⟨Bool.and_comm _ _ ▸ hbuffer, harray⟩
  simp [acquired, buffers, strings, arrays, List.filter_filter, hkinds]

theorem released_perm (d : Declaration) :
    d.released.Perm (d.acquired.filter (·.type.isReleased)) := by
  have hpair := filter_or_perm (·.type.isString) (·.type.isArray)
    (fun p : Parameter => (p.type.kinds_disjoint).2.2) d.acquired
  rw [filter_isString_acquired, filter_isArray_acquired] at hpair
  exact List.perm_append_comm.trans hpair

theorem mem_acquired_of_mem_released (d : Declaration) {p : Parameter} (h : p ∈ d.released) :
    p ∈ d.acquired := (List.mem_filter.mp (d.released_perm.mem_iff.mp h)).1

theorem orderedPointers (d : Declaration) : d.OrderedPointers where
  acquired_perm := d.acquired_perm
  acquired_eq := rfl
  released_perm := d.released_perm
  released_eq := by rw [filter_isString_acquired, filter_isArray_acquired]; rfl
  released_not_buffer := by
    intro p hp
    have hreleased := d.isReleased_of_mem_released p hp
    obtain ⟨hstring, harray, -⟩ := p.type.kinds_disjoint
    cases hbuffer : p.type.isBuffer with
    | false => rfl
    | true => simp_all [JavaType.isReleased]

end Declaration

end NativeGlue
