import NativeGlue.Files.Workspace

/-!
What actions do to a workspace. An action that only reads leaves the workspace as it is, and the
results of a traversal by such actions are the results of its steps. Some actions fail only with
conditions for which the tool has no message.
-/

namespace NativeGlue

open Text

/-- Workspaces with the same tree, seen from the same directory. -/
structure Workspace.SameFiles (w v : Workspace) : Prop where
  tree : v.tree = w.tree
  directory : v.directory = w.directory

namespace Workspace.SameFiles

variable {w v u : Workspace}

theorem refl (w : Workspace) : w.SameFiles w := ⟨rfl, rfl⟩

theorem symm (h : w.SameFiles v) : v.SameFiles w := ⟨h.tree.symm, h.directory.symm⟩

theorem trans (hwv : w.SameFiles v) (hvu : v.SameFiles u) : w.SameFiles u :=
  ⟨hvu.tree.trans hwv.tree, hvu.directory.trans hwv.directory⟩

end Workspace.SameFiles

namespace Action

variable {α β : Type}

theorem perform_bind (x : Action α) (f : α → Action β) (w : Workspace) :
    perform (x >>= f) w =
      match perform x w with
      | (.ok a, after) => perform (f a) after
      | (.error failure, after) => (.error failure, after) := by
  rcases h : perform x w with ⟨_ | a, after⟩ <;>
  · simp only [perform, ExceptT.run_bind, StateT.run_bind] at h ⊢
    simp only [h]
    rfl

theorem perform_get (w : Workspace) : (get : Action Workspace).perform w = (.ok w, w) := rfl

theorem perform_say (line : Text) (w : Workspace) :
    (say line).perform w = (.ok (), { w with output := w.output ++ line ++ ['\n'] }) := rfl

theorem exists_perform_eq {x : Action α} {w : Workspace} {result : Except Failure α}
    (h : (x.perform w).1 = result) : ∃ after, x.perform w = (result, after) :=
  ⟨(x.perform w).2, by rw [← h]⟩

theorem perform_bind_of_ok {x : Action α} {w after : Workspace} {a : α} (f : α → Action β)
    (h : x.perform w = (.ok a, after)) : (x >>= f).perform w = (f a).perform after := by
  rw [perform_bind, h]

theorem perform_bind_eq_ok_iff (x : Action α) (f : α → Action β) (w after : Workspace) (b : β) :
    (x >>= f).perform w = (.ok b, after) ↔
      ∃ a between, x.perform w = (.ok a, between) ∧ (f a).perform between = (.ok b, after) := by
  rw [perform_bind]
  rcases x.perform w with ⟨failure | a, between⟩
  · simp
  · simp only [Prod.mk.injEq, Except.ok.injEq]
    exact ⟨fun h => ⟨a, between, ⟨rfl, rfl⟩, h⟩, fun ⟨_, _, ⟨rfl, rfl⟩, h⟩ => h⟩

theorem perform_bind_eq_error_iff (x : Action α) (f : α → Action β) (w after : Workspace)
    (failure : Failure) :
    (x >>= f).perform w = (.error failure, after) ↔
      x.perform w = (.error failure, after) ∨
        ∃ a between, x.perform w = (.ok a, between) ∧
          (f a).perform between = (.error failure, after) := by
  rw [perform_bind]
  rcases x.perform w with ⟨other | a, between⟩
  · simp
  · simp only [Prod.mk.injEq, reduceCtorEq, Except.ok.injEq, false_and, false_or]
    exact ⟨fun h => ⟨a, between, ⟨rfl, rfl⟩, h⟩, fun ⟨_, _, ⟨rfl, rfl⟩, h⟩ => h⟩

/-- An action that leaves every workspace as it is and looks at nothing but its files. -/
def Reads (x : Action α) : Prop :=
  ∀ w v : Workspace, w.SameFiles v → x.perform v = ((x.perform w).1, v)

/-- An action that fails only with conditions that have no message. -/
def NeverReports (x : Action α) : Prop :=
  ∀ w failure after, x.perform w ≠ (.error (.reported failure), after)

/-- An action that has changed nothing when it fails with a message. -/
def ReportsFirst (x : Action α) : Prop :=
  ∀ w failure after, x.perform w = (.error (.reported failure), after) → after = w

/-- An action that gives a result wherever the files are those of a workspace, and leaves them. -/
def Yields (w : Workspace) (x : Action α) (a : α) : Prop :=
  ∀ v : Workspace, w.SameFiles v → ∃ after, x.perform v = (.ok a, after) ∧ w.SameFiles after

namespace Reads

variable {x : Action α} {f : α → Action β}

theorem pure (a : α) : Reads (Pure.pure a : Action α) := fun _ _ _ => rfl

theorem fatal (condition : Fatal) : Reads (Action.fatal condition : Action α) := fun _ _ _ => rfl

theorem report (failure : Reported) : Reads (Action.report failure : Action α) := fun _ _ _ => rfl

/-- Look at the workspace, and go on by its files alone. -/
theorem look {f : Workspace → Action β} (hfiles : ∀ w v : Workspace, w.SameFiles v → f v = f w)
    (hf : ∀ w, Reads (f w)) : Reads (get >>= f) := by
  intro w v hwv
  rw [perform_bind_of_ok f (perform_get v), perform_bind_of_ok f (perform_get w), hfiles w v hwv]
  exact hf w w v hwv

/-- What a reading action gives, it gives on the workspace it started from. -/
theorem after_eq (hx : Reads x) {w after : Workspace} {result : Except Failure α}
    (h : x.perform w = (result, after)) : after = w := by
  have hw := hx w w (.refl w)
  rw [h] at hw
  exact congrArg Prod.snd hw

theorem perform_eq (hx : Reads x) {w : Workspace} {result : Except Failure α}
    (h : (x.perform w).1 = result) : x.perform w = (result, w) := by
  rw [hx w w (.refl w), h]

theorem bind (hx : Reads x) (hf : ∀ a, Reads (f a)) : Reads (x >>= f) := by
  intro w v hwv
  rw [perform_bind, perform_bind, hx w v hwv]
  rcases h : x.perform w with ⟨failure | a, after⟩
  · rfl
  · obtain rfl := hx.after_eq h
    exact hf a after v hwv

theorem ite {p : Prop} [Decidable p] {x y : Action α} (hx : Reads x) (hy : Reads y) :
    Reads (if p then x else y) := by
  split
  · exact hx
  · exact hy

/-- What a reading action gives, it gives on every workspace with the same files. -/
theorem transfer (hx : Reads x) {w v after : Workspace} {result : Except Failure α}
    (hwv : w.SameFiles v) (h : x.perform w = (result, after)) : x.perform v = (result, v) := by
  rw [hx w v hwv, h]

theorem perform_bind_eq_ok_iff (hx : Reads x) (w after : Workspace) (b : β) :
    (x >>= f).perform w = (.ok b, after) ↔
      ∃ a, x.perform w = (.ok a, w) ∧ (f a).perform w = (.ok b, after) := by
  rw [Action.perform_bind_eq_ok_iff]
  constructor
  · rintro ⟨a, between, hfirst, hthen⟩
    obtain rfl := hx.after_eq hfirst
    exact ⟨a, hfirst, hthen⟩
  · rintro ⟨a, hfirst, hthen⟩
    exact ⟨a, w, hfirst, hthen⟩

end Reads

namespace NeverReports

variable {x : Action α} {f : α → Action β}

theorem pure (a : α) : NeverReports (Pure.pure a : Action α) := by
  intro w failure after h
  cases h

theorem fatal (condition : Fatal) : NeverReports (Action.fatal condition : Action α) := by
  intro w failure after h
  cases h

theorem get : NeverReports (MonadState.get : Action Workspace) := by
  intro w failure after h
  cases h

theorem change (f : Workspace → Workspace) : NeverReports (modify f : Action Unit) := by
  intro w failure after h
  cases h

theorem bind (hx : NeverReports x) (hf : ∀ a, NeverReports (f a)) : NeverReports (x >>= f) := by
  intro w failure after h
  rcases (perform_bind_eq_error_iff x f w after _).mp h with hfirst | ⟨a, between, -, hthen⟩
  · exact hx w failure after hfirst
  · exact hf a between failure after hthen

theorem ite {p : Prop} [Decidable p] {x y : Action α} (hx : NeverReports x)
    (hy : NeverReports y) : NeverReports (if p then x else y) := by
  split
  · exact hx
  · exact hy

end NeverReports

namespace ReportsFirst

variable {x : Action α} {f : α → Action β}

theorem of_reads (hx : Reads x) : ReportsFirst x := fun _ _ _ h => hx.after_eq h

theorem of_neverReports (hx : NeverReports x) : ReportsFirst x :=
  fun w failure after h => absurd h (hx w failure after)

theorem bind_of_reads (hx : Reads x) (hf : ∀ a, ReportsFirst (f a)) :
    ReportsFirst (x >>= f) := by
  intro w failure after h
  rcases (perform_bind_eq_error_iff x f w after _).mp h with hfirst | ⟨a, between, hfirst, hthen⟩
  · exact hx.after_eq hfirst
  · obtain rfl := hx.after_eq hfirst
    exact hf a between failure after hthen

theorem bind_of_neverReports (hx : ReportsFirst x) (hf : ∀ a, NeverReports (f a)) :
    ReportsFirst (x >>= f) := by
  intro w failure after h
  rcases (perform_bind_eq_error_iff x f w after _).mp h with hfirst | ⟨a, between, -, hthen⟩
  · exact hx w failure after hfirst
  · exact absurd hthen (hf a between failure after)

end ReportsFirst

namespace Yields

variable {w : Workspace} {x : Action α} {f : α → Action β} {a : α} {b : β}

theorem pure (w : Workspace) (a : α) : Yields w (Pure.pure a : Action α) a :=
  fun v h => ⟨v, rfl, h⟩

theorem of_reads (hx : Reads x) {after : Workspace} (h : x.perform w = (.ok a, after)) :
    Yields w x a := fun v hv => ⟨v, hx.transfer hv h, hv⟩

theorem bind (hx : Yields w x a) (hf : Yields w (f a) b) : Yields w (x >>= f) b := by
  intro v hv
  obtain ⟨between, hfirst, hbetween⟩ := hx v hv
  obtain ⟨after, hthen, hafter⟩ := hf between hbetween
  exact ⟨after, (perform_bind_of_ok f hfirst).trans hthen, hafter⟩

/-- An action gives what it yields, and nothing else. -/
theorem eq_of_ok (hx : Yields w x a) {other : α} {after : Workspace}
    (h : x.perform w = (.ok other, after)) : other = a ∧ w.SameFiles after := by
  obtain ⟨result, hresult, hfiles⟩ := hx w (.refl w)
  rw [h] at hresult
  cases hresult
  exact ⟨rfl, hfiles⟩

theorem say (w : Workspace) (line : Text) : Yields w (Action.say line) () :=
  fun v hv => ⟨_, perform_say line v, hv.tree, hv.directory⟩

end Yields

end Action

end NativeGlue
