import NativeGlue.Proofs.Files.Action

/-!
Traversals of lists by actions. A traversal comes to one element after another, each in the
workspace that the steps before have left, and ends with the first step that fails. What its steps
do adds up to what it does.
-/

namespace NativeGlue.Action

variable {α β γ σ : Type}

/-- The elements to which a traversal comes, each with the workspace in which its step starts. -/
def started (step : α → Action β) : List α → Workspace → List (α × Workspace)
  | [], _ => []
  | a :: rest, w =>
    (a, w) :: match (step a).perform w with
      | (.ok _, after) => started step rest after
      | (.error _, _) => []

theorem mem_of_mem_started {step : α → Action β} {as : List α} {w : Workspace}
    {s : α × Workspace} (h : s ∈ started step as w) : s.1 ∈ as := by
  induction as generalizing w with
  | nil => cases h
  | cons a as ih =>
    rw [started, List.mem_cons] at h
    rcases h with rfl | h
    · exact List.mem_cons_self
    · split at h
      · exact List.mem_cons_of_mem a (ih h)
      · cases h

/-- Take a step for each element and gather the results from the last to the first. -/
def traverse (step : α → Action β) (gather : β → List γ → List γ) : List α → Action (List γ)
  | [] => pure []
  | a :: rest => do
    let b ← step a
    let gathered ← traverse step gather rest
    return gather b gathered

theorem mapM_eq_traverse (step : α → Action β) (as : List α) :
    as.mapM step = traverse step List.cons as := by
  induction as with
  | nil => rfl
  | cons a as ih => rw [List.mapM_cons, traverse, ih]

theorem filterMapM_eq_traverse (step : α → Action (Option β)) (as : List α) :
    as.filterMapM step = traverse step (fun b bs => b.toList ++ bs) as := by
  induction as with
  | nil => rfl
  | cons a as ih =>
    rw [List.filterMapM_cons, traverse, ih]
    refine bind_congr fun b => ?_
    cases b with
    | none => exact (bind_pure _).symm
    | some b => rfl

/-- A result or a failure with a message. -/
def HasMessage (result : Except Failure α) : Prop := ∀ condition, result ≠ .error (.fatal condition)

section Traverse

variable (step : α → Action β) (gather : β → List γ → List γ)

theorem traverse_cons_eq_ok {a : α} {as : List α} {w after : Workspace} {gathered : List γ}
    (h : (traverse step gather (a :: as)).perform w = (.ok gathered, after)) :
    ∃ b between rest, (step a).perform w = (.ok b, between) ∧
      (traverse step gather as).perform between = (.ok rest, after) ∧
      gathered = gather b rest := by
  obtain ⟨b, between, hfirst, h⟩ := (perform_bind_eq_ok_iff _ _ w after gathered).mp h
  obtain ⟨rest, last, hrest, h⟩ := (perform_bind_eq_ok_iff _ _ between after gathered).mp h
  cases h
  exact ⟨b, between, rest, hfirst, hrest, rfl⟩

section Relates

variable (relates : Workspace → List σ → Workspace → Prop) (hnil : ∀ w, relates w [] w)
  (happend : ∀ {w v u xs ys}, relates w xs v → relates v ys u → relates w (xs ++ ys) u)
  (trace : α × Workspace → List σ)
  (hstep : ∀ a w result after, (step a).perform w = (result, after) → HasMessage result →
    relates w (trace (a, w)) after)

include hnil happend hstep

/-- What relates the workspaces around each step, and can be put together, relates those around a
traversal that ends with a result or a message. -/
theorem traverse_relates (as : List α) (w after : Workspace) (result : Except Failure (List γ))
    (h : (traverse step gather as).perform w = (result, after)) (hresult : HasMessage result) :
    relates w ((started step as w).flatMap trace) after := by
  induction as generalizing w result with
  | nil =>
    cases h
    exact hnil after
  | cons a as ih =>
    rw [traverse, perform_bind] at h
    rw [started, List.flatMap_cons]
    rcases hfirst : (step a).perform w with ⟨failure | b, between⟩
    · rw [hfirst] at h
      cases h
      have hmessage : HasMessage (Except.error failure : Except Failure β) :=
        fun condition heq => hresult condition (congrArg Except.error (Except.error.inj heq))
      exact happend (hstep a w _ _ hfirst hmessage) (hnil after)
    · refine happend (hstep a w _ _ hfirst fun _ heq => nomatch heq) ?_
      rw [hfirst] at h
      dsimp only at h
      rw [perform_bind] at h
      rcases hrest : (traverse step gather as).perform between with ⟨failure | gathered, last⟩
      · rw [hrest] at h
        cases h
        exact ih between (.error failure) hrest fun condition heq =>
          hresult condition (congrArg Except.error (Except.error.inj heq))
      · rw [hrest] at h
        cases h
        exact ih between (.ok gathered) hrest fun _ heq => nomatch heq

/-- What relates the workspaces around a traversal relates those before, and those after, any of its
steps starts. -/
theorem exists_relates_started (as : List α) (w after : Workspace) (gathered : List γ)
    (h : (traverse step gather as).perform w = (.ok gathered, after)) :
    ∀ s ∈ started step as w, ∃ before later, relates w before s.2 ∧ relates s.2 later after ∧
      (started step as w).flatMap trace = before ++ later ∧ trace s <+: later := by
  induction as generalizing w gathered with
  | nil => exact fun s hs => nomatch hs
  | cons a as ih =>
    obtain ⟨b, between, rest, hfirst, hrest, -⟩ := traverse_cons_eq_ok step gather h
    intro s hs
    have hsplit : (started step (a :: as) w).flatMap trace =
        trace (a, w) ++ (started step as between).flatMap trace := by
      rw [started, hfirst, List.flatMap_cons]
    rw [started, hfirst, List.mem_cons] at hs
    rcases hs with rfl | hs
    · refine ⟨[], (started step (a :: as) w).flatMap trace, hnil w, ?_, rfl,
        hsplit ▸ List.prefix_append _ _⟩
      exact traverse_relates step gather relates hnil happend trace hstep (a :: as) w after _ h
        fun _ heq => nomatch heq
    · obtain ⟨before, later, hbefore, hlater, hall, hprefix⟩ := ih between rest hrest s hs
      refine ⟨trace (a, w) ++ before, later, ?_, hlater, by rw [hsplit, hall, List.append_assoc],
        hprefix⟩
      exact happend (hstep a w _ _ hfirst fun _ heq => nomatch heq) hbefore

end Relates

/-- Every step to which a successful traversal comes succeeds. -/
theorem exists_of_mem_started {as : List α} {w after : Workspace} {gathered : List γ}
    (h : (traverse step gather as).perform w = (.ok gathered, after)) :
    ∀ s ∈ started step as w, ∃ b next, (step s.1).perform s.2 = (.ok b, next) := by
  induction as generalizing w after gathered with
  | nil => exact fun s hs => nomatch hs
  | cons a as ih =>
    obtain ⟨b, between, rest, hfirst, hrest, -⟩ := traverse_cons_eq_ok step gather h
    intro s hs
    rw [started, hfirst, List.mem_cons] at hs
    rcases hs with rfl | hs
    · exact ⟨b, between, hfirst⟩
    · exact ih hrest s hs

/-- What the steps of a successful traversal gave is what was gathered. -/
theorem flatMap_started_eq (measure : List γ → List σ) (part : β → List σ)
    (trace : α × Workspace → List σ) (hnil : measure [] = [])
    (hgather : ∀ b gathered, measure (gather b gathered) = part b ++ measure gathered)
    (as : List α) (w after : Workspace) (gathered : List γ)
    (h : (traverse step gather as).perform w = (.ok gathered, after))
    (hstep : ∀ s ∈ started step as w, ∀ b next, (step s.1).perform s.2 = (.ok b, next) →
      trace s = part b) :
    (started step as w).flatMap trace = measure gathered := by
  induction as generalizing w gathered with
  | nil =>
    cases h
    exact hnil.symm
  | cons a as ih =>
    obtain ⟨b, between, rest, hfirst, hrest, rfl⟩ := traverse_cons_eq_ok step gather h
    rw [started, hfirst] at hstep ⊢
    rw [List.flatMap_cons, hgather, hstep (a, w) List.mem_cons_self b between hfirst]
    exact congrArg _ (ih between rest hrest fun s hs => hstep s (List.mem_cons_of_mem _ hs))

/-- A traversal whose steps yield what those of another gave, seen another way, yields what the
other gave, seen that way. -/
theorem yields_traverse {target : Workspace} (again : α → Action β) (seen : β → β)
    (shown : γ → γ) (hgather : ∀ b gathered,
      gather (seen b) (gathered.map shown) = (gather b gathered).map shown)
    (as : List α) (w after : Workspace) (gathered : List γ)
    (h : (traverse step gather as).perform w = (.ok gathered, after))
    (hstep : ∀ s ∈ started step as w, ∀ b next, (step s.1).perform s.2 = (.ok b, next) →
      Yields target (again s.1) (seen b)) :
    Yields target (traverse again gather as) (gathered.map shown) := by
  induction as generalizing w gathered with
  | nil =>
    cases h
    exact .pure target []
  | cons a as ih =>
    obtain ⟨b, between, rest, hfirst, hrest, rfl⟩ := traverse_cons_eq_ok step gather h
    rw [started, hfirst] at hstep
    rw [← hgather, traverse]
    refine (hstep (a, w) List.mem_cons_self b between hfirst).bind (.bind ?_ (.pure target _))
    exact ih between rest hrest fun s hs => hstep s (List.mem_cons_of_mem _ hs)

end Traverse

section Filter

variable {keep : α → Action Bool} {w : Workspace}

theorem filterAuxM_of_ok {kept : α → Bool} (as found : List α)
    (h : ∀ a ∈ as, (keep a).perform w = (.ok (kept a), w)) :
    (as.filterAuxM keep found).perform w = (.ok ((as.filter kept).reverse ++ found), w) := by
  induction as generalizing found with
  | nil => rfl
  | cons a as ih =>
    have hrest := fun b hb => h b (List.mem_cons_of_mem a hb)
    rw [List.filterAuxM, perform_bind_of_ok _ (h a List.mem_cons_self), ih _ hrest,
      List.filter_cons]
    cases kept a with
    | false => rfl
    | true => rw [cond_true, if_pos rfl, List.reverse_cons, List.append_assoc,
        List.singleton_append]

theorem filterM_of_ok {kept : α → Bool} (as : List α)
    (h : ∀ a ∈ as, (keep a).perform w = (.ok (kept a), w)) :
    (as.filterM keep).perform w = (.ok (as.filter kept), w) := by
  rw [List.filterM, perform_bind_of_ok _ (filterAuxM_of_ok as [] h), List.append_nil,
    List.reverse_reverse]
  rfl

/-- A filter that succeeds asks for every element and keeps some. -/
theorem filterM_eq_ok (hkeep : ∀ a, Reads (keep a)) {as found : List α} {after : Workspace}
    (h : (as.filterM keep).perform w = (.ok found, after)) :
    ∃ kept : α → Bool, (∀ a ∈ as, (keep a).perform w = (.ok (kept a), w)) ∧
      found = as.filter kept := by
  have hasked : ∀ a ∈ as, ∃ b, (keep a).perform w = (.ok b, w) := by
    have h' := h
    rw [List.filterM, perform_bind_eq_ok_iff] at h'
    obtain ⟨rest, between, h', -⟩ := h'
    clear h
    generalize ([] : List α) = before at h'
    induction as generalizing before with
    | nil => exact fun a ha => nomatch ha
    | cons a as ih =>
      rw [List.filterAuxM] at h'
      obtain ⟨b, hb, h'⟩ := ((hkeep a).perform_bind_eq_ok_iff w between rest).mp h'
      rintro c (_ | ⟨_, hc⟩)
      · exact ⟨b, hb⟩
      · exact ih _ h' c hc
  let kept (a : α) : Bool := ((keep a).perform w).1.toOption.getD false
  have hkept : ∀ a ∈ as, (keep a).perform w = (.ok (kept a), w) := by
    intro a ha
    obtain ⟨b, hb⟩ := hasked a ha
    simp only [kept, hb, Except.toOption, Option.getD_some]
  refine ⟨kept, hkept, ?_⟩
  rw [filterM_of_ok as hkept] at h
  exact (Except.ok.inj (congrArg Prod.fst h)).symm

theorem reads_filterM (hkeep : ∀ a, Reads (keep a)) (as : List α) : Reads (as.filterM keep) := by
  have haux (found : List α) : Reads (as.filterAuxM keep found) := by
    induction as generalizing found with
    | nil => exact .pure _
    | cons a as ih => exact (hkeep a).bind fun kept => ih _
  exact (haux []).bind fun _ => .pure _

end Filter

end NativeGlue.Action
