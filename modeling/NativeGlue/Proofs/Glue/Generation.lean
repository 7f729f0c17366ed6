import NativeGlue.Failure
import NativeGlue.Proofs.Glue.Variables
import NativeGlue.Proofs.Source.Slices
import NativeGlue.Proofs.Source.Stacks

/-!
What can stop the making of a unit. A source file is read or has a problem, and a method has a
signature that fits it or has none; nothing else goes wrong. Reading links no method, so linking
meets none that is linked already. A method is linked to a signature with a type for each of its
parameters, and only parameters with a pointer are set up and given back.
-/

namespace NativeGlue

open Text

namespace Source

/-- No method is linked in a source file. -/
theorem unlinked_of_read (t : Text) (contents : Contents) (h : Source.read t = .ok contents) :
    ∀ s ∈ contents.segments, s.Unlinked := by
  obtain ⟨ls, last, -, hrun, rfl⟩ := (read_eq_ok_iff t contents).mp h
  have hlinked : last.segments.filterMap Segment.linked? = [] :=
    Scan.run_induction (P := fun s => s.segments.filterMap Segment.linked? = [])
      (fun _ _ _ _ hread hs => (Scan.read_fields hread).2.trans hs) hrun rfl
  rw [← last.finish_segments] at hlinked
  exact List.filterMap_eq_nil_iff.mp hlinked

end Source

/-- Linking fails at the first method without a signature that fits it. -/
theorem exists_of_link_eq_error (segments : List Segment) (signatures : List Signature)
    (fault : LinkFault) (hunlinked : ∀ s ∈ segments, s.Unlinked)
    (h : link segments signatures = .error fault) :
    ∃ before d after, segments = before ++ .declared d :: after ∧
      (∀ s ∈ before, ∃ t, s.link signatures = .ok t) ∧ d.signature? signatures = none ∧
      fault = .noSignature d signatures.length := by
  obtain ⟨before, s, after, rfl, hbefore, hs⟩ := exists_of_mapM_eq_error _ segments fault h
  cases s with
  | raw block => cases hs
  | linked m => cases hunlinked (.linked m) (by simp)
  | declared d =>
    refine ⟨before, d, after, rfl, hbefore, ?_⟩
    unfold Segment.link at hs
    cases hfound : d.signature? signatures with
    | some s => simp [hfound] at hs
    | none =>
      simp only [hfound, Except.error.injEq] at hs
      exact ⟨rfl, hs.symm⟩

namespace Linked

/-- No line of the method asks for something that is not there: there is a type for each
parameter, a set-up for each pointer and a clean-up for each that is given back. -/
structure Writable (m : Linked) : Prop where
  types : ∀ i (hi : i < m.declaration.parameters.length),
    i + 2 < m.signature.parameterTypes.length ∧
      ∃ text, m.handleParameter i m.declaration.parameters[i] = .ok text
  acquisitions : ∀ p ∈ m.declaration.acquired, ∃ text, p.acquisition = .ok text
  releases : ∀ p ∈ m.declaration.released, ∃ text, p.release = .ok text

theorem Balanced.writable {m : Linked} (h : m.Balanced) : m.Writable where
  types i hi := by
    have hbound : i + 2 < m.signature.parameterTypes.length := by
      rw [m.balanced_iff.mp h]
      omega
    refine ⟨hbound, ?_⟩
    simp only [handleParameter, List.getElem?_eq_getElem hbound]
    exact ⟨_, rfl⟩
  acquisitions p hp := p.exists_acquisition (m.declaration.isAcquired_of_mem_acquired p hp)
  releases p hp := p.exists_release (m.declaration.isReleased_of_mem_released p hp)

end Linked

/-- Linked segments are raw blocks and methods that can be written, so their unit is written. -/
theorem exists_unitText (segments linked : List Segment) (signatures : List Signature)
    (headerName : Text) (h : link segments signatures = .ok linked) :
    ∃ content, unitText linked headerName = .ok content := by
  have htexts : ∃ texts, linked.mapM Segment.text = .ok texts := by
    apply exists_mapM_eq_ok
    intro s hs
    cases s with
    | raw block => exact ⟨block.text, rfl⟩
    | declared d =>
      -- linking leaves no method without its signature
      obtain ⟨origin, -, hlink⟩ := exists_of_mem_mapM _ segments linked h _ hs
      cases (Segment.link_eq_ok_iff signatures origin _).mp hlink
    | linked m =>
      obtain ⟨inner, outer, hlines, -⟩ :=
        m.exists_lines (Linked.balanced_of_mem_link segments linked signatures h m hs)
      exact ⟨_, by simp only [Segment.text, Linked.text, hlines, bind, Except.bind]; rfl⟩
  obtain ⟨texts, htexts⟩ := htexts
  exact ⟨_, by simp only [unitText, htexts, bind, Except.bind]; rfl⟩

namespace GlueUnit

theorem generate_of_problem (source header headerName : Text) (problem : Source.Problem)
    (h : Source.read source = .error problem) :
    generate source header headerName = .error (.source problem) := by
  unfold generate
  rw [h]
  rfl

theorem generate_of_linkFault (source header headerName : Text) (contents : Source.Contents)
    (fault : LinkFault) (hread : Source.read source = .ok contents)
    (h : link contents.segments (Header.signatures header) = .error fault) :
    generate source header headerName = .error (.link fault) := by
  simp only [generate, hread, liftFault, Except.mapError, h, bind, Except.bind]

theorem generate_of_unitText (source header headerName content : Text)
    (contents : Source.Contents) (segments : List Segment)
    (hread : Source.read source = .ok contents)
    (hlink : link contents.segments (Header.signatures header) = .ok segments)
    (h : unitText segments headerName = .ok content) :
    generate source header headerName = .ok ⟨segments, content, contents.skipped⟩ := by
  simp only [generate, hread, liftFault, Except.mapError, hlink, h, bind, Except.bind]
  rfl

/-- Making a unit from any two texts. There is a unit, or the source file has a problem, or a
method of it has no signature in the header that fits it, and the failure is reported as such.
Meanwhile a closing brace never finds the one stack of scopes empty and the other not, and the
segments that linking gives can all be written. -/
theorem generate_outcomes (source header headerName : Text) (path : Option Text) :
    ((∃ unit, generate source header headerName = .ok unit ∧
        LinksFiles source header unit.segments) ∨
      (∃ problem, Source.read source = .error problem ∧
        (generate source header headerName).mapError (Failure.ofUnit path) =
          .error (.reported (.source path problem))) ∨
      ∃ contents d, Source.read source = .ok contents ∧ .declared d ∈ contents.segments ∧
        d.signature? (Header.signatures header) = none ∧
        (generate source header headerName).mapError (Failure.ofUnit path) =
          .error (.reported (.link path (.noSignature d (Header.signatures header).length)))) ∧
    (∀ ls, Source.TwoStacks.start.run ls =
        Source.Scan.liftStacks (Source.Scan.start.run ls) ∧
      Source.TwoStacks.start.run ls ≠ .error .nothingSuspended ∧
      ∀ s, Source.TwoStacks.start.run ls = .ok s →
        s.suspended.length = s.scan.scopes.length) ∧
    ∀ segments, LinksFiles source header segments →
      (∃ content, unitText segments headerName = .ok content) ∧
      ∀ m, .linked m ∈ segments → m.Writable := by
  refine ⟨?_, Source.TwoStacks.run_start, ?_⟩
  · cases hread : Source.read source with
    | error problem =>
      refine .inr (.inl ⟨problem, rfl, ?_⟩)
      rw [generate_of_problem source header headerName problem hread]
      rfl
    | ok contents =>
      cases hlink : link contents.segments (Header.signatures header) with
      | error fault =>
        obtain ⟨before, d, after, hsegments, -, hnone, rfl⟩ := exists_of_link_eq_error _ _ fault
          (Source.unlinked_of_read source contents hread) hlink
        refine .inr (.inr ⟨contents, d, rfl, by simp [hsegments], hnone, ?_⟩)
        rw [generate_of_linkFault source header headerName contents _ hread hlink]
        rfl
      | ok segments =>
        obtain ⟨content, hcontent⟩ := exists_unitText _ segments _ headerName hlink
        exact .inl ⟨_, generate_of_unitText source header headerName content contents segments
          hread hlink hcontent, contents, hread, hlink⟩
  · rintro segments ⟨contents, hread, hlink⟩
    refine ⟨exists_unitText _ segments _ headerName hlink, fun m hm => ?_⟩
    exact (Linked.balanced_of_mem_link _ segments _ hlink m hm).writable

/-- A method with a pointer that is given back, linked and written. -/
theorem staticMethod_generated :
    LinksFiles Linked.staticSource Linked.staticHeader [.linked Linked.staticMethod] ∧
      (∃ content, unitText [.linked Linked.staticMethod] "A.h".toList = .ok content) ∧
      Linked.staticMethod.Writable := by
  have hfiles := Linked.staticMethod_links
  obtain ⟨-, -, hwritten⟩ :=
    generate_outcomes Linked.staticSource Linked.staticHeader "A.h".toList none
  obtain ⟨hcontent, hwritable⟩ := hwritten _ hfiles
  exact ⟨hfiles, hcontent, hwritable Linked.staticMethod List.mem_cons_self⟩

end GlueUnit

end NativeGlue
