import NativeGlue.Proofs.Glue.Generation

/-!
What linking gives. A signature suits a method if the method's symbol occurs in its head and it
takes two values more than the method. Linking succeeds just when every method has a signature
that suits it, and otherwise names the first method that has none. A header that grows at its end
changes no link, since each method keeps the earliest signature that suits it.
-/

namespace NativeGlue

open Text

/-- The signature may be that of the method, as far as a symbol and a number of parameters
tell. -/
def Signature.Suits (s : Signature) (d : Declaration) : Prop :=
  d.symbol <:+: s.head ∧ s.parameterTypes.length = d.parameters.length + 2

/-- Of the signatures in a header, the first that suits the method. -/
def Signature.IsFirstFor (s : Signature) (d : Declaration) (signatures : List Signature) : Prop :=
  ∃ before after, signatures = before ++ s :: after ∧ s.Suits d ∧ ∀ x ∈ before, ¬ x.Suits d

namespace Segment

/-- The segment as it was before linking. -/
def unlink : Segment → Segment
  | linked m => declared m.declaration
  | s => s

/-- A segment and what linking makes of it: a raw block is as it was, and a method has the first
signature that suits it. -/
structure GetsFirst (signatures : List Signature) (s t : Segment) : Prop where
  unlink_eq : t.unlink = s
  raw_eq : ∀ block, s = .raw block → t = .raw block
  linked_eq : ∀ d, s = .declared d → ∃ x, t = .linked ⟨d, x⟩ ∧ x.IsFirstFor d signatures

end Segment

theorem Signature.not_suits_iff (s : Signature) (d : Declaration) :
    ¬ s.Suits d ↔ s.fits d = false := by
  rw [← Bool.not_eq_true, s.fits_iff d, Suits]

namespace Declaration

variable (d : Declaration) (signatures : List Signature)

theorem signature?_eq_none_iff :
    d.signature? signatures = none ↔ ∀ s ∈ signatures, ¬ s.Suits d := by
  rw [signature?, List.find?_eq_none]
  simp only [Signature.not_suits_iff, Bool.not_eq_true]

/-- Signatures at the end of a header are not reached. -/
theorem signature?_append (more : List Signature) (s : Signature)
    (h : d.signature? signatures = some s) : d.signature? (signatures ++ more) = some s := by
  unfold signature? at h ⊢
  rw [List.find?_append, h, Option.some_or]

end Declaration

namespace Segment

variable (signatures : List Signature)

theorem link_declared_eq_ok_iff (d : Declaration) (t : Segment) :
    (declared d).link signatures = .ok t ↔
      ∃ s, d.signature? signatures = some s ∧ t = .linked ⟨d, s⟩ := by
  simp only [link]
  cases d.signature? signatures <;> simp [eq_comm]

theorem LinksTo.getsFirst {signatures : List Signature} {s t : Segment}
    (h : s.LinksTo signatures t) : s.GetsFirst signatures t := by
  cases h with
  | raw block => exact ⟨rfl, fun _ heq => heq, nofun⟩
  | first d before after found hsplit hfits hbefore =>
    refine ⟨rfl, nofun, ?_⟩
    rintro _ ⟨⟩
    refine ⟨found, rfl, before, after, hsplit, (found.fits_iff d).mp hfits, ?_⟩
    exact fun x hx => (x.not_suits_iff d).mpr (hbefore x hx)

theorem link_append (more : List Signature) (s t : Segment) (h : s.link signatures = .ok t) :
    s.link (signatures ++ more) = .ok t := by
  cases s with
  | raw block => exact h
  | linked m => cases h
  | declared d =>
    obtain ⟨found, hfound, ht⟩ := (link_declared_eq_ok_iff signatures d t).mp h
    exact (link_declared_eq_ok_iff _ d t).mpr
      ⟨found, d.signature?_append signatures more found hfound, ht⟩

theorem exists_link_iff (s : Segment) (h : s.Unlinked) :
    (∃ t, s.link signatures = .ok t) ↔
      ∀ d, s = .declared d → ∃ x ∈ signatures, x.Suits d := by
  cases s with
  | raw block => exact ⟨nofun, fun _ => ⟨.raw block, rfl⟩⟩
  | linked m => cases h
  | declared d =>
    have hfound : (∃ x ∈ signatures, x.Suits d) ↔ d.signature? signatures ≠ none := by
      rw [ne_eq, d.signature?_eq_none_iff signatures]
      push Not
      rfl
    simp only [link_declared_eq_ok_iff, declared.injEq, forall_eq']
    rw [hfound, Option.ne_none_iff_exists']
    exact ⟨fun ⟨_, x, hx, _⟩ => ⟨x, hx⟩, fun ⟨x, hx⟩ => ⟨_, x, hx, rfl⟩⟩

end Segment

section Outcomes

variable (segments : List Segment) (signatures : List Signature)

theorem link_append (linked : List Segment) (more : List Signature)
    (h : link segments signatures = .ok linked) :
    link segments (signatures ++ more) = .ok linked := by
  rw [link, mapM_eq_ok_iff] at h ⊢
  exact h.imp fun s t => s.link_append signatures more t

theorem exists_link_iff (hunlinked : ∀ s ∈ segments, s.Unlinked) :
    (∃ linked, link segments signatures = .ok linked) ↔
      ∀ d, .declared d ∈ segments → ∃ x ∈ signatures, x.Suits d := by
  have heach : (∀ d, .declared d ∈ segments → ∃ x ∈ signatures, x.Suits d) ↔
      ∀ s ∈ segments, ∃ t, s.link signatures = .ok t := by
    constructor
    · intro h s hs
      refine (s.exists_link_iff signatures (hunlinked s hs)).mpr ?_
      rintro d rfl
      exact h d hs
    · intro h d hd
      exact ((Segment.declared d).exists_link_iff signatures (hunlinked _ hd)).mp (h _ hd) d rfl
  rw [heach]
  constructor
  · rintro ⟨linked, h⟩ s hs
    obtain ⟨t, -, ht⟩ := exists_of_forall₂ ((mapM_eq_ok_iff _ _ _).mp h).flip hs
    exact ⟨t, ht⟩
  · exact exists_mapM_eq_ok _ segments

/-- Linking any segments against any header. It succeeds exactly when some signature suits each
method. Then the segments stand as they did, but that each method has the first signature that
suits it, and they still would with more signatures behind the others. Otherwise the fault is that
of the first method that none suits, at its line. -/
theorem link_outcomes (hunlinked : ∀ s ∈ segments, s.Unlinked) :
    ((∃ linked, link segments signatures = .ok linked) ↔
      ∀ d, .declared d ∈ segments → ∃ s ∈ signatures, s.Suits d) ∧
    (∀ linked, link segments signatures = .ok linked →
      List.Forall₂ (Segment.GetsFirst signatures) segments linked ∧
      linked.map Segment.unlink = segments ∧
      ∀ more, link segments (signatures ++ more) = .ok linked) ∧
    ∀ fault, link segments signatures = .error fault →
      ∃ before d after, segments = before ++ .declared d :: after ∧
        (∀ e, .declared e ∈ before → ∃ s ∈ signatures, s.Suits e) ∧
        (∀ s ∈ signatures, ¬ s.Suits d) ∧ fault = .noSignature d signatures.length ∧
        ∃ text, ∀ path, fault.message path = Place.say ⟨path, some d.signatureLine⟩ text := by
  refine ⟨exists_link_iff segments signatures hunlinked, ?_, ?_⟩
  · intro linked h
    have hfirst : List.Forall₂ (Segment.GetsFirst signatures) segments linked :=
      ((link_eq_ok_iff segments linked signatures).mp h).imp fun s t => Segment.LinksTo.getsFirst
    refine ⟨hfirst, ?_, fun more => link_append segments signatures linked more h⟩
    have hsame : List.Forall₂ (fun s t : Segment => t.unlink = s) segments linked :=
      hfirst.imp fun s t hst => hst.unlink_eq
    rw [← List.forall₂_eq_eq_eq, List.forall₂_map_left_iff]
    exact hsame.flip
  · intro fault h
    obtain ⟨before, d, after, rfl, hbefore, hnone, rfl⟩ :=
      exists_of_link_eq_error segments signatures fault hunlinked h
    refine ⟨before, d, after, rfl, ?_, (d.signature?_eq_none_iff signatures).mp hnone, rfl,
      _, fun path => rfl⟩
    intro e he
    have hunlinkedBefore := hunlinked _ (List.mem_append_left _ he)
    exact ((Segment.declared e).exists_link_iff signatures hunlinkedBefore).mp (hbefore _ he) e rfl

end Outcomes

/-- A raw block and two methods, the name of one of which begins the name of the other. -/
def prefixSegments : List Segment :=
  [.raw ⟨['x'], 1⟩, .declared getMethod, .declared getAllMethod]

/-- In a header with the signature of the shorter name alone the other method is not found; behind
the signatures of both nothing else matters. -/
theorem prefixSegments_outcomes :
    (∀ s ∈ prefixSegments, s.Unlinked) ∧
    (¬ ∃ linked, link prefixSegments [getMethod.prototype ['p']] = .ok linked) ∧
    ∀ more, link prefixSegments
        ([getMethod.prototype ['p'], getAllMethod.prototype ['p']] ++ more) =
      .ok [.raw ⟨['x'], 1⟩, .linked ⟨getMethod, getMethod.prototype ['p']⟩,
        .linked ⟨getAllMethod, getAllMethod.prototype ['p']⟩] := by
  have hunlinked : ∀ s ∈ prefixSegments, s.Unlinked := by
    simp [prefixSegments, Segment.Unlinked, Segment.linked?]
  have hunsuited : ¬ (getMethod.prototype ['p']).Suits getAllMethod := by
    unfold Signature.Suits
    decide +kernel
  refine ⟨hunlinked, ?_, fun more => ?_⟩
  · intro hlink
    obtain ⟨s, hs, hsuits⟩ := (link_outcomes prefixSegments _ hunlinked).1.mp hlink getAllMethod
      (by simp [prefixSegments])
    rw [List.mem_singleton.mp hs] at hsuits
    exact hunsuited hsuits
  · exact ((link_outcomes prefixSegments _ hunlinked).2.1 _ rfl).2.2 more

end NativeGlue
