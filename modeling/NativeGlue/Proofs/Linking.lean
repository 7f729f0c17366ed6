import Mathlib.Data.List.Nodup
import NativeGlue.Linking
import NativeGlue.Proofs.Text.Occurrence
import NativeGlue.Proofs.Traversal
import NativeGlue.Source.Scan

/-!
Linking against a header that holds one signature for each method, in any order. Each method
gets the first signature that fits it. The symbol of one method may occur in the name of another,
so the first that fits is the method's own just when no signature before its own fits as well.
-/

namespace NativeGlue

open Text

theorem Signature.fits_iff (s : Signature) (d : Declaration) :
    s.fits d = true ↔ d.symbol <:+: s.head ∧
      s.parameterTypes.length = d.parameters.length + 2 := by
  rw [fits, Bool.and_eq_true, occursIn_iff, beq_iff_eq, ownParameterCount]
  constructor
  · rintro ⟨hsymbol, hcount⟩
    exact ⟨hsymbol, by omega⟩
  · rintro ⟨hsymbol, hcount⟩
    exact ⟨hsymbol, by omega⟩

/-- What linking makes of a segment: a method gets the first signature that fits. -/
inductive Segment.LinksTo (signatures : List Signature) : Segment → Segment → Prop
  | raw (block : RawBlock) : LinksTo signatures (.raw block) (.raw block)
  | first (d : Declaration) (before after : List Signature) (s : Signature)
      (hsplit : signatures = before ++ s :: after) (hfits : s.fits d = true)
      (hbefore : ∀ x ∈ before, x.fits d = false) :
      LinksTo signatures (.declared d) (.linked ⟨d, s⟩)

theorem Declaration.signature?_eq_some_iff (d : Declaration) (signatures : List Signature)
    (s : Signature) : d.signature? signatures = some s ↔
      s.fits d = true ∧ ∃ before after, signatures = before ++ s :: after ∧
        ∀ x ∈ before, x.fits d = false := by
  rw [signature?, List.find?_eq_some_iff_append]
  simp only [Bool.not_eq_true']

theorem Segment.link_eq_ok_iff (signatures : List Signature) (s t : Segment) :
    s.link signatures = .ok t ↔ s.LinksTo signatures t := by
  constructor
  · intro h
    cases s with
    | raw block =>
      cases h
      exact .raw block
    | linked m => cases h
    | declared d =>
      unfold link at h
      cases hfound : d.signature? signatures with
      | none => simp [hfound] at h
      | some found =>
        obtain ⟨hfits, before, after, hsplit, hbefore⟩ :=
          (d.signature?_eq_some_iff signatures found).mp hfound
        simp only [hfound, Except.ok.injEq] at h
        exact h ▸ .first d before after found hsplit hfits hbefore
  · intro h
    cases h with
    | raw block => rfl
    | first d before after found hsplit hfits hbefore =>
      have hfound := (d.signature?_eq_some_iff signatures found).mpr
        ⟨hfits, before, after, hsplit, hbefore⟩
      simp only [link, hfound]

theorem link_eq_ok_iff (segments linked : List Segment) (signatures : List Signature) :
    link segments signatures = .ok linked ↔
      List.Forall₂ (Segment.LinksTo signatures) segments linked := by
  rw [link, mapM_eq_ok_iff]
  simp only [Segment.link_eq_ok_iff]

/-- What is linked was declared, and its signature is one of those given that fit it. -/
theorem exists_of_mem_link (segments linked : List Segment) (signatures : List Signature)
    (h : link segments signatures = .ok linked) (m : Linked) (hm : .linked m ∈ linked) :
    .declared m.declaration ∈ segments ∧ m.signature ∈ signatures ∧
      m.signature.fits m.declaration = true := by
  obtain ⟨s, hs, hlink⟩ := exists_of_mem_mapM _ segments linked h _ hm
  cases (Segment.link_eq_ok_iff signatures s _).mp hlink with
  | first d before after found hsplit hfits _ =>
    refine ⟨hs, ?_, hfits⟩
    rw [hsplit]
    exact List.mem_append_right before List.mem_cons_self

/-- A source file, linked against a header, gives these segments. -/
def LinksFiles (source header : Text) (segments : List Segment) : Prop :=
  ∃ contents, Source.read source = .ok contents ∧
    link contents.segments (Header.signatures header) = .ok segments

/-- The signature that a header gives to a method of a package. The name of an overloaded
method goes on after two underscores. -/
structure Signature.Denotes (package : Text) (s : Signature) (d : Declaration) : Prop where
  name_eq : ∃ overload, (overload = [] ∨ "__".toList <+: overload) ∧
    s.name = "Java_".toList ++ mangle package ++ '_' :: d.symbol ++ overload
  head_eq : ∃ returnType,
    s.head = Header.exportMacro ++ ' ' :: returnType ++ ' ' :: Header.callMacro ++ ' ' :: s.name
  count_eq : s.parameterTypes.length = d.parameters.length + 2

theorem Signature.Denotes.fits {package : Text} {s : Signature} {d : Declaration}
    (h : s.Denotes package d) : s.fits d = true := by
  obtain ⟨overload, -, hname⟩ := h.name_eq
  obtain ⟨returnType, hhead⟩ := h.head_eq
  refine (s.fits_iff d).mpr ⟨?_, h.count_eq⟩
  refine ⟨Header.exportMacro ++ ' ' :: returnType ++ ' ' :: Header.callMacro ++
    ' ' :: ("Java_".toList ++ mangle package ++ ['_']), overload, ?_⟩
  rw [hhead, hname]
  simp only [List.append_assoc, List.cons_append, List.nil_append]

namespace Segment

/-- A method with its own signature. -/
def linkedBy (own : Declaration → Signature) : Segment → Segment
  | declared d => linked ⟨d, own d⟩
  | s => s

/-- As segments are read: no method is linked yet. -/
def Unlinked (s : Segment) : Prop := s.linked? = none

end Segment

/-- The same method, as far as its number of parameters tells overloads apart. -/
def Declaration.SameMethod (d e : Declaration) : Prop :=
  d.className = e.className ∧ d.methodName = e.methodName ∧
    d.parameters.length = e.parameters.length

section Header

variable (package : Text) (own : Declaration → Signature) (segments : List Segment)
  (order : List Declaration)

/-- Where a signature of each method is in the header, every method is linked. -/
theorem exists_link (hunlinked : ∀ s ∈ segments, s.Unlinked)
    (horder : order.Perm (segments.filterMap Segment.declaration?))
    (hown : ∀ d ∈ order, (own d).Denotes package d) :
    ∃ linked, link segments (order.map own) = .ok linked := by
  apply exists_mapM_eq_ok
  intro s hs
  cases s with
  | raw block => exact ⟨_, rfl⟩
  | linked m => exact absurd (hunlinked _ hs) (by simp [Segment.Unlinked, Segment.linked?])
  | declared d =>
    have hd : d ∈ order := horder.mem_iff.mpr (List.mem_filterMap.mpr ⟨_, hs, rfl⟩)
    have hsome : (d.signature? (order.map own)).isSome = true := by
      rw [Declaration.signature?, List.find?_isSome]
      exact ⟨own d, List.mem_map_of_mem hd, (hown d hd).fits⟩
    obtain ⟨s, hfound⟩ := Option.isSome_iff_exists.mp hsome
    exact ⟨.linked ⟨d, s⟩, by simp only [Segment.link, hfound]⟩

theorem links_own_of_pairwise (hunlinked : ∀ s ∈ segments, s.Unlinked)
    (horder : order.Perm (segments.filterMap Segment.declaration?))
    (hown : ∀ d ∈ order, (own d).Denotes package d)
    (hpairwise : order.Pairwise fun d e => (own d).fits e = false) :
    link segments (order.map own) = .ok (segments.map (Segment.linkedBy own)) := by
  rw [link_eq_ok_iff, List.forall₂_map_right_iff, List.forall₂_same]
  intro s hs
  cases s with
  | raw block => exact .raw block
  | linked m => exact absurd (hunlinked _ hs) (by simp [Segment.Unlinked, Segment.linked?])
  | declared d =>
    have hd : d ∈ order := horder.mem_iff.mpr (List.mem_filterMap.mpr ⟨_, hs, rfl⟩)
    obtain ⟨before, after, rfl⟩ := List.append_of_mem hd
    refine .first d (before.map own) (after.map own) (own d) (by simp) (hown d hd).fits ?_
    intro x hx
    obtain ⟨e, he, rfl⟩ := List.mem_map.mp hx
    exact (List.pairwise_append.mp hpairwise).2.2 e he d List.mem_cons_self

/-- A method linked with its own signature has no other that fits before it. -/
theorem pairwise_of_links_own (horder : order.Perm (segments.filterMap Segment.declaration?))
    (hnodup : order.Nodup) (hinjective : ∀ d ∈ order, ∀ e ∈ order, own d = own e → d = e)
    (hlink : link segments (order.map own) = .ok (segments.map (Segment.linkedBy own))) :
    order.Pairwise fun d e => (own d).fits e = false := by
  rw [link_eq_ok_iff, List.forall₂_map_right_iff, List.forall₂_same] at hlink
  rw [List.pairwise_iff_getElem]
  intro i j hi hj hij
  have hmem : order[j] ∈ order := List.getElem_mem hj
  obtain ⟨s, hs, hdeclared⟩ := List.mem_filterMap.mp (horder.mem_iff.mp hmem)
  have hsegment : s = .declared order[j] := by
    cases s with
    | raw block => cases hdeclared
    | declared d => exact congrArg Segment.declared (Option.some.inj hdeclared)
    | linked m => cases hlink _ hs
  have hfirst := hlink s hs
  rw [hsegment] at hfirst
  cases hfirst with
  | first _ before after _ hsplit hfits hbefore =>
    -- the first signature that fits stands where the method's own does
    have hlength : before.length < order.length := by
      have hcount := congrArg List.length hsplit
      simp only [List.length_map, List.length_append, List.length_cons] at hcount
      omega
    have hplace : own order[before.length] = own order[j] := by
      have hget := congrArg (fun l => l[before.length]?) hsplit
      simpa [List.getElem?_eq_getElem hlength] using hget
    have hsame := hinjective _ (List.getElem_mem hlength) _ hmem hplace
    have hindex : before.length = j := (hnodup.getElem_inj_iff).mp hsame
    apply hbefore
    have hlt : i < before.length := by omega
    have hget := congrArg (fun l => l[i]?) hsplit
    simp only [List.getElem?_map, List.getElem?_eq_getElem hi, Option.map_some,
      List.getElem?_append_left hlt, List.getElem?_eq_getElem hlt] at hget
    exact Option.some.inj hget ▸ List.getElem_mem hlt

/-- Linking against a header with one signature for each method, in some order. Every segment is
linked, and each method gets its own signature, no two the same, exactly when no signature fits
a method whose own comes later. -/
theorem links_own_iff (hunlinked : ∀ s ∈ segments, s.Unlinked)
    (hdistinct : (segments.filterMap Segment.declaration?).Pairwise fun d e => ¬ d.SameMethod e)
    (horder : order.Perm (segments.filterMap Segment.declaration?))
    (hown : ∀ d ∈ order, (own d).Denotes package d) :
    (∃ linked, link segments (order.map own) = .ok linked ∧
      List.Forall₂ (Segment.LinksTo (order.map own)) segments linked) ∧
    ((link segments (order.map own) = .ok (segments.map (Segment.linkedBy own)) ∧
        ∀ d ∈ order, ∀ e ∈ order, own d = own e → d = e) ↔
      order.Pairwise fun d e => ¬ (e.symbol <:+: (own d).head ∧
        e.parameters.length = d.parameters.length)) := by
  have hfits : ∀ d ∈ order, ∀ e ∈ order, (own d).fits e = false ↔
      ¬ (e.symbol <:+: (own d).head ∧ e.parameters.length = d.parameters.length) := by
    intro d hd e he
    have hcount := (hown d hd).count_eq
    rw [← Bool.not_eq_true, (own d).fits_iff e, hcount]
    constructor <;> rintro hnot ⟨hsymbol, hlength⟩ <;> exact hnot ⟨hsymbol, by omega⟩
  have hnodup : order.Nodup := by
    refine horder.nodup_iff.mpr (hdistinct.imp ?_)
    rintro d e hnot rfl
    exact hnot ⟨rfl, rfl, rfl⟩
  constructor
  · obtain ⟨linked, hlink⟩ := exists_link package own segments order hunlinked horder hown
    exact ⟨linked, hlink, (link_eq_ok_iff segments linked _).mp hlink⟩
  constructor
  · rintro ⟨hlink, hinjective⟩
    have hpairwise := pairwise_of_links_own own segments order horder hnodup hinjective hlink
    refine hpairwise.imp_of_mem ?_
    intro d e hd he hfalse
    exact (hfits d hd e he).mp hfalse
  · intro hpairwise
    have hfalse : order.Pairwise fun d e => (own d).fits e = false :=
      hpairwise.imp_of_mem fun hd he hnot => (hfits _ hd _ he).mpr hnot
    have hnodupMap : (order.map own).Nodup := by
      refine List.pairwise_map.mpr (hfalse.imp_of_mem ?_)
      intro d e hd he hunfit heq
      rw [heq, (hown e he).fits] at hunfit
      cases hunfit
    exact ⟨links_own_of_pairwise package own segments order hunlinked horder hown hfalse,
      fun d hd e he heq => List.inj_on_of_nodup_map hnodupMap hd he heq⟩

end Header

/-- The signature of a method of whole numbers in the header of a package. -/
def Declaration.prototype (package : Text) (d : Declaration) : Signature :=
  let name := "Java_".toList ++ mangle package ++ '_' :: d.symbol
  { head := Header.exportMacro ++ ' ' :: "jint".toList ++ ' ' :: Header.callMacro ++ ' ' :: name
    name := name
    parameterTypes :=
      "JNIEnv*".toList :: "jobject".toList :: d.parameters.map fun _ => "jint".toList
    returnType := "jint".toList
    line := 1 }

theorem Declaration.prototype_denotes (package : Text) (d : Declaration) :
    (d.prototype package).Denotes package d where
  name_eq := ⟨[], .inl rfl, by simp [prototype]⟩
  head_eq := ⟨"jint".toList, rfl⟩
  count_eq := by simp [prototype]

/-- Two methods, the name of one of which begins the name of the other. -/
def prefixSource : Text :=
  "class Foo \x7b\nnative int get(int a); /*1*/\nnative int getAll(int a); /*2*/\n\x7d".toList

def getMethod : Declaration :=
  ⟨"Foo".toList, "get".toList, false, [⟨"a".toList, ⟨"int".toList, .plain .int⟩⟩], ['1'], 2, 2, 2⟩

def getAllMethod : Declaration :=
  ⟨"Foo".toList, "getAll".toList, false, [⟨"a".toList, ⟨"int".toList, .plain .int⟩⟩], ['2'],
    3, 3, 3⟩

/-- In a header with the shorter name first both methods get their own functions. -/
theorem links_own_of_shorter_first :
    [getMethod, getAllMethod].Pairwise (fun d e => ¬ d.SameMethod e) ∧
    (∀ d ∈ [getMethod, getAllMethod], (d.prototype ['p']).Denotes ['p'] d) ∧
    link [.declared getMethod, .declared getAllMethod]
        ([getMethod, getAllMethod].map (Declaration.prototype ['p'])) =
      .ok [.linked ⟨getMethod, getMethod.prototype ['p']⟩,
        .linked ⟨getAllMethod, getAllMethod.prototype ['p']⟩] := by
  have hdistinct : [getMethod, getAllMethod].Pairwise fun d e => ¬ d.SameMethod e := by
    unfold Declaration.SameMethod
    decide
  have hown : ∀ d ∈ [getMethod, getAllMethod], (d.prototype ['p']).Denotes ['p'] d :=
    fun d _ => d.prototype_denotes ['p']
  have hiff := (links_own_iff ['p'] (Declaration.prototype ['p'])
    [.declared getMethod, .declared getAllMethod] [getMethod, getAllMethod]
    (by simp [Segment.Unlinked, Segment.linked?]) hdistinct (List.Perm.refl _) hown).2
  exact ⟨hdistinct, hown, (hiff.mpr (by decide +kernel)).1⟩

/-- A header with the longer name first gives both methods the same function, though it holds
the signature of each. -/
theorem link_takes_longer_name :
    ∃ contents, Source.read prefixSource = .ok contents ∧
      contents.segments = [.declared getMethod, .declared getAllMethod] ∧
      (∀ d ∈ contents.declarations, (d.prototype ['p']).Denotes ['p'] d) ∧
      ¬ getMethod.SameMethod getAllMethod ∧
      link contents.segments ([getAllMethod, getMethod].map (Declaration.prototype ['p'])) =
        .ok [.linked ⟨getMethod, getAllMethod.prototype ['p']⟩,
          .linked ⟨getAllMethod, getAllMethod.prototype ['p']⟩] ∧
      getAllMethod.prototype ['p'] ≠ getMethod.prototype ['p'] := by
  refine ⟨⟨[.declared getMethod, .declared getAllMethod], []⟩, ?_, rfl, ?_, ?_, ?_, ?_⟩
  · exact eq_ok_of_toOption (by decide +kernel)
  · intro d hd
    exact d.prototype_denotes ['p']
  · rintro ⟨-, hname, -⟩
    exact absurd hname (by decide)
  · rfl
  · decide

end NativeGlue
