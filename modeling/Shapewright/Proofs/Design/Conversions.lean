import Shapewright.Design.Check
import Shapewright.Design.Code
import Shapewright.Proofs.Conversion.Faults

/-!
# Conversions of a design that was loaded

The checks that a design goes through when it is loaded leave one thing that can be wrong with its
conversions: the types of a request may not fit. Every reference leads to a structure, because the
values of every attribute were checked and a check of values asks for the kind of the attribute; and
every request names types and contexts that the design has.

## What the checks are for

The emitters look things up in every step, and each look-up could fail: a type may be unknown, a
chain of aliases come round, a context not be there. They do not explain such errors, since the
design is meant to be checked before. So this is a statement on two parts of the library at once. It
would fail if a check were left out, or if an emitter came to rely on more than is checked.

`Consistent` is the interface between the two: what the checks establish for conversions, and all
that the proof uses of them. The checks report the first thing that is wrong, one after another, so
what is taken from them is that they came to an end without any (`consistent_of_check`).

What a pattern is plays no part. Whether the text of a rule is a regular expression is asked of
`isPattern`, and the theorem holds for every answer.

A request need not come to an end. Two types may be out of step for ever, and no check looks for
that; so the theorem has it as a hypothesis (`Ends`), which `Conversion.Straight` decides.
-/

namespace Shapewright
namespace Design

variable {check : String → Attribute → Checked Unit} {location : String} {a : Attribute}
  {d : Design} {r : ConversionRequest} {isPattern : String → Bool}

/-! ## What a check of a design looks at -/

theorem check_of_everywhereIn : ∀ {fields : List (String × Attribute)},
    everywhereIn check location fields = .ok () →
      ∀ b ∈ fields.map Prod.snd, ∃ location, everywhere check location b = .ok () := by
  intro fields
  induction fields with
  | nil => simp
  | cons f rest ih =>
    intro h
    rw [everywhereIn, except_bind_eq_ok] at h
    obtain ⟨⟨⟩, hf, hrest⟩ := h
    exact List.forall_mem_cons.mpr ⟨⟨_, hf⟩, ih hrest⟩

/-- A check of an attribute is one of the attribute itself and of the attributes one level below.
    The location is carried along for messages only, so that of an attribute below is some other
    one. -/
theorem check_of_everywhere_below (h : everywhere check location a = .ok ()) :
    check location a = .ok () ∧
      ∀ b ∈ a.children, ∃ location, everywhere check location b = .ok () := by
  -- One case for each kind of type, as the walk has it: the attribute itself first, then its parts.
  obtain ⟨type, description, rules, overrides, default⟩ := a
  cases type with
  | primitive p | user id =>
    rw [everywhere] at h
    exact ⟨h, by simp [Attribute.children]⟩
  | array elem =>
    rw [everywhere] at h
    simp only [except_bind_eq_ok] at h
    obtain ⟨⟨⟩, hself, helem⟩ := h
    refine ⟨hself, fun b hb => ?_⟩
    obtain rfl : b = elem := by simpa [Attribute.children] using hb
    exact ⟨_, helem⟩
  | map key elem =>
    rw [everywhere] at h
    simp only [except_bind_eq_ok] at h
    obtain ⟨⟨⟩, hself, ⟨⟩, hkey, helem⟩ := h
    refine ⟨hself, fun b hb => ?_⟩
    obtain rfl | rfl : b = key ∨ b = elem := by simpa [Attribute.children] using hb
    · exact ⟨_, hkey⟩
    · exact ⟨_, helem⟩
  | object fields | union name fields =>
    rw [everywhere] at h
    simp only [except_bind_eq_ok] at h
    obtain ⟨⟨⟩, hself, hfields⟩ := h
    exact ⟨hself, check_of_everywhereIn hfields⟩

/-- A check of an attribute is one of every attribute written in it. Each was checked under some
    location, which only its message would show. -/
theorem check_of_everywhere (h : everywhere check location a = .ok ()) :
    ∀ x ∈ a.parts, ∃ location, check location x = .ok () := by
  induction hn : a.size using Nat.strongRecOn generalizing a location with
  | ind n ih =>
    obtain ⟨hself, hbelow⟩ := check_of_everywhere_below h
    intro x hx
    rcases Attribute.mem_parts_iff.mp hx with rfl | ⟨b, hb, hx⟩
    · exact ⟨location, hself⟩
    · obtain ⟨location, hb'⟩ := hbelow b hb
      exact ih _ (hn ▸ Attribute.size_lt_of_mem_children hb) hb' rfl x hx

/-- The values of an attribute can be checked only if there is a structure behind it. Loading
    therefore rules out names of no type and circles of aliases, at every attribute that is gone
    through. -/
theorem kind_of_checkValues {reg : Registry} (h : checkValues reg isPattern location a = .ok ()) :
    ∃ k, reg.kind a = .ok k := by
  unfold checkValues at h
  simp only [except_bind_eq_ok] at h
  obtain ⟨-, -, -, -, k, hk, -⟩ := h
  cases hkind : reg.kind a with
  | ok k => exact ⟨k, rfl⟩
  | error why =>
    rw [hkind] at hk
    cases hk

/-- A list of requests passes its checks if each of them does, under its own index. The index stands
    in the message of a request that fails, and nothing is to be known of it here. -/
theorem checkEach_eq_ok {α : Type} {check : Nat → α → Checked Unit} : ∀ {requests : List α}
    {index : Nat}, checkEach check index requests = .ok () →
      ∀ r ∈ requests, ∃ i, check i r = .ok () := by
  intro requests
  induction requests with
  | nil => simp
  | cons r rest ih =>
    intro index h
    rw [checkEach, except_bind_eq_ok] at h
    obtain ⟨⟨⟩, hr, hrest⟩ := h
    exact List.forall_mem_cons.mpr ⟨⟨_, hr⟩, ih hrest⟩

/-! ## What the checks establish -/

/-- A conversion names types and contexts of its design. Views and names of functions are none of
    its business here. -/
structure Names (d : Design) (r : ConversionRequest) : Prop where
  source : ∃ t, d.registry.find? r.source = some t
  target : ∃ t, d.registry.find? r.target = some t
  sourceContext : ∃ ctx, d.context? r.sourceContext = some ctx
  targetContext : ∃ ctx, d.context? r.targetContext = some ctx

theorem find?_of_checkKnown {id : TypeId} (h : d.checkKnown location id = .ok ()) :
    ∃ t, d.registry.find? id = some t := by
  unfold checkKnown at h
  split at h
  · exact Option.isSome_iff_exists.mp ‹_›
  · cases h

theorem context_of_checkContext {name : String} (h : d.checkContext location name = .ok ()) :
    ∃ ctx, d.context? name = some ctx := by
  unfold checkContext at h
  split at h
  · exact Option.isSome_iff_exists.mp ‹_›
  · cases h

theorem names_of_checkConversion {index : Nat} (h : d.checkConversion index r = .ok ()) :
    d.Names r := by
  unfold checkConversion at h
  simp only [except_bind_eq_ok] at h
  obtain ⟨⟨⟩, hs, ⟨⟩, ht, ⟨⟩, hsc, htc⟩ := h
  exact ⟨find?_of_checkKnown hs, find?_of_checkKnown ht, context_of_checkContext hsc,
    context_of_checkContext htc⟩

/-- What the checks of a design establish for its conversions: references lead to types, and each
    request names types and contexts that are there. -/
structure Consistent (d : Design) : Prop where
  sound : d.registry.Sound
  names : ∀ r ∈ d.conversions, d.Names r

/-- A check that passes says that references resolve everywhere, and that requests name what is
    there. -/
theorem consistent_of_check (h : d.check isPattern = .ok ()) : d.Consistent := by
  unfold check at h
  simp only [except_bind_eq_ok] at h
  obtain ⟨⟨⟩, -, ⟨⟩, hvalues, ⟨⟩, hconversions, -⟩ := h
  constructor
  · intro t ht x hx
    have hchecked := forM_eq_ok hvalues t ht
    rw [except_bind_eq_ok] at hchecked
    obtain ⟨⟨⟩, hdefinition, -⟩ := hchecked
    obtain ⟨location, hx⟩ := check_of_everywhere hdefinition x hx
    exact kind_of_checkValues hx
  · intro r hr
    obtain ⟨index, hr⟩ := checkEach_eq_ok hconversions r hr
    exact names_of_checkConversion hr

/-- A design that was loaded has passed its checks. -/
theorem check_of_load {doc : Document} (h : load doc isPattern = .ok d) :
    d.check isPattern = .ok () := by
  unfold load at h
  rw [except_bind_eq_ok] at h
  obtain ⟨d', -, h⟩ := h
  split at h
  · cases h
    assumption
  · cases h

theorem consistent_of_load {doc : Document} (h : load doc isPattern = .ok d) : d.Consistent :=
  consistent_of_check (check_of_load h)

/-! ## Conversions -/

/-- The conversion that a request asks for, under given contexts. Contexts are looked up by name
    before. -/
def conversion (d : Design) (r : ConversionRequest) (source target : Context) : Conversion :=
  { scope := d.scope, source, target, verb := r.verb, wire := r.wire }

/-- Building the function of the request comes to an end. This is about the types of the request and
    not about the checks. -/
def Ends (d : Design) (r : ConversionRequest) : Prop :=
  ∀ source target, d.context? r.sourceContext = some source →
    d.context? r.targetContext = some target →
    (conversionFunc (d.conversion r source target) r).Finishes

/-- In a sound registry, the function of a request between known types fails for a mismatch only.
    Its name and its signature are there in any case. -/
theorem conversionFunc_failsOnly {c : Conversion} {source target : UserType}
    (hc : c.scope = .ofRegistry c.registry) (hs : c.registry.Sound)
    (hsource : c.registry.find? r.source = some source)
    (htarget : c.registry.find? r.target = some target) :
    (conversionFunc c r).FailsOnly Fault.IsMismatch := by
  have hr : c.registry.ResolvesBoth (.user r.source, .user r.target) :=
    ⟨hs.resolves_user hsource, hs.resolves_user htarget⟩
  obtain ⟨hmem, hid⟩ := Registry.mem_types_of_find? hsource
  obtain ⟨hmem', hid'⟩ := Registry.mem_types_of_find? htarget
  -- A request names its function, or both of its types are asked for their names, and these are in
  -- the registry.
  have hname : ∃ name, functionName c r = .ok name := by
    obtain ⟨n, hn⟩ := Scope.exists_qualifiedName c.source hmem (a := .user r.source) (hid ▸ rfl)
    obtain ⟨m, hm⟩ := Scope.exists_qualifiedName c.target hmem' (a := .user r.target) (hid' ▸ rfl)
    unfold functionName
    cases r.name with
    | some name => exact ⟨name, rfl⟩
    | none => exact ⟨_, except_bind_eq_ok.mpr ⟨n, hc ▸ hn, except_bind_eq_ok.mpr ⟨m, hc ▸ hm, rfl⟩⟩⟩
  have hparam : ∃ type, c.sourceRef (.user r.source) = .ok type := by
    rw [Conversion.sourceRef, hc]
    exact Scope.exists_typeRef c.source hr.source
  have hresult : ∃ type, c.targetRef (.user r.target) = .ok type := by
    rw [Conversion.targetRef, hc]
    exact Scope.exists_typeRef c.target hr.target
  unfold conversionFunc
  refine Walk.failsOnly_bind.mpr ⟨Walk.failsOnly_of_ok hname, fun _ _ => ?_⟩
  refine Walk.failsOnly_bind.mpr ⟨Walk.failsOnly_of_ok hparam, fun _ _ => ?_⟩
  refine Walk.failsOnly_bind.mpr ⟨Walk.failsOnly_of_ok hresult, fun _ _ => ?_⟩
  refine Walk.failsOnly_bind.mpr ⟨?_, fun _ _ => Walk.failsOnly_pure⟩
  -- Only the code itself is left, and that fails for a mismatch alone.
  have hready : (Site.between (.user r.source) (.user r.target) "v" "res").Ready :=
    ⟨rfl, fun _ => ⟨"res", rfl⟩⟩
  have hfaults := Conversion.compile_failsOnly hc hs hready hr
  exact HelperWalk.FailsOnly.alone fun met f met' hf => (hfaults met f met' hf).mismatch

/-- A conversion of a design that was loaded is built, or fails because its types do not fit. In
    particular it never fails with an internal error. What the checks of a design are needed for is
    that its references lead to types; that no pair is compared on which an emitter would give up is
    a matter of the comparisons that come before. -/
theorem load_compileConversion (doc : Document) (d : Design) (h : load doc isPattern = .ok d)
    (r : ConversionRequest) (hr : r ∈ d.conversions) (hends : d.Ends r) :
    (∃ code, d.compileConversion r = .ok code) ∨
      ∃ f, d.compileConversion r = .error (.fault f) ∧ f.IsMismatch := by
  obtain ⟨hsound, hnames⟩ := consistent_of_load h
  obtain ⟨⟨_, hs⟩, ⟨_, ht⟩, ⟨source, hsource⟩, target, htarget⟩ := hnames r hr
  have hcompile : d.compileConversion r =
      (conversionFunc (d.conversion r source target) r).settle.mapError .fault := by
    unfold compileConversion requireContext
    rw [hsource, htarget]
    rfl
  have hfaults : (conversionFunc (d.conversion r source target) r).FailsOnly Fault.IsMismatch :=
    conversionFunc_failsOnly rfl hsound hs ht
  rw [hcompile]
  rcases hfaults.settle (hends source target hsource htarget) with ⟨code, hcode⟩ | ⟨f, hf, hm⟩
  · exact Or.inl ⟨code, by rw [hcode]; rfl⟩
  · exact Or.inr ⟨f, by rw [hf]; rfl, hm⟩

def countRequest : ConversionRequest := { source := "Count", target := "Label" }

/-- Two types with a field of one name and of two kinds, and the request to convert the one into the
    other. -/
def countDocument : Document where
  types := [
    { id := "Count", name := "Count",
      definition := { type := .object [("value", { type := .primitive .int })] } },
    { id := "Label", name := "Label",
      definition := { type := .object [("value", { type := .primitive .string })] } }]
  conversions := [countRequest]

/-- A request for two types that do not fit is one that this applies to: it fails with a
    mismatch. -/
theorem load_compileConversion_count : ∃ d, load countDocument = .ok d ∧
    countRequest ∈ d.conversions ∧ d.Ends countRequest ∧
    ((∃ code, d.compileConversion countRequest = .ok code) ∨
      ∃ f, d.compileConversion countRequest = .error (.fault f) ∧ f.IsMismatch) := by
  obtain ⟨d, h⟩ : ∃ d, load countDocument = .ok d := ⟨_, rfl⟩
  have hr : countRequest ∈ d.conversions := by
    cases h
    exact List.mem_singleton_self _
  have hends : d.Ends countRequest := by
    cases h
    rintro _ _ ⟨⟩ ⟨⟩
    exact ⟨_, rfl⟩
  exact ⟨d, h, hr, hends, load_compileConversion countDocument d h countRequest hr hends⟩

end Design
end Shapewright
