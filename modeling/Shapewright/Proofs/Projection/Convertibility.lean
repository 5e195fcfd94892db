import Shapewright.Proofs.Projection.Package

/-!
# Projections convert both ways

Whatever is derived converts from the types that it shows and back, under any contexts: the types
always fit. A derivation looks at all references but those that stay as they are, in the keys of
maps and in the alternatives of unions. Where one of these leads to no type, the derivation does not
notice and the conversions fail for this reason; where none does, they succeed.

## What the derivation proves

That the types fit needs no assumption about the registry beyond the two that can be read off it
(`Registry.Tidy`, `Separable`): a derivation that succeeded has followed the references that the
projection replaces, so each of them leads somewhere. It leaves others alone. `Converts` says that
those are the only reason for a conversion to fail, and the last part of `derived_converts` that
there are none where all references of the registry lead to structures.

Whether the conversion ends is left open in `Converts`, since the contexts are arbitrary and the
search for code is that of any other conversion.
-/

namespace Shapewright

open Projection.ViewedType (projectedId)

namespace Projection

/-- The conversion of the pair never fails because the attributes do not fit. It fails only at a
    reference that can be met from them and leads to no structure, and succeeds where there is
    none. -/
structure Converts (reg : Registry) (p : Pair) (w : Walk Conversion.Compiled) : Prop where
  fails : w.FailsOnly fun f => ¬ f.IsMismatch ∧ reg.LostBoth p f
  yields : (∀ f, ¬ reg.LostBoth p f) → w.Finishes → ∃ code, w.Yields code

variable {reg : Registry} {derived : Derived} {k : ViewedType} {p : Pair}
  {w : Walk Conversion.Compiled} {f : Fault}

/-- A lost reference is no mismatch, so it is enough to know that nothing else goes wrong. -/
theorem converts_of_failsOnly (h : w.FailsOnly (reg.LostBoth p)) : Converts reg p w where
  fails := h.mono fun _ hf => ⟨hf.elim (·.not_mismatch) (·.not_mismatch), hf⟩
  yields := by
    intro hno hfinishes
    rcases Walk.finishes_iff.mp hfinishes with ⟨f, hf⟩ | hyields
    · exact absurd (h f hf) (hno f)
    · exact hyields

/-- Where all references lead to structures, none is lost between a type and its projection. -/
theorem not_lostBoth_projected (hs : reg.Sound) (hx : Extends reg derived) (hk : derived.Has k) :
    ¬ derived.registry.LostBoth (.user k.type, .user (projectedId k)) f := by
  have hsound := extends_sound hx hs
  obtain ⟨kind, hfull, hshown⟩ := (faces_projected hx hk).kind
  intro hlost
  rcases hlost with hlost | hlost
  · exact hsound.not_lost (Registry.resolves_of_userId? rfl hfull) hlost
  · exact hsound.not_lost (Registry.resolves_of_userId? rfl hshown) hlost

/-- A type and its projection convert both ways, for every type and view that the derivation leads
    to: the request ends, and no comparison on its way fails. If references resolve in the registry
    that was projected, none is lost in the larger one either. -/
theorem derived_converts (reg : Registry) (htidy : reg.Tidy) (hsep : Separable reg) (id : TypeId)
    (views : List String) (derived : Derived) (h : (derive reg id views).Yields derived)
    (options : ProjectionOptions) (source target : Context) (value place : String) :
    (∀ e ∈ derived.ids,
      Converts derived.registry (.user e.1.type, .user e.2)
        ((derived.projector options).convert source target e.1.type e.2 value place) ∧
      Converts derived.registry (.user e.1.type, .user e.2)
        ((derived.projector options).convert source target e.2 e.1.type value place)) ∧
    (reg.Sound → ∀ e ∈ derived.ids, ∀ f,
      ¬ derived.registry.LostBoth (.user e.1.type, .user e.2) f) := by
  obtain ⟨hx, -⟩ := extends_of_derive hsep h
  refine ⟨fun e he => ?_, fun hs e he f => ?_⟩
  · obtain ⟨hto, hfrom⟩ := conversions_lost (p := derived.projector options) rfl hx htidy
      (List.mem_map_of_mem he) source target value place
    rw [hx.ids e he]
    exact ⟨converts_of_failsOnly hto, converts_of_failsOnly (hfrom.mono fun _ hf => hf.symm)⟩
  · rw [hx.ids e he]
    exact not_lostBoth_projected hs hx (List.mem_map_of_mem he)

/-- Shops that are shown with their branches, and branches with the shop. -/
def shops : Registry where
  types := [
    { id := "Shop", name := "Shop", kind := .result
      definition := {
        type := .object [("name", { type := .primitive .string }),
          ("branches", { type := .array (.user "Branch") })]
        rules := { required := ["name"] } }
      views := [
        { name := "default", attributes := [.name "name", .name "branches"] },
        { name := "link", attributes := [.name "name"] }] },
    { id := "Branch", name := "Branch", kind := .result
      definition := {
        type := .object [
          ("shop", { type := .user "Shop", overrides := { view := some "link" } }),
          ("open", { type := .primitive .boolean })] }
      views := [{ name := "default", attributes := [.name "shop", .name "open"] }] }]
  nodup := by decide

/-- Shops and branches refer to each other, and all six conversions have code. The two views of a
    shop lead to a branch under one of its views, so there are three projections. -/
theorem derived_converts_shops : shops.Tidy ∧ Separable shops ∧
    ∃ derived, (derive shops "Shop" ["default", "link"]).Yields derived ∧
      derived.ids.map Prod.snd = ["Shop#default", "Branch#default", "Shop#link"] ∧
      ∀ e ∈ derived.ids,
        (∃ code, ((derived.projector {}).convert {} (.projected "views") e.1.type e.2
          "res" "vres").Yields code) ∧
        ∃ code, ((derived.projector {}).convert (.projected "views") {} e.2 e.1.type
          "vres" "res").Yields code := by
  have htidy : shops.Tidy := by decide
  have hsep : Separable shops := by decide
  have hs : shops.Sound := by decide
  obtain ⟨derived, h, hids, hends⟩ : ∃ derived,
      (derive shops "Shop" ["default", "link"]).Yields derived ∧
      derived.ids.map Prod.snd = ["Shop#default", "Branch#default", "Shop#link"] ∧
      ∀ e ∈ derived.ids,
        ((derived.projector {}).convert {} (.projected "views") e.1.type e.2
          "res" "vres").Finishes ∧
        ((derived.projector {}).convert (.projected "views") {} e.2 e.1.type
          "vres" "res").Finishes := by
    decide +kernel
  -- What is run are the derivation and whether the conversions end. That they end with code is what
  -- the theorem adds.
  have converts := derived_converts shops htidy hsep "Shop" ["default", "link"] derived h {}
  have hno := (converts {} {} "" "").2 hs
  refine ⟨htidy, hsep, derived, h, hids, fun e he => ⟨?_, ?_⟩⟩
  · exact ((converts {} (.projected "views") "res" "vres").1 e he).1.yields (hno e he)
      (hends e he).1
  · exact ((converts (.projected "views") {} "vres" "res").1 e he).2.yields (hno e he)
      (hends e he).2

/-- A report with a map whose keys are of a type that there is not. -/
def reports : Registry where
  types := [
    { id := "Report", name := "Report", kind := .result
      definition := {
        type := .object [
          ("rates", { type := .map (.user "Currency") { type := .primitive .int } })] }
      views := [{ name := "default", attributes := [.name "rates"] }] }]
  nodup := by decide

/-- The keys of a map are left as they are, so that the type that is missing is not noticed until
    there is a conversion. -/
theorem reports_not_converted : reports.Tidy ∧ Separable reports ∧
    ∃ derived, (derive reports "Report" ["default"]).Yields derived ∧
      derived.ids = [(⟨"Report", "default"⟩, "Report#default")] ∧
      (∃ f, ((derived.projector {}).convert {} (.projected "views") "Report" "Report#default"
        "res" "vres").run = some (.error f) ∧ f = .unknownType "Currency") ∧
      ∃ f, ((derived.projector {}).convert (.projected "views") {} "Report#default" "Report"
        "vres" "res").run = some (.error f) ∧ f = .unknownType "Currency" := by
  refine ⟨by decide, by decide, ?_⟩
  decide +kernel

end Projection
end Shapewright
