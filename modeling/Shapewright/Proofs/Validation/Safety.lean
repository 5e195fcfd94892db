import Shapewright.Proofs.Validation.Closure

/-!
# Validators look at pointers before they follow them

What a validator dereferences, and what it selects a field of, is its argument or has been tested
around the place not to be nil; and so has every object that it hands to another validator.

## Across calls

A validator selects fields of its argument without a test. That is safe as long as nobody calls it
with nil, so the statement has to be about all validators of a type together, with a condition on
their calls. A collection needs no such care: it is handed over as it is, since a loop over a nil
slice or map does nothing. Nor does a primitive value, which is checked where it stands.

Each validator is built by the walk that `Builds.safe` follows. What remains is to recognise the
calls: a name that is called belongs to a validator that is listed (`Listed.called`), and whether
that one is for an object can be read off the place that the value comes from.
-/

namespace Shapewright
namespace Validation

variable {v : Validation} {id : TypeId} {view : Option String} {funcs : List Func}

/-- The step of the validator of `s` follows nothing, selects no field but of the argument, and
    calls the validator of no object, without a test around it. Its other calls are reports, or hand
    a value that is no object over to a validator that is listed. -/
structure NilSafeStep (v : Validation) (listed : List (Subject × Func)) (s : Subject)
    (step : CodeStep) : Prop where
  derefs : ∀ e ∈ step.stmt.derefs, e ∈ step.known
  selects : ∀ e ∈ step.stmt.selects, e = .ident v.reporting.arg ∨ e ∈ step.known
  calls : ∀ call ∈ step.stmt.calls, v.IsReport call ∨
    ∃ y ∈ listed, ∃ z, v.Looks s z ∧ v.HandsOver z y.1 ∧ call = (y.2.name, [z.position.var]) ∧
      (v.registry.kind (.user y.1.type) = .ok .object → z.position.var ∈ step.known)

/-- The subject that is made for a type and a view is of that type. -/
theorem type_of_subject {s : Subject} (h : v.subject id view = .ok s) : s.type = id := by
  unfold subject at h
  split at h
  · cases h
    rfl
  · obtain ⟨w, -, h⟩ := except_bind_eq_ok.mp h
    cases h
    rfl

theorem HandsOver.kind_eq {y : Place} {s : Subject} (h : v.HandsOver y s) :
    v.registry.kind (.user s.type) = v.registry.kind y.attr := by
  obtain ⟨hid, -, -, hs⟩ := h
  rw [type_of_subject hs]
  exact (⟨rfl, hid⟩ : Attribute.BothRefer _ _ _).kind_eq

/-- Each validator that is listed follows only what it has tested. What a call needs is checked
    where the call stands, and not in the validator that is called. -/
theorem Listed.nilSafe {root : Subject} {listed : List (Subject × Func)} (h : v.Listed root listed)
    {x : Subject × Func} (hx : x ∈ listed) :
    ∀ step ∈ x.2.body.steps [], v.NilSafeStep listed x.1 step := by
  obtain ⟨checks, hb, hf⟩ := h.built x hx
  intro step hstep
  rw [(func_eq_ok hf).2, Block.steps_append, List.mem_append] at hstep
  rcases hstep with hstep | hstep
  · have hsafe := (buildsBody_of_body hb).safe step hstep
    refine ⟨hsafe.derefs, fun e he => List.mem_cons.mp (hsafe.selects he), fun call hcall => ?_⟩
    refine (hsafe.calls call hcall).imp_right fun hvalidator => ?_
    obtain ⟨z, hz, hcalled⟩ := hvalidator
    obtain ⟨y, hy, hands, hname, hknown⟩ := h.called hcalled
    exact ⟨y, hy, z, hz, hands, hname, fun hk => hknown (hands.kind_eq ▸ hk)⟩
  · -- The return at the end.
    rw [Block.steps_cons, Stmt.steps, Block.steps_nil, List.append_nil,
      List.mem_singleton] at hstep
    subst hstep
    exact ⟨by simp [Stmt.derefs, Expr.derefsAll], by simp [Stmt.selects, Expr.selectsAll],
      by simp [Stmt.calls, Expr.callsAll]⟩

/-- No validator of a type follows or selects what it has not tested, nor hands an untested object
    to another. The tests that count are those around a step, in the body it belongs to. The
    argument alone may be selected from without one, since whoever calls a validator has tested the
    object that it hands over. -/
theorem compileAll_nilSafe (v : Validation) (id : TypeId) (view : Option String)
    (funcs : List Func) (h : (v.compileAll id view).Yields funcs) :
    ∃ root listed, v.subject id view = .ok root ∧ funcs = listed.map Prod.snd ∧
      v.Listed root listed ∧
      ∀ x ∈ listed, ∀ step ∈ x.2.body.steps [], v.NilSafeStep listed x.1 step := by
  obtain ⟨root, listed, hroot, hfuncs, hl⟩ := (compileAll_listed v id view).2 funcs h
  exact ⟨root, listed, hroot, hfuncs, hl, fun x hx => hl.nilSafe hx⟩

/-- Orders with an optional note, a customer in place, and lines in place that refer back. -/
def orderValidation : Validation where
  scope := .ofRegistry {
    types := [{
      id := "Order", name := "Order"
      definition := {
        type := .object [
          ("note", { type := .primitive .string, rules := { maxLength := some 80 } }),
          ("customer", {
            type := .object [
              ("mail", { type := .primitive .string, rules := { format := some .email } })]
            rules := { required := ["mail"] } }),
          ("lines", { type := .array {
            type := .object [
              ("sku", { type := .primitive .string, rules := { pattern := some "^X" } }),
              ("parent", .user "Order")] } })] } }] }
  context := .body

/-- The validator of an order has tests for the note and the customer, and one around its call of
    itself for the order that a line refers back to. -/
theorem compileAll_nilSafe_orders : ∃ funcs,
    ((orderValidation.compileAll "Order" none).Yields funcs ∧ funcs.length = 1) ∧
    ∃ root listed, orderValidation.subject "Order" none = .ok root ∧
      funcs = listed.map Prod.snd ∧ orderValidation.Listed root listed ∧
      ∀ x ∈ listed, ∀ step ∈ x.2.body.steps [], orderValidation.NilSafeStep listed x.1 step := by
  obtain ⟨funcs, h⟩ : ∃ funcs, (orderValidation.compileAll "Order" none).Yields funcs ∧
      funcs.length = 1 := by
    decide +kernel
  exact ⟨funcs, h, compileAll_nilSafe orderValidation "Order" none funcs h.1⟩

end Validation
end Shapewright
