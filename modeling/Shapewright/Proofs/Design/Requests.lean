import Shapewright.Design.Code
import Shapewright.Proofs.Conversion.Merging

/-!
# Requests do not depend on one another

The conversions of a design are built request by request. What becomes of a request is what becomes
of it alone; only the helpers are brought together. So the order of the requests shows in the order
of the functions and of the failures, and in nothing else.

## How requests could interfere

A request that fails does not stop the others, unless it fails with an internal error. Its failure
is noted, and its helpers are not there to be merged. Names of helpers that earlier requests met are
not handed on, so each request builds all the helpers it needs, and merging throws away what is
there twice. The one thing that can go wrong between two requests is that they build different
helpers under one name.

`Reports` is the specification: it goes through the requests and says what each gives by itself,
without any state. The fold that is run has the code so far as its state, and `foldlM_addConversion`
says that this amounts to a report and one merge of all batches. From then on the order of requests
is a matter of lists, and of the merge, which is a set union (`Helper.merged_iff_agree`).
-/

namespace Shapewright
namespace Design

variable {d : Design} {requests requests' : List ConversionRequest} {functions : List Func}
  {failures : List FailedRequest} {batches : List (List Helper)} {code code' : ConversionCode}

/-- What becomes of some requests, each built alone. In their order, those that succeed give
    functions, each with a batch of helpers, and the others give failures. -/
inductive Reports (d : Design) : List ConversionRequest → List Func → List FailedRequest →
    List (List Helper) → Prop where
  | nil : Reports d [] [] [] []
  | built {r : ConversionRequest} {f : Func} {helpers : List Helper}
      {rest : List ConversionRequest} {fs : List Func} {xs : List FailedRequest}
      {bs : List (List Helper)} (h : d.compileConversion r = .ok (f, helpers))
      (hrest : Reports d rest fs xs bs) : Reports d (r :: rest) (f :: fs) xs (helpers :: bs)
  | failed {r : ConversionRequest} {why : Fault} {rest : List ConversionRequest} {fs : List Func}
      {xs : List FailedRequest} {bs : List (List Helper)}
      (h : d.compileConversion r = .error (.fault why)) (hwhy : why.isDefect = false)
      (hrest : Reports d rest fs xs bs) :
      Reports d (r :: rest) fs (⟨requestName r, why⟩ :: xs) bs

/-- Requests in another order give the same functions, failures and batches in another order. The
    induction is on the way from one order to the other. -/
theorem Reports.perm (h : d.Reports requests functions failures batches)
    (hp : requests.Perm requests') : ∃ functions' failures' batches',
      d.Reports requests' functions' failures' batches' ∧ functions'.Perm functions ∧
      failures'.Perm failures ∧ batches'.Perm batches := by
  induction hp generalizing functions failures batches with
  | nil => exact ⟨_, _, _, h, .refl _, .refl _, .refl _⟩
  | cons r _ ih =>
    cases h with
    | built hr hrest =>
      obtain ⟨_, _, _, h', hf, hx, hb⟩ := ih hrest
      exact ⟨_, _, _, .built hr h', hf.cons _, hx, hb.cons _⟩
    | failed hr hwhy hrest =>
      obtain ⟨_, _, _, h', hf, hx, hb⟩ := ih hrest
      exact ⟨_, _, _, .failed hr hwhy h', hf, hx.cons _, hb⟩
  | swap r r' rest =>
    -- Two of a kind are exchanged, one of each kind are in different lists.
    cases h with
    | built hr hrest =>
      cases hrest with
      | built hr' hrest =>
        exact ⟨_, _, _, .built hr' (.built hr hrest), .swap _ _ _, .refl _, .swap _ _ _⟩
      | failed hr' hwhy hrest =>
        exact ⟨_, _, _, .failed hr' hwhy (.built hr hrest), .refl _, .refl _, .refl _⟩
    | failed hr hwhy hrest =>
      cases hrest with
      | built hr' hrest =>
        exact ⟨_, _, _, .built hr' (.failed hr hwhy hrest), .refl _, .refl _, .refl _⟩
      | failed hr' hwhy' hrest =>
        exact ⟨_, _, _, .failed hr' hwhy' (.failed hr hwhy hrest), .refl _, .swap _ _ _, .refl _⟩
  | trans _ _ ih₁ ih₂ =>
    obtain ⟨_, _, _, h₁, hf₁, hx₁, hb₁⟩ := ih₁ h
    obtain ⟨_, _, _, h₂, hf₂, hx₂, hb₂⟩ := ih₂ h₁
    exact ⟨_, _, _, h₂, hf₂.trans hf₁, hx₂.trans hx₁, hb₂.trans hb₁⟩

/-! ## One request after another -/

/-- A request adds its function and its helpers, or its failure. A failure leaves functions and
    helpers as they are. What stops everything are two helpers of one name that differ. -/
theorem addConversion_eq_ok {r : ConversionRequest} : d.addConversion code r = .ok code' ↔
    (∃ f helpers all, d.compileConversion r = .ok (f, helpers) ∧
      Helper.union code.helpers helpers = .ok all ∧
      code' = { code with functions := code.functions ++ [f], helpers := all }) ∨
    ∃ why, d.compileConversion r = .error (.fault why) ∧ why.isDefect = false ∧
      code' = { code with failures := code.failures ++ [⟨requestName r, why⟩] } := by
  unfold addConversion
  cases hr : d.compileConversion r with
  | error why =>
    cases why with
    | misfit _ | violation _ _ => simp
    -- A defect stops the whole run, and any other fault is reported next to the code.
    | fault why =>
      cases hwhy : why.isDefect with
      | true => simp [hwhy]
      | false =>
        simp only [hwhy, Bool.false_eq_true, if_false, Except.ok.injEq, reduceCtorEq, false_and,
          exists_false, false_or, Except.error.injEq, DesignFault.fault.injEq]
        constructor
        · intro h
          exact ⟨why, rfl, hwhy, h.symm⟩
        · intro h
          obtain ⟨_, rfl, -, rfl⟩ := h
          rfl
  | ok built =>
    obtain ⟨f, helpers⟩ := built
    simp only [except_bind_eq_ok, mapError_eq_ok, except_pure_eq_ok, Except.ok.injEq,
      Prod.mk.injEq, reduceCtorEq, false_and, exists_false, or_false]
    constructor
    · intro h
      obtain ⟨all, hall, rfl⟩ := h
      exact ⟨f, helpers, all, ⟨rfl, rfl⟩, hall, rfl⟩
    · intro h
      obtain ⟨_, _, all, ⟨rfl, rfl⟩, hall, rfl⟩ := h
      exact ⟨all, hall, rfl⟩

/-- The code of some requests is what becomes of each alone, with the helpers of all. Batches are
    merged in the order of the requests that succeed. -/
theorem foldlM_addConversion : requests.foldlM d.addConversion code = .ok code' ↔
    ∃ functions failures batches, d.Reports requests functions failures batches ∧
      code'.functions = code.functions ++ functions ∧ code'.failures = code.failures ++ failures ∧
      batches.foldlM Helper.union code.helpers = .ok code'.helpers := by
  induction requests generalizing code with
  | nil =>
    rw [List.foldlM_nil, except_pure_eq_ok]
    constructor
    · intro h
      subst h
      exact ⟨[], [], [], .nil, by simp, by simp, rfl⟩
    · intro h
      obtain ⟨_, _, _, h, hf, hx, hu⟩ := h
      cases h
      obtain ⟨_, _, _⟩ := code
      obtain ⟨_, _, _⟩ := code'
      simp_all
  -- The fold starts from whatever code there is, so lists are appended to it, and the batch of this
  -- request is merged before those of the rest.
  | cons r rest ih =>
    rw [List.foldlM_cons]
    simp only [except_bind_eq_ok, addConversion_eq_ok, ih]
    constructor
    · intro h
      obtain ⟨_, hadded, fs, xs, bs, h, hf, hx, hu⟩ := h
      rcases hadded with ⟨f, helpers, all, hr, hall, rfl⟩ | ⟨why, hr, hwhy, rfl⟩
      · refine ⟨f :: fs, xs, helpers :: bs, .built hr h, by simpa using hf, hx, ?_⟩
        rw [List.foldlM_cons]
        exact except_bind_eq_ok.mpr ⟨all, hall, hu⟩
      · exact ⟨fs, _ :: xs, bs, .failed hr hwhy h, hf, by simpa using hx, hu⟩
    · intro h
      obtain ⟨_, _, _, h, hf, hx, hu⟩ := h
      cases h with
      | built hr hrest =>
        rw [List.foldlM_cons] at hu
        obtain ⟨all, hall, hu⟩ := except_bind_eq_ok.mp hu
        exact ⟨_, .inl ⟨_, _, all, hr, hall, rfl⟩, _, _, _, hrest, by simpa using hf, hx, hu⟩
      | failed hr hwhy hrest =>
        exact ⟨_, .inr ⟨_, hr, hwhy, rfl⟩, _, _, _, hrest, hf, by simpa using hx, hu⟩

/-- The code is what becomes of each of the requests alone, in their order, with the helpers of all,
    each once and by name. -/
def Delivers (d : Design) (requests : List ConversionRequest) (code : ConversionCode) : Prop :=
  ∃ batches, d.Reports requests code.functions code.failures batches ∧
    Helper.IsUnion code.helpers batches

/-- The requests of a design in another order. -/
def reordered (d : Design) (requests : List ConversionRequest) : Design :=
  { d with conversions := requests }

/-- The same functions and failures in another order, with the same helpers. Helpers are sorted by
    name, so their order does not depend on the requests at all. -/
structure ConversionCode.Rearranges (code' code : ConversionCode) : Prop where
  functions : code'.functions.Perm code.functions
  failures : code'.failures.Perm code.failures
  helpers : (code'.helpers == code.helpers) = true

theorem compileConversions_eq_ok : (d.reordered requests).compileConversions = .ok code ↔
    ∃ batches, d.Reports requests code.functions code.failures batches ∧
      Helper.unionAll batches = .ok code.helpers := by
  show requests.foldlM d.addConversion {} = .ok code ↔ _
  rw [foldlM_addConversion]
  simp only [List.nil_append]
  constructor
  · intro h
    obtain ⟨_, _, batches, h, rfl, rfl, hu⟩ := h
    exact ⟨batches, h, hu⟩
  · intro h
    obtain ⟨batches, h, hu⟩ := h
    exact ⟨_, _, batches, h, rfl, rfl, hu⟩

theorem compileConversions_rearranges (hp : requests'.Perm requests)
    (h : (d.reordered requests).compileConversions = .ok code) :
    d.Delivers requests code ∧ ∃ code', (d.reordered requests').compileConversions = .ok code' ∧
      d.Delivers requests' code' ∧ code'.Rearranges code := by
  obtain ⟨batches, hr, hu⟩ := compileConversions_eq_ok.mp h
  obtain ⟨functions, failures, batches', hr', hf, hx, hb⟩ := hr.perm hp.symm
  have hmem : ∀ k, k ∈ batches.flatten ↔ k ∈ batches'.flatten := by
    intro k
    rw [List.mem_flatten, List.mem_flatten]
    exact exists_congr fun b => and_congr_left fun _ => hb.symm.mem_iff
  obtain ⟨helpers, hu', hsame⟩ := Helper.unionAll_of_mem_iff hu hmem
  exact ⟨⟨batches, hr, Helper.isUnion_of_unionAll hu⟩, ⟨functions, helpers, failures⟩,
    compileConversions_eq_ok.mpr ⟨batches', hr', hu'⟩,
    ⟨batches', hr', Helper.isUnion_of_unionAll hu'⟩, ⟨hf, hx, hsame⟩⟩

theorem exists_error_iff {α ε : Type} {e : Except ε α} :
    (∃ why, e = .error why) ↔ ¬ ∃ a, e = .ok a := by
  cases e <;> simp

/-- The code of a design is what becomes of each of its requests alone. In another order of the
    requests it is the same code in that order, and there is none only if there is none in any
    order. -/
theorem compileConversions_independent (d : Design) (requests : List ConversionRequest)
    (hp : requests.Perm d.conversions) :
    (∀ code, d.compileConversions = .ok code → d.Delivers d.conversions code ∧
      ∃ code', (d.reordered requests).compileConversions = .ok code' ∧
        d.Delivers requests code' ∧ code'.Rearranges code) ∧
    ((∃ why, d.compileConversions = .error why) ↔
      ∃ why, (d.reordered requests).compileConversions = .error why) := by
  have hd : d.reordered d.conversions = d := rfl
  constructor
  · intro code h
    exact compileConversions_rearranges hp (hd ▸ h)
  · rw [exists_error_iff, exists_error_iff, not_iff_not]
    constructor
    · intro hok
      obtain ⟨code, h⟩ := hok
      obtain ⟨-, code', h', -⟩ := compileConversions_rearranges hp (hd ▸ h)
      exact ⟨code', h'⟩
    · intro hok
      obtain ⟨code, h⟩ := hok
      obtain ⟨-, code', h', -⟩ := compileConversions_rearranges hp.symm h
      exact ⟨code', h'⟩

/-- Two types that hold tags, and one that holds a number where they hold tags. -/
def shelfDesign : Design where
  registry := .ofList [
    { id := "Tag", definition := { type := .object [("name", { type := .primitive .string })] } },
    { id := "Page", definition := { type := .object [("tag", .user "Tag")] } },
    { id := "Shelf", definition := { type := .object [("tag", .user "Tag")] } },
    { id := "Count", definition := { type := .object [("tag", { type := .primitive .int })] } }]
  conversions := [
    { source := "Page", target := "Shelf" },
    { source := "Page", target := "Count" },
    { source := "Shelf", target := "Page" }]

/-- Three requests, one of them for types that do not fit, in their own order and in the opposite
    one. -/
theorem compileConversions_independent_shelf :
    shelfDesign.conversions.reverse.Perm shelfDesign.conversions ∧
    ∃ code, shelfDesign.compileConversions = .ok code ∧
      shelfDesign.Delivers shelfDesign.conversions code ∧
      ∃ code', (shelfDesign.reordered shelfDesign.conversions.reverse).compileConversions =
          .ok code' ∧
        shelfDesign.Delivers shelfDesign.conversions.reverse code' ∧ code'.Rearranges code := by
  have hp := List.reverse_perm shelfDesign.conversions
  obtain ⟨code, h⟩ : ∃ code, shelfDesign.compileConversions = .ok code := by decide +kernel
  have hcode := (compileConversions_independent shelfDesign _ hp).1 code h
  exact ⟨hp, code, h, hcode⟩

end Design
end Shapewright
