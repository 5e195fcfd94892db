import Shapewright.Proofs.Conversion.Names
import Shapewright.Proofs.Conversion.Stability
import Shapewright.Proofs.Design.Conversions
import Shapewright.Proofs.Design.Requests

/-!
# The functions of a design have names of their own

The functions of the requests stand beside the helpers that they call. Two helpers of one name are
one helper, and a helper starts with a small letter where a function that is named after its types
starts with a capital. Nothing keeps the functions of two requests apart, or a function whose name
is given from a helper.

So a name stands for two functions just where two requests come to it or a request is given the name
of a helper. `compileConversions_names_iff` says so, and `letter_functions_clash` shows that it
takes no more than a request for the same types in another context.

## Names that are made and names that are given

A request that gives no name has one made for it from the verb and the names of its types, whose
first letter is a capital (`Calls.capital`). A helper has a name made as well, but its head is
lowered. The one thing that could bring the two together is a name that is given, and such a name is
not checked by anybody.

## Ways to clash

`Namesakes` are two requests that are built under one name. `Rivals` among them have different
functions; the others say the same twice. A request shadows a helper of another one, or of its own,
if it is given that name (`Shadows`). The theorem counts functions and helpers together, so all
three have to be told apart there.
-/

namespace Shapewright

/-! ## Heads of names -/

namespace Identifier

/-- A head that was lowered is no capital. -/
theorem not_capital_lowerHead {s : List Char} (h : Capital s) (t : List Char) :
    ¬ Capital (lowerHead s ++ t) := by
  obtain ⟨c, r, hlowered, -⟩ := lowerHead_eq_cons h
  rintro ⟨c', r', heq, hc'⟩
  rw [hlowered, List.cons_append] at heq
  obtain ⟨rfl, -⟩ := List.cons.inj heq
  simp at hc'

end Identifier

namespace Conversion

open Identifier

variable {c : Conversion} {p : Pair} {name : String}

/-- The name of a helper that is called starts with no capital. -/
theorem Delegates.not_capital (h : c.Delegates p name) (hc : c.scope = .ofRegistry c.registry) :
    ¬ Capital name.toList := by
  obtain ⟨s, t, hn⟩ := h.known.exists_names hc
  have hs := hn.capital hc h.known
  have hname := Except.ok.inj (h.named.symm.trans (hn.helperName hs))
  rw [hname, String.toList_ofList]
  exact not_capital_lowerHead (capital_head hs) _

end Conversion

namespace Design

open Identifier

variable {d : Design} {r r' : ConversionRequest} {requests : List ConversionRequest} {f g : Func}
  {functions : List Func} {failures : List FailedRequest} {helpers : List Helper}
  {batches : List (List Helper)} {code : ConversionCode} {name : String}

/-! ## What a request calls its function -/

/-- The name that a request has for its function, in the contexts it names. It may have one even if
    its code cannot be built. -/
def Calls (d : Design) (r : ConversionRequest) (name : String) : Prop :=
  ∃ source target, d.context? r.sourceContext = some source ∧
    d.context? r.targetContext = some target ∧
    functionName (d.conversion r source target) r = .ok name

/-- A request has at most one name for its function. -/
theorem Calls.unique {name' : String} (h : d.Calls r name) (h' : d.Calls r name') :
    name = name' := by
  obtain ⟨source, target, hs, ht, hname⟩ := h
  obtain ⟨source', target', hs', ht', hname'⟩ := h'
  obtain rfl := Option.some.inj (hs.symm.trans hs')
  obtain rfl := Option.some.inj (ht.symm.trans ht')
  exact Except.ok.inj (hname.symm.trans hname')

/-- A name that is not given is made from the verb and the types, and starts with a capital. -/
theorem Calls.capital (h : d.Calls r name) (hr : r.name = none) : Capital name.toList := by
  obtain ⟨source, target, -, -, hname⟩ := h
  unfold functionName at hname
  rw [hr] at hname
  simp only [except_bind_eq_ok, except_pure_eq_ok] at hname
  obtain ⟨s, -, t, -, rfl⟩ := hname
  simp only [String.toList_append, List.append_assoc]
  exact (capital_exported r.verb).append _

/-- The parts of a request that was built. The name is settled before the code is built, and the
    code does not depend on it. -/
theorem compileConversion_eq_ok (h : d.compileConversion r = .ok (f, helpers)) :
    ∃ source target, d.context? r.sourceContext = some source ∧
      d.context? r.targetContext = some target ∧
      functionName (d.conversion r source target) r = .ok f.name ∧
      f.doc = some (f.name ++ " converts a " ++ r.source ++ " into a " ++ r.target ++ ".") ∧
      ∃ body met, ((d.conversion r source target).compile
        (.between (.user r.source) (.user r.target) "v" "res")).Yields [] ⟨body, helpers⟩ met := by
  unfold compileConversion requireContext at h
  simp only [except_bind_eq_ok] at h
  obtain ⟨source, hsource, target, htarget, h⟩ := h
  split at hsource <;> cases hsource
  split at htarget <;> cases htarget
  have hyields := Walk.settle_eq_ok.mp (mapError_eq_ok.mp h)
  unfold conversionFunc at hyields
  simp only [Walk.yields_bind, Walk.yields_liftM, Walk.yields_pure] at hyields
  obtain ⟨name, hname, param, -, result, -, code, hcode, heq⟩ := hyields
  cases heq
  obtain ⟨met, hcode⟩ := HelperWalk.yields_alone.mp hcode
  exact ⟨source, target, ‹_›, ‹_›, hname, rfl, code.body, met, hcode⟩

/-- A function has the name that its request has for it. -/
theorem calls_of_compileConversion (h : d.compileConversion r = .ok (f, helpers)) :
    d.Calls r f.name := by
  obtain ⟨source, target, hsource, htarget, hname, -⟩ := compileConversion_eq_ok h
  exact ⟨source, target, hsource, htarget, hname⟩

/-- No helper of a request starts with a capital. -/
theorem not_capital_of_compileConversion {k : Helper}
    (h : d.compileConversion r = .ok (f, helpers)) (hk : k ∈ helpers) :
    ¬ Capital k.name.toList := by
  obtain ⟨source, target, -, -, -, -, body, met, hcode⟩ := compileConversion_eq_ok h
  obtain ⟨x, -, hd, -⟩ := Conversion.exists_meets hcode hk
  exact hd.not_capital rfl

/-- The function of a request and a helper of one name say different things of themselves. -/
theorem ne_func_of_compileConversion {k : Helper}
    (h : d.compileConversion r = .ok (f, helpers)) (hname : f.name = k.name) : f ≠ k.func := by
  obtain ⟨-, -, -, -, -, hdoc, -⟩ := compileConversion_eq_ok h
  intro heq
  have hsame := hdoc.symm.trans (congrArg Func.doc heq)
  rw [hname] at hsame
  simp [Helper.func, ← String.toList_inj] at hsame

/-! ## Requests that come to one name -/

/-- A request that leads to a function. Requests that fail are left out of the output, so names are
    compared for these only. -/
def Built (d : Design) (r : ConversionRequest) : Prop := ∃ made, d.compileConversion r = .ok made

/-- Two requests that are built have one name for their functions. Whether the name was given or
    made from the types does not matter. -/
structure Namesakes (d : Design) (r r' : ConversionRequest) : Prop where
  built : d.Built r
  built' : d.Built r'
  name : ∃ name, d.Calls r name ∧ d.Calls r' name

/-- Namesakes that differ in their functions. One name then stands for two functions, and the code
    of the design cannot be used. -/
structure Rivals (d : Design) (r r' : ConversionRequest) : Prop extends d.Namesakes r r' where
  differ : (d.compileConversion r).map Prod.fst ≠ (d.compileConversion r').map Prod.fst

/-- The first request is built under a name that is given, and the second calls a helper of that
    name. -/
structure Shadows (d : Design) (r r' : ConversionRequest) : Prop where
  built : d.Built r
  name : ∃ f helpers, d.compileConversion r' = .ok (f, helpers) ∧
    ∃ k ∈ helpers, r.name = some k.name

/-- Requests that are built are namesakes if their functions have one name. The first is about
    requests and can be seen from the document; the second is about the output. -/
theorem namesakes_iff {helpers' : List Helper} (h : d.compileConversion r = .ok (f, helpers))
    (h' : d.compileConversion r' = .ok (g, helpers')) : d.Namesakes r r' ↔ f.name = g.name := by
  constructor
  · intro hn
    obtain ⟨name, hcalls, hcalls'⟩ := hn.name
    rw [(calls_of_compileConversion h).unique hcalls,
      (calls_of_compileConversion h').unique hcalls']
  · intro hname
    have hcalls' := calls_of_compileConversion h'
    exact ⟨⟨_, h⟩, ⟨_, h'⟩, f.name, calls_of_compileConversion h, hname ▸ hcalls'⟩

/-- Requests that are built are rivals if their functions have one name and differ. -/
theorem rivals_iff {helpers' : List Helper} (h : d.compileConversion r = .ok (f, helpers))
    (h' : d.compileConversion r' = .ok (g, helpers')) :
    d.Rivals r r' ↔ f.name = g.name ∧ f ≠ g := by
  have hdiffer : (d.compileConversion r).map Prod.fst ≠ (d.compileConversion r').map Prod.fst ↔
      f ≠ g := by
    rw [h, h']
    exact not_congr (by simp [Except.map])
  rw [← namesakes_iff h h', ← hdiffer]
  exact ⟨fun hr => ⟨hr.toNamesakes, hr.differ⟩, fun hr => ⟨hr.1, hr.2⟩⟩

/-- A function and a helper have one name only where the name of the function was given. A name that
    is made up begins with a capital letter and that of a helper does not, so those two cannot
    meet. -/
theorem shadows_iff {helpers' : List Helper} {k : Helper}
    (h : d.compileConversion r = .ok (f, helpers)) (h' : d.compileConversion r' = .ok (g, helpers'))
    (hk : k ∈ helpers') : f.name = k.name ↔ r.name = some k.name := by
  have hcalls := calls_of_compileConversion h
  cases hr : r.name with
  | none =>
    have hcapital := hcalls.capital hr
    simp only [reduceCtorEq, iff_false]
    intro hname
    exact not_capital_of_compileConversion h' hk (hname ▸ hcapital)
  | some name =>
    obtain ⟨source, target, -, -, hname⟩ := hcalls
    unfold functionName at hname
    rw [hr] at hname
    rw [Option.some.injEq, ← Except.ok.inj hname]

/-! ## The functions and helpers of all requests -/

namespace Reports

/-- The functions are those of the requests that were built. -/
theorem mem_functions (h : d.Reports requests functions failures batches) :
    f ∈ functions ↔ ∃ r ∈ requests, ∃ helpers, d.compileConversion r = .ok (f, helpers) := by
  induction h with
  | nil => simp
  | built hr _ ih => simp [hr, ih, eq_comm]
  | failed hr _ _ ih => simp [hr, ih]

/-- The helpers are those of the requests that were built. -/
theorem mem_batches (h : d.Reports requests functions failures batches) :
    helpers ∈ batches ↔ ∃ r ∈ requests, ∃ f, d.compileConversion r = .ok (f, helpers) := by
  induction h with
  | nil => simp
  | built hr _ ih => simp [hr, ih, eq_comm]
  | failed hr _ _ ih => simp [hr, ih]

/-- The names of the functions are different just where no two requests are namesakes. The names
    stand in the order of the requests, those left out that failed. -/
theorem nodup_names (h : d.Reports requests functions failures batches) :
    (functions.map (·.name)).Nodup ↔ requests.Pairwise fun r r' => ¬ d.Namesakes r r' := by
  induction h with
  | nil => simp
  | built hr hrest ih =>
    -- The first request against all later ones: only those that are built have a name to clash
    -- with.
    rw [List.map_cons, List.nodup_cons, List.pairwise_cons, ih]
    refine and_congr_left fun _ => ?_
    rw [List.mem_map, not_exists]
    constructor
    · intro hnew r' hr' hn
      obtain ⟨⟨g, helpers'⟩, hg⟩ := hn.built'
      exact hnew g ⟨hrest.mem_functions.mpr ⟨r', hr', helpers', hg⟩,
        ((namesakes_iff hr hg).mp hn).symm⟩
    · intro hnone g hg
      obtain ⟨hg, hname⟩ := hg
      obtain ⟨r', hr', helpers', hg⟩ := hrest.mem_functions.mp hg
      exact hnone r' hr' ((namesakes_iff hr hg).mpr hname.symm)
  | failed hr _ _ ih =>
    rw [List.pairwise_cons, ih]
    refine (and_iff_right fun r' _ hn => ?_).symm
    obtain ⟨made, hmade⟩ := hn.built
    cases hr.symm.trans hmade

end Reports

/-! ## All declared functions -/

/-- The functions that the code declares. -/
def ConversionCode.declared (code : ConversionCode) : List Func :=
  code.functions ++ code.helpers.map Helper.func

theorem ConversionCode.mem_declared :
    f ∈ code.declared ↔ f ∈ code.functions ∨ ∃ k ∈ code.helpers, k.func = f := by
  rw [declared, List.mem_append, List.mem_map]

/-- No function has the name of a helper exactly if no request is given one. Helpers of all requests
    count, not those of the request alone, since they share one list. -/
theorem Delivers.names_disjoint (h : d.Delivers requests code) :
    (∀ f ∈ code.functions, ∀ k ∈ code.helpers, f.name ≠ k.name) ↔
      ∀ r ∈ requests, ∀ r' ∈ requests, ¬ d.Shadows r r' := by
  obtain ⟨batches, hr, hu⟩ := h
  constructor
  · intro hne r hmem r' hmem' hs
    obtain ⟨⟨f, helpers⟩, hf⟩ := hs.built
    obtain ⟨g, helpers', hg, k, hk, hname⟩ := hs.name
    have hbatch : helpers' ∈ batches := hr.mem_batches.mpr ⟨r', hmem', g, hg⟩
    obtain ⟨l, hl, hlk⟩ := hu.gathers.covers k (List.mem_flatten.mpr ⟨helpers', hbatch, hk⟩)
    refine hne f (hr.mem_functions.mpr ⟨r, hmem, helpers, hf⟩) l hl ?_
    rw [Helper.name_eq hlk]
    exact (shadows_iff hf hg hk).mpr hname
  · intro hnone f hf k hk hname
    obtain ⟨r, hmem, helpers, hf⟩ := hr.mem_functions.mp hf
    obtain ⟨helpers', hbatch, hk⟩ := List.mem_flatten.mp (hu.gathers.subset hk)
    obtain ⟨r', hmem', g, hg⟩ := hr.mem_batches.mp hbatch
    exact hnone r hmem r' hmem'
      ⟨⟨_, hf⟩, g, helpers', hg, k, hk, (shadows_iff hf hg hk).mp hname⟩

/-- A function never says the same as a helper. -/
theorem Delivers.ne_func (h : d.Delivers requests code) {k : Helper} (hf : f ∈ code.functions)
    (hname : f.name = k.name) : f ≠ k.func := by
  obtain ⟨batches, hr, -⟩ := h
  obtain ⟨r, -, helpers, hf⟩ := hr.mem_functions.mp hf
  exact ne_func_of_compileConversion hf hname

theorem Delivers.functions_inj (h : d.Delivers requests code) :
    (∀ f ∈ code.functions, ∀ g ∈ code.functions, f.name = g.name → f = g) ↔
      ∀ r ∈ requests, ∀ r' ∈ requests, ¬ d.Rivals r r' := by
  obtain ⟨batches, hr, -⟩ := h
  constructor
  · intro hinj r hmem r' hmem' hrivals
    obtain ⟨⟨f, helpers⟩, hf⟩ := hrivals.built
    obtain ⟨⟨g, helpers'⟩, hg⟩ := hrivals.built'
    obtain ⟨hname, hne⟩ := (rivals_iff hf hg).mp hrivals
    exact hne (hinj f (hr.mem_functions.mpr ⟨r, hmem, helpers, hf⟩) g
      (hr.mem_functions.mpr ⟨r', hmem', helpers', hg⟩) hname)
  · intro hnone f hf g hg hname
    obtain ⟨r, hmem, helpers, hf⟩ := hr.mem_functions.mp hf
    obtain ⟨r', hmem', helpers', hg⟩ := hr.mem_functions.mp hg
    by_contra hne
    exact hnone r hmem r' hmem' ((rivals_iff hf hg).mpr ⟨hname, hne⟩)

/-- No name is declared by two different functions exactly if no two requests are rivals and none is
    given the name of a helper. -/
theorem Delivers.declared_inj (h : d.Delivers requests code) :
    (∀ f ∈ code.declared, ∀ g ∈ code.declared, f.name = g.name → f = g) ↔
      (∀ r ∈ requests, ∀ r' ∈ requests, ¬ d.Rivals r r') ∧
        ∀ r ∈ requests, ∀ r' ∈ requests, ¬ d.Shadows r r' := by
  rw [← h.functions_inj, ← h.names_disjoint]
  have helperDeclared : ∀ k ∈ code.helpers, k.func ∈ code.declared := fun k hk =>
    ConversionCode.mem_declared.mpr (.inr ⟨k, hk, rfl⟩)
  constructor
  · intro hinj
    constructor
    · intro f hf g hg
      exact hinj f (ConversionCode.mem_declared.mpr (.inl hf)) g
        (ConversionCode.mem_declared.mpr (.inl hg))
    · intro f hf k hk hname
      exact h.ne_func hf hname
        (hinj f (ConversionCode.mem_declared.mpr (.inl hf)) k.func (helperDeclared k hk) hname)
  · intro hboth f hf g hg hname
    obtain ⟨hinj, hne⟩ := hboth
    -- Functions against functions, functions against helpers, and helpers against helpers, of which
    -- no two have one name.
    rcases ConversionCode.mem_declared.mp hf with hf | ⟨k, hk, rfl⟩ <;>
      rcases ConversionCode.mem_declared.mp hg with hg | ⟨l, hl, rfl⟩
    · exact hinj f hf g hg hname
    · exact absurd hname (hne f hf l hl)
    · exact absurd hname.symm (hne g hg k hk)
    · obtain ⟨batches, -, hu⟩ := h
      rw [List.inj_on_of_nodup_map hu.gathers.nodup hk hl hname]

/-- The names of all declared functions are different exactly if no two requests are namesakes and
    none is given the name of a helper. -/
theorem Delivers.nodup_declared (h : d.Delivers requests code) :
    (code.declared.map (·.name)).Nodup ↔
      (requests.Pairwise fun r r' => ¬ d.Namesakes r r') ∧
        ∀ r ∈ requests, ∀ r' ∈ requests, ¬ d.Shadows r r' := by
  rw [← h.names_disjoint]
  obtain ⟨batches, hr, hu⟩ := h
  have hnames : (code.helpers.map Helper.func).map (·.name) = code.helpers.map (·.name) := by
    rw [List.map_map]
    rfl
  rw [ConversionCode.declared, List.map_append, hnames, List.nodup_append, hr.nodup_names]
  simp only [hu.gathers.nodup, true_and, List.forall_mem_map]

theorem delivers_of_compileConversions (h : d.compileConversions = .ok code) :
    d.Delivers d.conversions code := by
  obtain ⟨batches, hr, hu⟩ := compileConversions_eq_ok.mp h
  exact ⟨batches, hr, Helper.isUnion_of_unionAll hu⟩

/-- In the code of a design no name is declared by two different functions exactly if no two
    requests that come to one name differ in their functions and no request is given the name of a
    helper. Every name is declared once exactly if, besides, no two requests come to one name. -/
theorem compileConversions_names_iff (d : Design) (code : ConversionCode)
    (h : d.compileConversions = .ok code) :
    ((∀ f ∈ code.declared, ∀ g ∈ code.declared, f.name = g.name → f = g) ↔
      (∀ r ∈ d.conversions, ∀ r' ∈ d.conversions, ¬ d.Rivals r r') ∧
        ∀ r ∈ d.conversions, ∀ r' ∈ d.conversions, ¬ d.Shadows r r') ∧
    ((code.declared.map (·.name)).Nodup ↔
      (d.conversions.Pairwise fun r r' => ¬ d.Namesakes r r') ∧
        ∀ r ∈ d.conversions, ∀ r' ∈ d.conversions, ¬ d.Shadows r r') :=
  ⟨(delivers_of_compileConversions h).declared_inj,
    (delivers_of_compileConversions h).nodup_declared⟩

/-- Functions for the three requests of a shelf, no two of which come to one name. One of the three
    fails, and the names of the other two are made of their types. -/
theorem compileConversions_names_iff_shelf : ∃ code, shelfDesign.compileConversions = .ok code ∧
    ((∀ f ∈ code.declared, ∀ g ∈ code.declared, f.name = g.name → f = g) ↔
      (∀ r ∈ shelfDesign.conversions, ∀ r' ∈ shelfDesign.conversions, ¬ shelfDesign.Rivals r r') ∧
        ∀ r ∈ shelfDesign.conversions, ∀ r' ∈ shelfDesign.conversions,
          ¬ shelfDesign.Shadows r r') ∧
    ((code.declared.map (·.name)).Nodup ↔
      (shelfDesign.conversions.Pairwise fun r r' => ¬ shelfDesign.Namesakes r r') ∧
        ∀ r ∈ shelfDesign.conversions, ∀ r' ∈ shelfDesign.conversions,
          ¬ shelfDesign.Shadows r r') := by
  obtain ⟨code, h⟩ : ∃ code, shelfDesign.compileConversions = .ok code := by decide +kernel
  exact ⟨code, h, compileConversions_names_iff shelfDesign code h⟩

/-- Drafts that become letters, once for the service and once for a decoded body. -/
def letterDocument : Document where
  types := [
    { id := "Draft", name := "Draft", definition := {
        type := .object [("title", { type := .primitive .string })],
        rules := { required := ["title"] } } },
    { id := "Letter", name := "Letter", definition := {
        type := .object [("title", { type := .primitive .string })],
        rules := { required := ["title"] } } }]
  conversions := [
    { source := "Draft", target := "Letter" },
    { source := "Draft", target := "Letter", targetContext := "body" }]

/-- The design is accepted and both requests are built, under one name and with different code. -/
theorem letter_functions_clash : ∃ d code, load letterDocument = .ok d ∧
    d.compileConversions = .ok code ∧
    ∃ f ∈ code.declared, ∃ g ∈ code.declared, f.name = g.name ∧ f ≠ g := by
  obtain ⟨d, hd, code, hcode, f, hf, g, hg, hname, hbody⟩ : ∃ d, load letterDocument = .ok d ∧
      ∃ code, d.compileConversions = .ok code ∧ ∃ f ∈ code.declared, ∃ g ∈ code.declared,
        f.name = g.name ∧ (f.body == g.body) = false := by decide +kernel
  refine ⟨d, code, hd, hcode, f, hf, g, hg, hname, fun heq => ?_⟩
  rw [heq, Block.same_iff.mpr rfl] at hbody
  cases hbody

end Design
end Shapewright
