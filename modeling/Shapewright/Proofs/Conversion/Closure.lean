import Mathlib.Data.List.Nodup
import Mathlib.Data.String.Basic
import Shapewright.Proofs.Conversion.Names
import Shapewright.Proofs.Conversion.Search

/-!
# Every call has its helper

The code of a request and its helpers come from two walks over the same pairs: one that builds code
and one that looks for helpers. Their results fit together: a function that any of the code calls is
one of the helpers, and converts between the types of the call.

## When names are enough

A name that was met ends the search, whatever pair it was met at. So the helpers are complete only
if names tell the pairs apart that the request leads to (`NamesApart`). Nothing else is assumed, of
the graph of types in particular: it may be cyclic, and then a helper calls itself, or is called by
one that it calls.

`NamesApart` is asked of the pairs that a request leads to and not of all pairs of the registry, so
that a clash elsewhere does no harm. It follows where the names of types are told apart by the
naming scheme, which is a matter for `Proofs.Conversion.Names`.

## Two walks, one graph

The argument follows a call. It stands in code in place, so it belongs to a site nested in a pair
that the request or a helper leads to (`CallsAt.nested`). Such a pair was gone through by the search
(`expanded_of_reaches`), and since the site has a helper of its own, its name was met
(`exists_serves`). The types in the signature are those of the pair at which it was met; they are
those of the call because like pairs have the same types.

A request may be told of names met before. Their helpers are not built again, so the statements on
calls are about requests to which nothing was met (`Closed`).
-/

namespace Shapewright
namespace Conversion

open Relation

variable {c : Conversion} {s t : Site} {p q : Pair} {met met' : List String} {name : String}

/-- Two pairs that a conversion leads to, and that have helpers of one name, name the same types.
    The search goes by names, so this is what it takes for a helper to be the one for the pair.
    `helperName_eq_iff` says where it fails. -/
def NamesApart (c : Conversion) (p : Pair) : Prop :=
  ∀ q r name, c.Reaches p q → c.Reaches p r → c.Delegates q name → c.Delegates r name → Alike q r

/-! ## Everything that is reached is taken care of -/

/-- A helper that was met stands for a pair that is gone through. It was met at a pair that names
    the same types, and like pairs have the same pairs nested in them. -/
theorem Finds.expanded_of_delegates {found : List Finding} (hf : c.Finds p [] found met')
    (hn : c.NamesApart p) (hq : c.Reaches p q) (hd : c.Delegates q name) (hm : name ∈ met') :
    ∃ x, (name, x) ∈ found ∧ Alike x.pair q ∧ c.Expanded met' q := by
  have hmem : name ∈ found.map Prod.fst := (hf.mem_iff.mp hm).resolve_right List.not_mem_nil
  obtain ⟨⟨_, x⟩, hx, rfl⟩ := List.mem_map.mp hmem
  have hdx := hf.delegates _ hx
  have halike : Alike x.pair q := hn _ _ _ (hf.reached _ hx) hq hdx hd
  have hr : (c.reconcile q.1 q.2).Yields q := reconcile_yields_iff.mpr (Or.inl ⟨hd.compatible, rfl⟩)
  refine ⟨x, hx, halike, ⟨q, hr⟩, fun r hr => ?_⟩
  exact (hf.expanded _ hx).nested r (halike.symm.nested hd.compatible hr)

/-- The search goes through every pair that the conversion leads to, or through one that names the
    same types. -/
theorem expanded_of_reaches {found : List Finding} (hn : c.NamesApart p)
    (h : (c.collect note p.1 p.2).Yields [] found met') (hq : c.Reaches p q) :
    c.Expanded met' q := by
  obtain ⟨hf, hp⟩ := collect_finds h
  -- Along the way each pair is either expanded itself or stands behind a name that was met.
  induction hq with
  | refl => exact hp
  | tail hpr hrq ih =>
    have hreached := ReflTransGen.tail hpr hrq
    cases ih.nested _ hrq with
    | helper hd hm =>
      obtain ⟨-, -, -, he⟩ := hf.expanded_of_delegates hn hreached hd hm
      exact he
    | inPlace _ hr hnested => exact ⟨hr, hnested⟩

/-! ## Helpers and requests -/

/-- A helper is the guard, the code for its position and the return of what was built, between the
    types of the two sides. -/
theorem helper_yields {x : HelperSite} {h : Helper} : (c.helper name x).Yields h ↔
    ∃ param result code, c.sourceRef x.source = .ok param ∧ c.targetRef x.target = .ok result ∧
      (c.inline x.inner).Yields code ∧
      h = { name, param, result, body := x.guard ++ code ++ [.ret [.ident "res"]] } := by
  unfold helper
  simp only [Walk.yields_bind, Walk.yields_liftM, Walk.yields_pure]
  constructor
  · intro h
    obtain ⟨param, hp, result, hr, code, hcode, rfl⟩ := h
    exact ⟨param, result, code, hp, hr, hcode, rfl⟩
  · intro h
    obtain ⟨param, result, code, hp, hr, hcode, rfl⟩ := h
    exact ⟨param, hp, result, hr, code, hcode, rfl⟩

/-- A request succeeds if both walks do. The first walk builds the code of the request and knows
    nothing of helpers; the second looks for the helpers and does not look at the code. All results
    about requests are put together from results about these two. -/
theorem compile_yields {out : Compiled} : (c.compile s).Yields met out met' ↔
    (c.inline s).Yields out.body ∧
      ∃ made, (c.collect c.helper s.source s.target).Yields met made met' ∧
        out.helpers = Helper.sorted made := by
  unfold compile helpers
  simp only [HelperWalk.yields_bind, HelperWalk.yields_liftM, HelperWalk.yields_pure]
  constructor
  · intro h
    obtain ⟨body, _, ⟨hbody, rfl⟩, sorted, _, ⟨made, _, hmade, rfl, rfl⟩, rfl, rfl⟩ := h
    exact ⟨hbody, made, hmade, rfl⟩
  · intro h
    obtain ⟨hbody, made, hmade, hout⟩ := h
    exact ⟨out.body, met, ⟨hbody, rfl⟩, _, met', ⟨made, met', hmade, rfl, rfl⟩, by rw [← hout], rfl⟩

theorem sorted_perm (helpers : List Helper) : (Helper.sorted helpers).Perm helpers :=
  List.mergeSort_perm _ _

/-- Helpers of different names are sorted strictly. This is what makes the order of a file
    independent of the order of the search. -/
theorem sorted_pairwise {helpers : List Helper} (h : (helpers.map (·.name)).Nodup) :
    ((Helper.sorted helpers).map (·.name)).Pairwise (· < ·) := by
  have hle : (Helper.sorted helpers).Pairwise fun a b => a.name ≤ b.name := by
    refine (List.pairwise_mergeSort ?_ ?_ helpers).imp fun hab => of_decide_eq_true hab
    · intro a b d hab hbd
      rw [decide_eq_true_iff] at hab hbd ⊢
      exact hab.trans hbd
    · intro a b
      rw [Bool.or_eq_true, decide_eq_true_iff, decide_eq_true_iff]
      exact le_total a.name b.name
  have hne : ((Helper.sorted helpers).map (·.name)).Nodup :=
    ((sorted_perm helpers).map _).nodup_iff.mpr h
  rw [List.Nodup, List.pairwise_map] at hne
  rw [List.pairwise_map]
  exact (hle.and hne).imp fun hab => lt_of_le_of_ne hab.1 hab.2

/-- What is made of a finding bears the name under which it was met. -/
theorem MadeOf.names {found : List Finding} {made : List Helper} (h : MadeOf c.helper found made) :
    made.map (·.name) = found.map Prod.fst := by
  induction h with
  | nil => rfl
  | cons hmade _ ih =>
    obtain ⟨_, _, _, -, -, -, rfl⟩ := helper_yields.mp hmade
    rw [List.map_cons, List.map_cons, ih]

/-! ## Calls and helpers -/

/-- The helper is the one for a site: it has the name that is called there, and its types are those
    of what is converted there. -/
structure Serves (c : Conversion) (h : Helper) (t : Site) : Prop where
  named : c.helperName t.source t.target = .ok h.name
  param : c.sourceRef t.source = .ok h.param
  result : c.targetRef t.target = .ok h.result

/-- A call in the code of the site `s` calls the helper for a site nested in it, on the value of
    that site. Of the helpers, this one alone has its name. -/
def Answered (c : Conversion) (helpers : List Helper) (s : Site) (call : Call) : Prop :=
  ∃ t h, c.CallsAt s t ∧ h ∈ helpers ∧ c.Serves h t ∧ call = (h.name, [t.value]) ∧
    ∀ k ∈ helpers, k.name = h.name → k = h

/-- The check for nil at the head of a helper calls nothing. -/
theorem guard_calls (x : HelperSite) : x.guard.calls = [] := by
  unfold HelperSite.guard
  split
  · exact Block.calls_nil
  · rw [Block.calls_cons, Stmt.calls_when, Expr.isNil, Expr.calls, Expr.calls, Expr.calls,
      Block.calls_cons, Stmt.calls, Expr.callsAll, Expr.calls, Expr.callsAll, Block.calls_nil]
    rfl

/-- The helper that is called for a pair that the request leads to is one of its helpers. This is
    where names have to tell helpers apart: the search goes by names, and a name may have been met
    for another pair. -/
theorem exists_serves {helpers : List Helper} {found : List Finding} (hn : c.NamesApart p)
    (hfound : (c.collect note p.1 p.2).Yields [] found met')
    (hmade : ∀ x ∈ found, ∃ h ∈ helpers, (c.helper x.1 x.2).Yields h) (hq : c.Reaches p q)
    (hqt : c.Nested q t.pair) (hd : c.Delegates t.pair name) :
    ∃ h ∈ helpers, h.name = name ∧ c.Serves h t := by
  -- A call is made, so the search did not go through the pair in place: it met a helper.
  cases (expanded_of_reaches hn hfound hq).nested _ hqt with
  | inPlace hf => exact absurd (hd.calls.unique hf) (by simp)
  | @helper _ name' hd' hm =>
    obtain rfl : name = name' := Except.ok.inj (hd.named.symm.trans hd'.named)
    obtain ⟨x, hx, ⟨⟨i, hi⟩, ⟨j, hj⟩⟩, -⟩ :=
      (collect_finds hfound).1.expanded_of_delegates hn (hq.tail hqt) hd hm
    obtain ⟨h, hh, hyields⟩ := hmade _ hx
    obtain ⟨param, result, code, hparam, hresult, -, rfl⟩ := helper_yields.mp hyields
    have hsource : c.sourceRef x.source = c.sourceRef t.source := hi.typeRef_eq
    have htarget : c.targetRef x.target = c.targetRef t.target := hj.typeRef_eq
    exact ⟨_, hh, rfl, hd.named, hsource ▸ hparam, htarget ▸ hresult⟩

/-- The code in place of a pair that the request leads to calls helpers of the request. It holds
    alike for the body of the request and of a helper, which are both code in place. -/
theorem answered {helpers : List Helper} {found : List Finding} (hn : c.NamesApart p)
    (hfound : (c.collect note p.1 p.2).Yields [] found met')
    (hmade : ∀ x ∈ found, ∃ h ∈ helpers, (c.helper x.1 x.2).Yields h)
    (hnames : (helpers.map (·.name)).Nodup) (hs : s.Silent) (hr : c.Reaches p s.pair)
    {code : Block} (hcode : (c.inline s).Yields code) :
    ∀ call ∈ code.calls, c.Answered helpers s call := by
  intro call hcall
  obtain ⟨t, hst, name, hname, rfl⟩ := attrWithin_calls hs hcode call hcall
  obtain ⟨q, hsq, hqt⟩ := hst.nested
  have hcalls : (c.callsHelper t.source t.target).Yields true :=
    let ⟨_, _, _, _, _, h⟩ := hst; h
  have hd : c.Delegates t.pair name := ⟨hcalls, hname⟩
  obtain ⟨h, hh, rfl, hserves⟩ := exists_serves hn hfound hmade (hr.trans hsq) hqt hd
  exact ⟨t, h, hst, hh, hserves, rfl, fun k hk hkh => List.inj_on_of_nodup_map hnames hk hh hkh⟩

/-- What a request from the names `met` delivers. Which names are met by the end is settled whether
    or not names tell the pairs apart; who answers the calls is not. -/
structure Closed (c : Conversion) (s : Site) (met : List String) (out : Compiled)
    (met' : List String) : Prop where
  sorted : (out.helpers.map (·.name)).Pairwise (· < ·)
  /-- The names of the helpers are those that are met for the first time. -/
  names : met'.Perm (out.helpers.map (·.name) ++ met)
  disjoint : (out.helpers.map (·.name)).Disjoint met
  body : met = [] → ∀ call ∈ out.body.calls, c.Answered out.helpers s call
  helpers : met = [] → ∀ h ∈ out.helpers, ∃ x : HelperSite, (c.helper h.name x).Yields h ∧
    ∀ call ∈ h.body.calls, c.Answered out.helpers x.inner call

/-! ## A registry with one type -/

/-- One type has but one pair of types. Examples about one type need no more than this to have names
    that tell helpers apart. -/
theorem namesApart_of_singleton {t : UserType} (h : c.registry.types = [t]) (p : Pair) :
    c.NamesApart p := by
  have only : ∀ {q name}, c.Delegates q name →
      q.1.userId? = some t.id ∧ q.2.userId? = some t.id := by
    intro q name hd
    obtain ⟨⟨u, hu, hs⟩, v, hv, ht⟩ := hd.known
    rw [h, List.mem_singleton] at hu hv
    exact ⟨hu ▸ hs, hv ▸ ht⟩
  intro q r name _ _ hq hr
  exact ⟨⟨t.id, (only hq).1, (only hr).1⟩, ⟨t.id, (only hq).2, (only hr).2⟩⟩

/-! ## Requests -/

/-- The helpers of a request are in the order of their names, and these are exactly the names that
    are met for the first time. If none was met before and names tell the pairs apart, then whatever
    the request or one of its helpers calls is one of the helpers, and the one for what is converted
    there. -/
theorem compile_closed (c : Conversion) (a b : Attribute) (value place : String) (declare : Bool)
    (depth : Nat) (inBox : Bool) (met met' : List String) (out : Compiled)
    (hn : c.NamesApart (a, b))
    (h : (c.compile (.between a b value place declare depth inBox)).Yields met out met') :
    c.Closed (.between a b value place declare depth inBox) met out met' := by
  obtain ⟨hbody, made, hmade, hout⟩ := compile_yields.mp h
  -- The helpers are made along the way, so the notes of the search are recovered first.
  obtain ⟨found, hfound, hmadeOf⟩ := collect_factors (p := (a, b)) hmade
  obtain ⟨hf, -⟩ := collect_finds hfound
  have hperm : (out.helpers.map (·.name)).Perm (found.map Prod.fst) := by
    rw [hout, ← hmadeOf.names]
    exact (sorted_perm made).map _
  have hnames : (out.helpers.map (·.name)).Nodup := hperm.nodup_iff.mpr hf.nodup
  have hbuilt : ∀ x ∈ found, ∃ h ∈ out.helpers, (c.helper x.1 x.2).Yields h := by
    intro x hx
    obtain ⟨h, hh, hyields⟩ := forall₂_mem_left hmadeOf hx
    exact ⟨h, hout ▸ (sorted_perm made).mem_iff.mpr hh, hyields⟩
  constructor
  case sorted =>
    rw [hout]
    exact sorted_pairwise (hmadeOf.names ▸ hf.nodup)
  case names =>
    rw [hf.met_eq]
    exact ((List.reverse_perm _).trans hperm.symm).append_right met
  case disjoint =>
    intro name hname hmet
    obtain ⟨x, hx, rfl⟩ := List.mem_map.mp (hperm.mem_iff.mp hname)
    exact hf.fresh x hx hmet
  case body =>
    rintro rfl
    exact answered hn hfound hbuilt hnames (.between ..) .refl hbody
  case helpers =>
    rintro rfl h hh
    obtain ⟨⟨name, x⟩, hx, hyields⟩ :=
      forall₂_mem_right hmadeOf ((sorted_perm made).mem_iff.mp (hout ▸ hh))
    obtain ⟨param, result, code, -, -, hcode, hshape⟩ := helper_yields.mp hyields
    refine ⟨x, by rw [hshape] at hyields ⊢; exact hyields, fun call hcall => ?_⟩
    -- Neither the guard in front of the code nor the return behind it calls anything.
    refine answered hn hfound hbuilt hnames (.between ..) (hf.reached _ hx) hcode call ?_
    rw [hshape, Block.calls_append, Block.calls_append, guard_calls, Block.calls_cons, Stmt.calls,
      Expr.callsAll, Expr.calls, Expr.callsAll, Block.calls_nil] at hcall
    simpa using hcall

/-- A type that holds itself. -/
def nodeRegistry : Registry where
  types := [{ id := "Node", name := "Node",
              definition := { type := .object [("next", .user "Node")] } }]

/-- An object that holds a list of nodes. The request for it calls a helper that calls itself. -/
def nodeHolder : Attribute := { type := .object [("nodes", { type := .array (.user "Node") })] }

def nodeConversion : Conversion where
  scope := .ofRegistry nodeRegistry
  source := .service
  target := .body

/-- A list of nodes: its helper calls itself, and both calls are of the one helper there is. The
    second call is met when the helper is there already, and is not followed again. -/
theorem compile_closed_node : nodeConversion.NamesApart (nodeHolder, nodeHolder) ∧
    ∃ out met',
      (nodeConversion.compile (.between nodeHolder nodeHolder "v" "res")).Yields [] out met' ∧
      nodeConversion.Closed (.between nodeHolder nodeHolder "v" "res") [] out met' := by
  have hn : nodeConversion.NamesApart (nodeHolder, nodeHolder) := namesApart_of_singleton rfl _
  obtain ⟨out, met', h⟩ : ∃ out met',
      (nodeConversion.compile (.between nodeHolder nodeHolder "v" "res")).Yields [] out met' := by
    decide +kernel
  exact ⟨hn, out, met', h, compile_closed nodeConversion nodeHolder nodeHolder "v" "res" true 0
    false [] met' out hn h⟩

end Conversion
end Shapewright
