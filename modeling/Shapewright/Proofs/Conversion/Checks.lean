import Shapewright.Proofs.Conversion.Stability

/-!
# Helpers that check their parameter

A helper that may be called on nil has to look at its parameter first. Whether it does is settled
where the search meets its name: it does just when the source does not require the value there. No
other position of the helper is asked.

The elements of an array and the keys and elements of a map may be nil, and no test stands around
the call there. So a helper that is met first in a required field is called on such values without
any test (`tag_unchecked`).

## Reading the check off the code

A check is a statement at the head of a body (`Helper.ChecksNil`), so the theorem is about text: if
there was no guard, some emitter might still begin with a statement that looks like one. None does.
The place of a helper's result is a variable that is not declared yet, and all code for such a place
begins by declaring it (`Begins`), either with a value or without one. One case for each kind, and
two for boxes: with a box on the target side the box is stored first.

The theorem is one on the first meeting and not on the calls. To say that every helper which may be
called on nil checks would be wrong, as the example shows.
-/

namespace Shapewright

/-- Where the parameter is nil, the helper returns nil at once. Nothing stands in front of the test,
    so the parameter is not touched before it. -/
def Helper.ChecksNil (h : Helper) : Prop :=
  ∃ rest, h.body = .when (Expr.ident "v").isNil [.ret [.nil]] :: rest

namespace Conversion

open Relation

variable {c : Conversion} {emit : Emit} {s t : Site} {b : Block}

/-! ## How the code of a site begins -/

/-- The code begins by storing the result, or by declaring the variable that takes it. So its first
    statement is no check for nil, and the guard of a helper can be told from what follows it. -/
inductive Begins (s : Site) : Block → Prop where
  | store (e : Expr) (rest : Block) : Begins s (s.store e :: rest)
  | declare (name : String) (type : TypeRef) (rest : Block) :
      Begins s (.declare name type none :: rest)

theorem Begins.append (h : Begins s b) (more : Block) : Begins s (b ++ more) := by
  cases h with
  | store e rest => exact .store e (rest ++ more)
  | declare name type rest => exact .declare name type (rest ++ more)

theorem Begins.not_when {test : Expr} {body rest : Block} :
    ¬ Begins s (.when test body :: rest) := by
  intro h
  rw [Stmt.when] at h
  cases h

/-- For a union a variable is declared without a value, for the switch to store in. -/
theorem union_begins (hs : s.declare = true) (h : (c.union emit s).Yields b) : Begins s b := by
  obtain ⟨u, v, declared, cases, -, hdeclared, -, rfl⟩ := union_yields h
  unfold declaration at hdeclared
  rw [if_pos hs] at hdeclared
  split at hdeclared
  · simp only [Walk.yields_bind, Walk.yields_liftM, Walk.yields_pure] at hdeclared
    obtain ⟨type, -, rfl⟩ := hdeclared
    exact .declare _ type _
  · simp at hdeclared

/-- One case for each kind of the source. All but unions store something at once. A union declares
    its variable without a value, and that is no check for nil either. -/
theorem byKind_begins (hs : s.declare = true) (h : (c.byKind emit s).Yields b) : Begins s b := by
  obtain ⟨kind, target, -, -, ⟨-, -, rfl⟩ | ⟨-, h⟩⟩ := byKind_yields.mp h
  · exact .store _ _
  · cases kind with
    | array =>
      obtain ⟨x, y, type, body, -, -, -, -, rfl⟩ := array_yields.mp h
      exact .store _ _
    | map =>
      obtain ⟨k, x, l, y, keyType, elemType, keyCode, elemCode, -, -, -, -, -, -, rfl⟩ :=
        map_yields.mp h
      exact .store _ _
    | object =>
      obtain ⟨v, w, fields, code, type, later, -, -, -, -, -, -, rfl⟩ := object_yields h
      exact .store _ _
    | union => exact union_begins hs h
    | primitive p =>
      simp only [ofKind, primitive, Walk.yields_bind, Walk.yields_liftM, Walk.yields_pure] at h
      obtain ⟨result, -, rfl⟩ := h
      exact .store _ _

/-- A box of the target is stored before what is in it; a box of the source is only looked into.
    Whichever it is, the code of a body begins with no test of the parameter, so a test in front of
    it was put there by the helper. -/
theorem attrVia_begins (hs : s.declare = true) (h : (c.attrVia emit s).Yields b) :
    Begins s b := by
  obtain ⟨inner, box, code, ho, hcode, rfl, hbox⟩ := attrVia_yields h
  rcases hbox with ⟨rfl, rfl⟩ | ⟨why, hbox⟩
  · exact byKind_begins hs hcode
  · cases unboxed_yields hbox with
    | target type =>
      have hbox : Begins s [s.store (.allocate type [])] := .store (.allocate type []) []
      exact hbox.append code
    | source =>
      -- The place is the same inside the box.
      rw [List.nil_append]
      cases byKind_begins (by exact hs) hcode with
      | store e rest => exact .store e rest
      | declare name type rest => exact .declare name type rest

theorem inline_begins (hs : s.declare = true) (h : (c.inline s).Yields b) : Begins s b := by
  unfold inline at h
  cases hl : c.registry.pairBudget s.source s.target with
  | zero =>
    rw [hl] at h
    exact absurd h Walk.yields_exhausted
  | succ levels =>
    rw [hl] at h
    exact attrVia_begins hs h

/-! ## Which helpers check -/

/-- A helper checks its parameter just where it was built for a value that may be absent. What
    counts is the position the helper was built for, not the one that calls it. -/
theorem helper_checksNil_iff {name : String} {x : HelperSite} {h : Helper}
    (hyields : (c.helper name x).Yields h) : h.ChecksNil ↔ x.required = false := by
  obtain ⟨param, result, code, -, -, hcode, rfl⟩ := helper_yields.mp hyields
  have hbegins : Begins x.inner code := inline_begins rfl hcode
  unfold Helper.ChecksNil HelperSite.guard
  dsimp only
  cases x.required with
  | false =>
    rw [if_neg Bool.false_ne_true, List.append_assoc, List.singleton_append]
    exact ⟨fun _ => rfl, fun _ => ⟨_, rfl⟩⟩
  | true =>
    rw [if_pos rfl, List.nil_append]
    refine ⟨fun ⟨rest, hrest⟩ => ?_, fun h => absurd h (by simp)⟩
    exact absurd (hrest ▸ hbegins.append [.ret [.ident "res"]]) Begins.not_when

/-- A helper of a request checks its parameter just when the search first meets its name at a value
    that the source does not require. Where else it is called does not matter, so whether the check
    is there depends on the order of the fields. -/
theorem compile_checksNil_iff (c : Conversion) (s : Site) (out : Compiled) (met : List String)
    (h : (c.compile s).Yields [] out met) (k : Helper) (hk : k ∈ out.helpers) :
    ∃ x, c.Meets s k.name x ∧ (k.ChecksNil ↔ x.required = false) := by
  obtain ⟨x, hx, -, hyields⟩ := exists_meets h hk
  exact ⟨x, hx, helper_checksNil_iff hyields⟩

/-- The helper of the optional tag checks, whatever the target requires. -/
theorem compile_checksNil_iff_tag : ∃ out met k,
    (tagConversion.compile (tagSite false true)).Yields [] out met ∧ k ∈ out.helpers ∧
    ∃ x, tagConversion.Meets (tagSite false true) k.name x ∧
      (k.ChecksNil ↔ x.required = false) := by
  obtain ⟨out, met, h⟩ := exists_compile_tagSite false true
  obtain ⟨x, hx, -⟩ := tagSite_meets false true
  obtain ⟨k, hk, -⟩ := hx.exists_helper h
  exact ⟨out, met, k, h, hk, compile_checksNil_iff tagConversion (tagSite false true) out met h k
    hk⟩

/-! ## Helpers that are called on items -/

/-- The site is that of the elements of an array, or of the keys or the elements of a map. These are
    the positions where a nil may be found whatever is declared. -/
inductive Item (c : Conversion) (s : Site) : Site → Prop where
  | element {x y : Attribute} (hx : c.registry.elem? s.source = .ok (some x))
      (hy : c.registry.elem? s.target = .ok (some y)) : Item c s (s.element x y)
  | key {k x l y : Attribute} (hx : c.registry.entry? s.source = .ok (some (k, x)))
      (hy : c.registry.entry? s.target = .ok (some (l, y))) : Item c s (s.key k l)
  | entry {k x l y : Attribute} (hx : c.registry.entry? s.source = .ok (some (k, x)))
      (hy : c.registry.entry? s.target = .ok (some (l, y))) : Item c s (s.entry x y)

/-- The code of the site calls the helper on an item of a collection. The call need not be at the
    first level: the collection may be nested in code in place. -/
def CallsOnItem (c : Conversion) (s : Site) (name : String) : Prop :=
  ∃ u inner t, ReflTransGen c.InPlace s u ∧ c.Opens u inner ∧ c.Item inner t ∧
    (c.callsHelper t.source t.target).Yields true ∧ c.helperName t.source t.target = .ok name

/-- An object that requires a tag and holds a list of further tags. -/
def tagHolder : Attribute where
  type := .object [("tag", .user "Tag"), ("tags", { type := .array (.user "Tag") })]
  rules := { required := ["tag"] }

def tagHolderSite : Site := .between tagHolder tagHolder "v" "res"

/-- The tags of the list are converted by a helper that does not check for nil, because a required
    tag comes before the list. -/
theorem tag_unchecked : ∃ out met,
    (tagConversion.compile tagHolderSite).Yields [] out met ∧
    ∃ k ∈ out.helpers, tagConversion.CallsOnItem tagHolderSite k.name ∧
      (k.name, [.ident (loopValue 0)]) ∈ out.body.calls ∧ ¬ k.ChecksNil := by
  have hitem : tagConversion.CallsOnItem tagHolderSite "transformTagToTag" := by
    have hcompatible : (tagConversion.compatible tagHolderSite).Yields () := rfl
    have hplace : tagConversion.InPlace tagHolderSite _ := .unfolded (.plain hcompatible)
      (.field rfl rfl (List.mem_cons_of_mem _ List.mem_cons_self) rfl rfl) rfl
    exact ⟨_, _, _, .single hplace, .plain rfl, .element rfl rfl, rfl, rfl⟩
  obtain ⟨out, met, h, hcalls⟩ : ∃ out met,
      (tagConversion.compile tagHolderSite).Yields [] out met ∧
      out.body.calls = [("transformTagToTag", [.field (.ident "v") "Tag"]),
        ("transformTagToTag", [.ident (loopValue 0)])] := ⟨_, _, rfl, rfl⟩
  -- The search meets the pair at the required field first.
  obtain ⟨x, hx, hrequired⟩ : ∃ x,
      tagConversion.Meets tagHolderSite "transformTagToTag" x ∧ x.required = true :=
    ⟨_, ⟨_, _, rfl, List.mem_cons_self⟩, rfl⟩
  obtain ⟨k, hk, hname, -, hyields⟩ := hx.exists_helper h
  refine ⟨out, met, h, k, hk, hname ▸ hitem, ?_, fun hchecks => ?_⟩
  · rw [hname, hcalls]
    exact List.mem_cons_of_mem _ List.mem_cons_self
  · rw [helper_checksNil_iff hyields, hrequired] at hchecks
    exact absurd hchecks (by simp)

end Conversion
end Shapewright
