import Shapewright.Proofs.Conversion.Stores
import Shapewright.Proofs.Faults
import Shapewright.Proofs.Layout

/-!
# The alternatives of unions

The code of a union switches over the type of the value. It has one case for each alternative of the
source, in order, and the types of the cases are different unless a named object is listed twice or
two wrappers have one name (`Scope.ToldApart`). What a case leaves in the result has the type of the
target's alternative at the same position, so that a switch over the target finds that alternative
again.

The emitter looks at the alternative of the source alone. A named object is stored as what it
becomes, which is an alternative of the target only if that lists a named object at the position,
too (`Corresponds`). An object in place, or a value out of a box, should have been put into a
wrapper (`dog_unwrapped`), which is what becomes of the alternatives of all other kinds.

## Types, and not values

Alternatives of a union are told by the type of the value that stands for them. So what is proved of
a case is the type of what it stores: a new object, a wrapper, or whatever a helper returns.
`Expr.typeVia` reads it off the expression, given the results of the helpers, and is undefined for
variables, which are never what is stored in the end. `Block.Delivers` says that an expression is
the last one stored, in code that may declare variables of its own before.

The three ways a case can end are those of the emitter. A named object has a helper or is built in
place, a primitive is put into its wrapper at once, and for all else the content is built first, in
the variable `conv`.

## Coming back

`TakenFor` says what the claim is for: whatever switches over the target takes the value for the
alternative at the same position. It speaks of the code of any conversion from that union, not of a
switch in the abstract, so the two halves of the main theorem speak of the same emitter.
-/

namespace Shapewright

/-! ## Types of alternatives -/

namespace Scope

variable {s : Scope} {reg : Registry} {ctx : Context} {a : Attribute} {type type' : TypeRef}
  {union : String} {alternatives : List (String × Attribute)} {x y : String × Attribute} {i j : Nat}

/-- Two alternatives that have one type: both are the same named object, or their wrappers have one
    name. -/
inductive SameType (s : Scope) (x y : String × Attribute) : Prop where
  | object {id : TypeId} (hx : s.isNamedObject x.2 = .ok true) (hi : x.2.userId? = some id)
      (hj : y.2.userId? = some id) : SameType s x y
  | wrapper (hx : s.isNamedObject x.2 = .ok false) (hy : s.isNamedObject y.2 = .ok false)
      (hname : x.2.fieldName x.1 = y.2.fieldName y.1) : SameType s x y

/-- No two of the alternatives have one type. A switch over types cannot have two cases for one
    type, so this is what unions need to be of use. -/
def ToldApart (s : Scope) (alternatives : List (String × Attribute)) : Prop :=
  alternatives.Pairwise fun x y => ¬ s.SameType x y

/-- The type of an alternative is that of the named object, or that of its wrapper. The index picks
    the alternative, and the name of a wrapper is made of the union's and the alternative's. Which
    of the two it is depends on the alternative alone. -/
theorem alternativeRef_eq_ok : s.alternativeRef ctx union alternatives i = .ok type ↔
    ∃ x, alternatives[i]? = some x ∧
      ((s.isNamedObject x.2 = .ok true ∧ s.typeRef ctx x.2 = .ok type) ∨
        (s.isNamedObject x.2 = .ok false ∧
          type = ctx.qualify (Identifier.exported union ++ x.2.fieldName x.1))) := by
  unfold alternativeRef
  cases alternatives[i]? with
  | none => simp
  | some x =>
    simp only [except_bind_eq_ok, Option.some.injEq, exists_eq_left']
    constructor
    · intro h
      obtain ⟨isNamed, hn, h⟩ := h
      cases isNamed with
      | true => exact Or.inl ⟨hn, h⟩
      | false => exact Or.inr ⟨hn, (Except.ok.inj h).symm⟩
    · intro h
      rcases h with ⟨hn, h⟩ | ⟨hn, rfl⟩
      · exact ⟨true, hn, h⟩
      · exact ⟨false, hn, rfl⟩

theorem isNamedObject_congr {id : TypeId} {b : Attribute} (h : Attribute.BothRefer id a b) :
    s.isNamedObject a = s.isNamedObject b := by
  unfold isNamedObject
  rw [h.left, h.right, h.kind_eq]

/-- A named object is held behind a pointer to its type. No wrapper is. The name in the type is that
    of the reference, from which the alternative can be told again. -/
theorem typeRef_of_isNamedObject (hn : s.isNamedObject a = .ok true)
    (h : s.typeRef ctx a = .ok type) : ∃ id name, a.userId? = some id ∧ s.name id = .ok name ∧
      type = .pointer (ctx.qualify name) := by
  obtain ⟨hid, hk⟩ := isNamedObject_eq_true.mp hn
  obtain ⟨id, hid⟩ := Option.isSome_iff_exists.mp hid
  have hboth : Attribute.BothRefer id a (.user id) := ⟨hid, rfl⟩
  rw [hboth.typeRef_eq] at h
  unfold typeRef Attribute.user userRef at h
  simp only [except_bind_eq_ok] at h
  obtain ⟨name, hname, kind, hkind, h⟩ := h
  obtain rfl : kind = .object :=
    Except.ok.inj (hkind.symm.trans (hboth.kind_eq ▸ hk))
  exact ⟨id, name, hid, hname, (Except.ok.inj h).symm⟩

theorem qualify_inj {name name' : String} (h : ctx.qualify name = ctx.qualify name') :
    name = name' := by
  rw [Context.qualify, Context.qualify, TypeRef.qualified, TypeRef.qualified,
    TypeRef.named.injEq] at h
  exact h.2

theorem SameType.symm (h : s.SameType x y) : s.SameType y x := by
  cases h with
  | object hx hi hj => exact .object (isNamedObject_congr ⟨hi, hj⟩ ▸ hx) hj hi
  | wrapper hx hy hname => exact .wrapper hy hx hname.symm

/-- A named object is behind a pointer, and a wrapper is not. This settles the mixed pairs in
    `alternativeRef_eq_iff`, where one alternative is of either sort. -/
theorem typeRef_ne_qualify {name : String} (hx : s.isNamedObject x.2 = .ok true)
    (hy : s.isNamedObject y.2 = .ok false) (h : s.typeRef ctx x.2 = .ok type) :
    type ≠ ctx.qualify name ∧ ¬ s.SameType x y := by
  constructor
  · obtain ⟨id, own, -, -, rfl⟩ := typeRef_of_isNamedObject hx h
    exact TypeRef.noConfusion
  · intro h
    cases h with
    | object _ hi hj =>
      rw [isNamedObject_congr ⟨hi, hj⟩, hy] at hx
      cases hx
    | wrapper hx' =>
      rw [hx'] at hx
      cases hx

/-- The types of two alternatives are the same just where nothing tells the alternatives apart. For
    named objects this needs that types of a registry have different identifiers. -/
theorem alternativeRef_eq_iff (hi : alternatives[i]? = some x) (hj : alternatives[j]? = some y)
    (h : (ofRegistry reg).alternativeRef ctx union alternatives i = .ok type)
    (h' : (ofRegistry reg).alternativeRef ctx union alternatives j = .ok type') :
    type = type' ↔ (ofRegistry reg).SameType x y := by
  obtain ⟨x', hx', h⟩ := alternativeRef_eq_ok.mp h
  obtain rfl := Option.some.inj (hi.symm.trans hx')
  obtain ⟨y', hy', h'⟩ := alternativeRef_eq_ok.mp h'
  obtain rfl := Option.some.inj (hj.symm.trans hy')
  -- A named object is stored behind its own pointer, and any other alternative in a wrapper type
  -- that is named after it: no type of the one sort is a type of the other.
  rcases h with ⟨hx, h⟩ | ⟨hx, rfl⟩ <;> rcases h' with ⟨hy, h'⟩ | ⟨hy, rfl⟩
  · constructor
    · intro heq
      subst heq
      obtain ⟨id, name, hid, hname, rfl⟩ := typeRef_of_isNamedObject hx h
      obtain ⟨id', name', hid', hname', heq⟩ := typeRef_of_isNamedObject hy h'
      have hnames : name = name' := qualify_inj (TypeRef.pointer.inj heq)
      obtain rfl : id = id' := name_injective hname (hnames ▸ hname')
      exact .object hx hid hid'
    · intro hsame
      cases hsame with
      | object _ hid hid' =>
        have hboth : Attribute.BothRefer _ x.2 y.2 := ⟨hid, hid'⟩
        rw [hboth.typeRef_eq] at h
        exact Except.ok.inj (h.symm.trans h')
      | wrapper hx' => exact absurd (hx.symm.trans hx') (by simp)
  · obtain ⟨hne, hnot⟩ := typeRef_ne_qualify hx hy h
    exact iff_of_false hne hnot
  · obtain ⟨hne, hnot⟩ := typeRef_ne_qualify hy hx h'
    exact iff_of_false hne.symm fun hsame => hnot hsame.symm
  · constructor
    · intro heq
      have hnames := qualify_inj heq
      exact .wrapper hx hy ((String.append_right_inj _).mp hnames)
    · intro hsame
      cases hsame with
      | object hx' => exact absurd (hx.symm.trans hx') (by simp)
      | wrapper _ _ hname => rw [hname]

end Scope

/-! ## What a block leaves in a variable -/

/-- The type that an expression gives to its value, where calls have the results `results`. The
    types of variables and of what they hold are up to their declarations. -/
def Expr.typeVia (results : String → Option TypeRef) : Expr → Option TypeRef
  | .lit _ type => some type
  | .call func _ => results func
  | .convert type _ => some type
  | .assert _ type => some type
  | .composite type _ address => some (if address then .pointer type else type)
  | .sliceLit elem _ => some (.slice elem)
  | .make type _ => some type
  | _ => none

theorem Expr.typeVia_allocate (results : String → Option TypeRef) (type : TypeRef)
    (fields : List (String × Expr)) : (Expr.allocate type fields).typeVia results = some type := by
  unfold Expr.allocate
  split <;> rfl

/-- The block stores the value of the expression in the variable `name`, which is one of a block
    around it, and nothing behind that stores anything else there. -/
inductive Block.Delivers (name : String) (value : Expr) : Block → Prop where
  | intro {before after : Block} (hb : name ∉ before.declares) (ha : after.Spares name) :
      Delivers name value (before ++ .set (.ident name) value :: after)

theorem Block.Delivers.first {name : String} {after : Block} (value : Expr)
    (h : after.Spares name) : Delivers name value (.set (.ident name) value :: after) :=
  @Delivers.intro name value [] after List.not_mem_nil h

theorem Block.delivers_set (name : String) (value : Expr) :
    Delivers name value [.set (.ident name) value] :=
  .first value (Block.spares_nil name)

theorem Block.Delivers.eq_of_set {name : String} {value stored place : Expr}
    (h : Delivers name value [.set place stored]) : value = stored := by
  generalize hb : [Stmt.set place stored] = b at h
  cases h with
  | intro =>
    obtain ⟨-, heq⟩ := List.append_eq_singleton_iff.mp hb.symm |>.resolve_right (by simp)
    rw [Stmt.set, Stmt.set, List.cons.injEq, Stmt.assign.injEq] at heq
    exact heq.1.2.1

/-- The result of the helper of a name. -/
def Helper.resultOf? (helpers : List Helper) (name : String) : Option TypeRef :=
  (helpers.find? (·.name == name)).map (·.result)

/-- The number of the case that a type switch takes for a value of a type: that of the first one for
    the type. -/
def caseOf? (cases : List (TypeRef × Block)) (type : TypeRef) : Option Nat :=
  cases.findIdx? (·.1 == type)

/-- Where the cases have different types, each is taken for its own. -/
theorem caseOf?_of_nodup {cases : List (TypeRef × Block)} (hn : (cases.map Prod.fst).Nodup)
    {i : Nat} {type : TypeRef} {body : Block} (h : cases[i]? = some (type, body)) :
    caseOf? cases type = some i := by
  obtain ⟨hi, hcase⟩ := List.getElem?_eq_some_iff.mp h
  rw [List.Nodup, List.pairwise_map, List.pairwise_iff_getElem] at hn
  refine List.findIdx?_eq_some_iff_getElem.mpr ⟨hi, by simp [hcase], fun j hj => ?_⟩
  have hne := hn j i (hj.trans hi) hi hj
  rw [hcase] at hne
  simpa using hne

namespace Conversion

variable {c : Conversion} {emit : Emit} {s t : Site} {b : Block} {name : String} {u w : UnionType}
  {levels i : Nat} {a d : Attribute}

/-! ## The cases of a switch -/

/-- The cases of a switch from the alternative at `index` on: one for each pair of alternatives. The
    index of an alternative counts in both unions at once, so the `i`-th case faces the `i`-th
    alternative of the target. -/
theorem cases_getElem? : ∀ {pairs : List (Attribute × Attribute)} {index : Nat}
    {cases : List (TypeRef × Block)}, (c.cases emit s u w index pairs).Yields cases →
      cases.length = pairs.length ∧ ∀ i type body, cases[i]? = some (type, body) →
        c.scope.alternativeRef c.source u.1 u.2 (index + i) = .ok type ∧
          ∃ a d, pairs[i]? = some (a, d) ∧
            (c.alternative emit s w (index + i) a d).Yields body := by
  intro pairs
  induction pairs with
  | nil =>
    intro index cases h
    rw [Conversion.cases, Walk.yields_pure] at h
    subst h
    exact ⟨rfl, fun i type body h => by simp at h⟩
  | cons pair rest ih =>
    obtain ⟨a, d⟩ := pair
    intro index cases h
    rw [Conversion.cases] at h
    simp only [Walk.yields_bind, Walk.yields_liftM, Walk.yields_pure] at h
    obtain ⟨type, htype, body, hbody, others, hothers, rfl⟩ := h
    obtain ⟨hlength, hcases⟩ := ih hothers
    -- The alternatives of the rest are counted from `index + 1`, so a position in the list and the
    -- index of an alternative always differ by `index`.
    refine ⟨by rw [List.length_cons, List.length_cons, hlength], fun i type' body' h => ?_⟩
    cases i with
    | zero =>
      rw [List.getElem?_cons_zero, Option.some.injEq, Prod.mk.injEq] at h
      obtain ⟨rfl, rfl⟩ := h
      exact ⟨htype, a, d, rfl, hbody⟩
    | succ i =>
      rw [List.getElem?_cons_succ] at h
      obtain ⟨htype, a', d', hpair, hbody⟩ := hcases i type' body' h
      rw [← Nat.add_right_comm] at htype hbody
      exact ⟨htype, a', d', hpair, hbody⟩

/-- The code switches over a value of the union: there is one case for each alternative, in order,
    and nothing but the declaration of the result in front. -/
structure SwitchOver (c : Conversion) (s : Site) (u : UnionType) (b : Block)
    (cases : List (TypeRef × Block)) : Prop where
  code : ∃ declared, b = declared ++ [.typeSwitch "actual" s.value cases] ∧
    ∀ stmt ∈ declared, ∃ name type, s.place = .ident name ∧ stmt = .declare name type none
  length : cases.length = u.2.length
  types : ∀ i type body, cases[i]? = some (type, body) →
    c.scope.alternativeRef c.source u.1 u.2 i = .ok type
  /-- The cases have different types just where the alternatives can be told apart. -/
  apart : (cases.map Prod.fst).Nodup ↔ c.scope.ToldApart u.2

/-- The alternatives of both unions at one position. -/
theorem zip_getElem?_eq_some {pair : Attribute × Attribute}
    (h : ((u.2.map Prod.snd).zip (w.2.map Prod.snd))[i]? = some pair) :
    ∃ x y, u.2[i]? = some x ∧ w.2[i]? = some y ∧ pair = (x.2, y.2) := by
  rw [List.getElem?_zip_eq_some, List.getElem?_map, List.getElem?_map, Option.map_eq_some_iff,
    Option.map_eq_some_iff] at h
  obtain ⟨⟨x, hx, hfst⟩, y, hy, hsnd⟩ := h
  exact ⟨x, y, hx, hy, by rw [hfst, hsnd]⟩

/-- The switch has a case for each alternative, by the loop over pairs of alternatives. What is left
    open here is which cases can be told apart; that depends on the scope and is added by
    `alternativeRef_eq_iff`. -/
theorem union_switches (hc : c.scope = .ofRegistry c.registry) (hlength : u.2.length = w.2.length)
    {declared : Block} {cases : List (TypeRef × Block)} (hd : (c.declaration s).Yields declared)
    (h : (c.cases emit s u w 0 ((u.2.map Prod.snd).zip (w.2.map Prod.snd))).Yields cases) :
    c.SwitchOver s u (declared ++ [.typeSwitch "actual" s.value cases]) cases := by
  obtain ⟨hcount, hcases⟩ := cases_getElem? h
  have hcount : cases.length = u.2.length := by simpa [hlength] using hcount
  -- The switch starts at the first alternative, where index and position are one.
  have htypes : ∀ i type body, cases[i]? = some (type, body) →
      c.scope.alternativeRef c.source u.1 u.2 i = .ok type := by
    intro i type body hi
    have htype := (hcases i type body hi).1
    rwa [Nat.zero_add] at htype
  constructor
  case code =>
    refine ⟨declared, rfl, fun stmt hm => ?_⟩
    unfold declaration at hd
    split at hd
    · split at hd
      · rename_i name hp
        simp only [Walk.yields_bind, Walk.yields_liftM, Walk.yields_pure] at hd
        obtain ⟨type, -, rfl⟩ := hd
        exact ⟨name, type, hp, List.mem_singleton.mp hm⟩
      · simp at hd
    · rw [Walk.yields_pure] at hd
      subst hd
      exact absurd hm List.not_mem_nil
  case length => exact hcount
  case types => exact htypes
  case apart =>
    rw [List.Nodup, List.pairwise_map, List.pairwise_iff_getElem, Scope.ToldApart,
      List.pairwise_iff_getElem]
    -- Cases and alternatives are compared pair by pair: two cases have one type just where their
    -- alternatives are of the same type.
    have hsame : ∀ i j (hi : i < cases.length) (hj : j < cases.length) (hi' : i < u.2.length)
        (hj' : j < u.2.length),
        cases[i].1 = cases[j].1 ↔ c.scope.SameType u.2[i] u.2[j] := by
      intro i j hi hj hi' hj'
      have hti := htypes i _ _ (List.getElem?_eq_getElem hi)
      have htj := htypes j _ _ (List.getElem?_eq_getElem hj)
      rw [hc] at hti htj ⊢
      exact Scope.alternativeRef_eq_iff (List.getElem?_eq_getElem hi')
        (List.getElem?_eq_getElem hj') hti htj
    constructor
    · intro hne i j hi hj hij
      rw [← hcount] at hi hj
      exact fun h => hne i j hi hj hij ((hsame i j hi hj _ _).mpr h)
    · intro hne i j hi hj hij
      rw [hcount] at hi hj
      exact fun h => hne i j hi hj hij ((hsame i j _ _ hi hj).mp h)

/-! ## What a case stores -/

/-- A named object among the alternatives of the source faces a named object. Otherwise the case
    stores what the named object becomes, without the wrapper that the target has for it. -/
def Corresponds (c : Conversion) (u w : UnionType) (i : Nat) : Prop :=
  ∀ x y, u.2[i]? = some x → w.2[i]? = some y → c.scope.isNamedObject x.2 = .ok true →
    c.scope.isNamedObject y.2 = .ok true

/-- The result is in a variable, and what goes into wrappers leaves no variable of that name for a
    field behind. Otherwise the wrapper would be stored in that one. -/
structure Visible (c : Conversion) (s : Site) (name : String) : Prop where
  place : s.place = .ident name
  reserved : ¬ Reserved name
  leaves : ∀ t, c.Wraps s t → ¬ c.Leaves t name

/-- The box of the target is a new value of the target's type. So the code of the content does not
    start with an allocation of its own, but with that of the box. -/
theorem unboxed_target {why : Fault} {box : Block} {inner : Site} (hw : c.wire = .target)
    (h : (c.unboxed s why).Yields (box, inner)) :
    ∃ type, c.targetRef s.target = .ok type ∧ box = [s.store (.allocate type [])] ∧
      inner.place = s.place.field boxFieldName := by
  unfold unboxed at h
  rw [hw] at h
  simp only [Walk.yields_bind, Walk.yields_liftM] at h
  obtain ⟨content, -, h⟩ := h
  cases content with
  | none => simp at h
  | some content =>
    simp only [Walk.yields_bind, Walk.yields_liftM, Walk.yields_pure, Prod.mk.injEq] at h
    obtain ⟨type, htype, rfl, rfl⟩ := h
    exact ⟨type, htype, rfl, rfl⟩

/-- The box of the source is opened where the value is read. Nothing is stored for it, and the
    target is the one that it was before. -/
theorem unboxed_source {why : Fault} {box : Block} {inner : Site} (hw : c.wire = .source)
    (h : (c.unboxed s why).Yields (box, inner)) :
    box = [] ∧ inner.target = s.target ∧ inner.place = s.place ∧ inner.declare = s.declare := by
  unfold unboxed at h
  rw [hw] at h
  simp only [Walk.yields_bind, Walk.yields_liftM] at h
  obtain ⟨content, -, h⟩ := h
  cases content with
  | none => simp at h
  | some content =>
    simp only [Walk.yields_pure, Prod.mk.injEq] at h
    obtain ⟨rfl, rfl⟩ := h
    exact ⟨rfl, rfl, rfl, rfl⟩

section Objects

variable (hn : ¬ Reserved name) (hp : s.place = .ident name) (hd : s.declare = false)
  (hk : c.registry.kind s.target = .ok .object)
include hn hp hd hk

/-- Objects are made from objects only, and their code starts with a new one. That is why the result
    of an alternative has the type of a new object: the other kinds are stored in wrappers. -/
theorem byKind_delivers (hc : (c.registry.compatible s.source s.target {}).Yields ())
    (h : (c.byKind (c.attrWithin levels) s).Yields b) :
    ∃ type fields, c.targetRef s.target = .ok type ∧ b.Delivers name (.allocate type fields) := by
  have hsource : c.registry.kind s.source = .ok .object := by
    obtain ⟨kind, target, hkind, htarget, hkinds⟩ := Registry.kinds_of_compatible hc
    obtain rfl : target = .object := Except.ok.inj (htarget.symm.trans hk)
    exact hkinds.resolve_left (by simp) ▸ hkind
  obtain ⟨kind, target, hkind, htarget, ⟨rfl, -, -⟩ | ⟨-, hcode⟩⟩ := byKind_yields.mp h
  · cases htarget.symm.trans hk
  · obtain rfl : kind = .object := Except.ok.inj (hkind.symm.trans hsource)
    obtain ⟨type, fields, rest, htype, rfl, hrest⟩ :=
      object_stores hn (by rw [hp, Expr.derefs]) hcode
    refine ⟨type, fields, htype, ?_⟩
    rw [Site.store, hp, hd]
    exact .first _ hrest

/-- Code in place for an object starts with a new one, or with a box for it. In both cases the type
    is that of the target, which is what a case of the switch has to deliver. -/
theorem attrWithin_delivers (h : (c.attrWithin levels s).Yields b) :
    ∃ type fields, c.targetRef s.target = .ok type ∧ b.Delivers name (.allocate type fields) := by
  cases levels with
  | zero => exact absurd h Walk.yields_exhausted
  | succ levels =>
    obtain ⟨inner, box, code, ho, hcode, rfl, ⟨rfl, rfl⟩ | ⟨why, hbox⟩⟩ := attrVia_yields h
    · exact byKind_delivers hn hp hd hk ho.compatible hcode
    · cases hw : c.wire with
      | source =>
        obtain ⟨rfl, htarget, hplace, hdeclare⟩ := unboxed_source hw hbox
        obtain ⟨type, fields, htype, hdelivers⟩ := byKind_delivers hn (hplace.trans hp)
          (hdeclare.trans hd) (by rw [htarget, hk]) ho.compatible hcode
        exact ⟨type, fields, htarget ▸ htype, hdelivers⟩
      | target =>
        obtain ⟨type, htype, rfl, hplace⟩ := unboxed_target hw hbox
        refine ⟨type, [], htype, ?_⟩
        -- What follows works on the content of the box.
        have hspares : code.Spares name := by
          rw [← attrVia_of_compatible ho.compatible, ← attrWithin] at hcode
          refine attrWithin_spares hn ?_ ?_ hcode
          · rw [hplace, hp, Expr.derefs, Expr.derefs]
          · rw [hplace]
            exact Expr.noConfusion
        rw [Site.store, hp, hd]
        exact .first _ hspares

end Objects

/-- A case leaves in the result what a helper gives for the alternatives, or a value of the type of
    the target's alternative: a new object or a wrapper. -/
theorem alternative_delivers (hv : c.Visible s name) (hu : c.unions s.source s.target = .ok (u, w))
    {x y : String × Attribute} (hx : u.2[i]? = some x) (hy : w.2[i]? = some y)
    (ho : c.scope.isNamedObject x.2 = .ok true → c.scope.isNamedObject y.2 = .ok true)
    (h : (c.alternative (c.attrWithin levels) s w i x.2 y.2).Yields b) :
    (∃ helper, c.Delegates (x.2, y.2) helper ∧ c.scope.isNamedObject y.2 = .ok true ∧
        b.Delivers name (.call helper [.ident "actual"])) ∨
      ∃ type value, c.scope.alternativeRef c.target w.1 w.2 i = .ok type ∧
        (∀ results, value.typeVia results = some type) ∧ b.Delivers name value := by
  have hpair : (x.2, y.2) ∈ (u.2.map Prod.snd).zip (w.2.map Prod.snd) := by
    refine List.mem_of_getElem? (i := i) ?_
    rw [List.getElem?_zip_eq_some, List.getElem?_map, List.getElem?_map, hx, hy]
    exact ⟨rfl, rfl⟩
  rcases alternative_yields.mp h with
    ⟨hnamed, hcode⟩ | ⟨hnamed, wrapper, hwrapper, ⟨-, -, rfl⟩ | ⟨hprimitive, code, hcode, rfl⟩⟩
  · rcases nested_yields.mp hcode with ⟨hcalls, helper, hhelper, rfl⟩ | ⟨-, hcode⟩
    · left
      refine ⟨helper, ⟨hcalls, hhelper⟩, ho hnamed, ?_⟩
      rw [Site.store, Site.alternative, hv.place]
      exact Block.delivers_set name _
    · right
      have hkind : c.registry.kind (s.alternative x.2 y.2).target = .ok .object :=
        (Scope.isNamedObject_eq_true.mp (ho hnamed)).2
      obtain ⟨type, fields, htype, hdelivers⟩ :=
        attrWithin_delivers (s := s.alternative x.2 y.2) hv.reserved hv.place rfl hkind hcode
      have hstored : c.scope.alternativeRef c.target w.1 w.2 i = .ok type :=
        Scope.alternativeRef_eq_ok.mpr ⟨y, hy, Or.inl ⟨ho hnamed, htype⟩⟩
      exact ⟨type, _, hstored, fun results => Expr.typeVia_allocate results type fields, hdelivers⟩
  · right
    refine ⟨wrapper, .convert wrapper (.ident "actual"), hwrapper, fun _ => rfl, ?_⟩
    rw [hv.place]
    exact Block.delivers_set name _
  · right
    refine ⟨wrapper, .convert wrapper (.ident "conv"), hwrapper, fun _ => rfl, ?_⟩
    rw [hv.place]
    refine .intro (fun hm => ?_) (Block.spares_nil name)
    -- The wrapper's content declares `conv` and variables for its fields.
    rcases attrWithin_confined c levels hcode name hm with hm | hm
    · rw [Site.introduces, Site.wrapped, if_pos rfl, Expr.vars, List.mem_singleton] at hm
      exact hv.reserved (Or.inr (Or.inl hm))
    · exact hv.leaves _ (.alternative hu hpair hnamed hprimitive) hm

/-! ## Requests for unions -/

/-- The code for a union in place is that of the emitter for unions. Two unions always fit, so the
    emitter opens no box for them and goes by their kind at once. -/
theorem inline_of_unions (hu : c.registry.union? s.source = .ok (some u))
    (hw : c.registry.union? s.target = .ok (some w)) (h : (c.inline s).Yields b) :
    ∃ levels, (c.union (c.attrWithin levels) s).Yields b := by
  have hsource := Registry.kind_of_union hu
  have htarget := Registry.kind_of_union hw
  have hcompatible : (c.registry.compatible s.source s.target {}).Yields () :=
    Registry.compatible_of_unions hsource htarget
  unfold inline at h
  rw [Registry.pairBudget, attrWithin, attrVia_of_compatible hcompatible] at h
  obtain ⟨kind, target, hkind, htarget', ⟨rfl, -, -⟩ | ⟨-, hcode⟩⟩ := byKind_yields.mp h
  · cases htarget'.symm.trans htarget
  · obtain rfl : kind = .union := Except.ok.inj (hkind.symm.trans hsource)
    exact ⟨_, hcode⟩

/-- Whoever switches over a value of the union, in the context that `c` makes values for, takes a
    value of the type for the alternative `i`. -/
def TakenFor (c : Conversion) (w : UnionType) (type : TypeRef) (i : Nat) : Prop :=
  ∀ (d : Conversion) (emit : Emit) (t : Site) (b : Block), d.scope = c.scope →
    d.source = c.target → d.registry.union? t.source = .ok (some w) → (d.union emit t).Yields b →
      ∃ cases, d.SwitchOver t w b cases ∧ caseOf? cases type = some i

theorem takenFor_of_alternativeRef (hc : c.scope = .ofRegistry c.registry)
    (hw : c.scope.ToldApart w.2) {type : TypeRef}
    (h : c.scope.alternativeRef c.target w.1 w.2 i = .ok type) : c.TakenFor w type i := by
  intro d emit t b hscope hsource hunion hb
  obtain ⟨u, v, declared, cases, hunions, hd, hcases, rfl⟩ := union_yields hb
  obtain ⟨hu, -, hlength⟩ := unions_eq_ok.mp hunions
  obtain rfl : w = u := Option.some.inj (Except.ok.inj (hunion.symm.trans hu))
  have hregistry : d.registry = c.registry := congrArg Scope.registry hscope
  have hswitch : d.SwitchOver t w _ cases :=
    union_switches (by rw [hscope, hc, hregistry]) hlength hd hcases
  refine ⟨cases, hswitch, ?_⟩
  obtain ⟨x, hx, -⟩ := Scope.alternativeRef_eq_ok.mp h
  obtain ⟨hi, -⟩ := List.getElem?_eq_some_iff.mp hx
  rw [← hswitch.length] at hi
  -- The case at the position is for just this type.
  have hcase := List.getElem?_eq_getElem hi
  have htype := hswitch.types i _ _ hcase
  rw [hscope, hsource, h, Except.ok.injEq] at htype
  rw [htype]
  exact caseOf?_of_nodup (hswitch.apart.mpr (hscope ▸ hw)) hcase

/-- The result of the helper that a request calls for a pair is that of the pair. Two helpers of one
    name would spoil this, so names have to tell pairs apart. -/
theorem resultOf?_of_delegates {met' : List String} {out : Compiled} {q : Pair} {helper : String}
    (hn : c.NamesApart s.pair) (h : (c.compile s).Yields [] out met') (hq : c.Nested s.pair q)
    (hd : c.Delegates q helper) :
    ∃ type, c.targetRef q.2 = .ok type ∧ Helper.resultOf? out.helpers helper = some type := by
  obtain ⟨-, made, hmade, hout⟩ := compile_yields.mp h
  obtain ⟨found, hfound, hmadeOf⟩ := collect_factors (p := s.pair) hmade
  have hperm : out.helpers.Perm made := hout ▸ sorted_perm made
  have hnames : (out.helpers.map (·.name)).Nodup := by
    refine ((hperm.map _).nodup_iff).mpr ?_
    rw [hmadeOf.names]
    exact (collect_finds hfound).1.nodup
  have hbuilt : ∀ x ∈ found, ∃ k ∈ out.helpers, (c.helper x.1 x.2).Yields k := by
    intro x hx
    obtain ⟨k, hk, hyields⟩ := forall₂_mem_left hmadeOf hx
    exact ⟨k, hperm.mem_iff.mpr hk, hyields⟩
  obtain ⟨k, hk, rfl, hserves⟩ := exists_serves (t := .between q.1 q.2 "v" "res") hn hfound hbuilt
    .refl hq hd
  refine ⟨k.result, hserves.result, ?_⟩
  rw [Helper.resultOf?, find?_of_nodup_map hnames hk]
  rfl

/-- The code for a union has one case for each alternative of the source, in order, and these are
    for different types just where the alternatives can be told apart. As long as names tell helpers
    apart and no case hides the result, a case leaves a value of the type of the target's
    alternative there, unless it is for a named object that faces none; and every switch over the
    target takes that value for the alternative. -/
theorem compile_switches (c : Conversion) (a d : Attribute) (value place : String) (declare : Bool)
    (depth : Nat) (inBox : Bool) (u w : UnionType) (met' : List String) (out : Compiled)
    (hc : c.scope = .ofRegistry c.registry) (hu : c.registry.union? a = .ok (some u))
    (hw : c.registry.union? d = .ok (some w))
    (h : (c.compile (.between a d value place declare depth inBox)).Yields [] out met') :
    ∃ cases, c.SwitchOver (.between a d value place declare depth inBox) u out.body cases ∧
      (c.NamesApart (a, d) → c.Visible (.between a d value place declare depth inBox) place →
        ∀ i type body, cases[i]? = some (type, body) → c.Corresponds u w i →
          ∃ stored e, c.scope.alternativeRef c.target w.1 w.2 i = .ok stored ∧
            body.Delivers place e ∧ e.typeVia (Helper.resultOf? out.helpers) = some stored ∧
            (c.scope.ToldApart w.2 → c.TakenFor w stored i)) := by
  obtain ⟨hbody, -⟩ := compile_yields.mp h
  obtain ⟨levels, hunion⟩ := inline_of_unions hu hw hbody
  obtain ⟨u', w', declared, cases, hunions, hd, hcases, hcode⟩ := union_yields hunion
  obtain ⟨hu', hw', hlength⟩ := unions_eq_ok.mp hunions
  obtain rfl : u = u' := Option.some.inj (Except.ok.inj (hu.symm.trans hu'))
  obtain rfl : w = w' := Option.some.inj (Except.ok.inj (hw.symm.trans hw'))
  refine ⟨cases, hcode ▸ union_switches hc hlength hd hcases,
    fun hn hv i type body hi ho => ?_⟩
  obtain ⟨-, x, y, hpair, halternative⟩ := (cases_getElem? hcases).2 i type body hi
  rw [Nat.zero_add] at halternative
  obtain ⟨x, y, hx, hy, heq⟩ := zip_getElem?_eq_some hpair
  obtain ⟨rfl, rfl⟩ := Prod.mk.inj heq
  -- A case either calls a helper, whose result type is then that of the target's alternative, or
  -- stores what it builds in place, and the type is read off the code.
  rcases alternative_delivers hv hunions hx hy (ho x y hx hy) halternative with
    ⟨helper, hdelegates, hnamed, hdelivers⟩ | ⟨stored, e, hstored, htype, hdelivers⟩
  · have hcompatible : (c.registry.compatible a d {}).Yields () :=
      Registry.compatible_of_unions (Registry.kind_of_union hu) (Registry.kind_of_union hw)
    have hnested : c.Nested (a, d) (x.2, y.2) :=
      (nested_iff_of_compatible (p := (a, d)) hcompatible).mpr
        ⟨true, .alternative hunions (List.mem_of_getElem? hpair)⟩
    obtain ⟨stored, htarget, hresult⟩ := resultOf?_of_delegates hn h hnested hdelegates
    have hstored : c.scope.alternativeRef c.target w.1 w.2 i = .ok stored :=
      Scope.alternativeRef_eq_ok.mpr ⟨y, hy, Or.inl ⟨hnamed, htarget⟩⟩
    exact ⟨stored, _, hstored, hdelivers, hresult, fun hapart =>
      takenFor_of_alternativeRef hc hapart hstored⟩
  · exact ⟨stored, e, hstored, hdelivers, htype _, fun hapart =>
      takenFor_of_alternativeRef hc hapart hstored⟩

/-! ## Pets -/

def dogFields : Attribute := { type := .object [("name", { type := .primitive .string })] }

def tags : Attribute := { type := .array { type := .primitive .string } }

/-- A pet is a dog, a name or some tags. -/
def pet (union : String) (dog : Attribute) : UnionType :=
  (union, [("dog", dog), ("name", { type := .primitive .string }), ("tags", tags)])

def petSite (dog : Attribute) : Site :=
  .between { type := .union "Pet" (pet "Pet" (.user "Dog")).2 }
    { type := .union "PetBody" (pet "PetBody" dog).2 } "v" "res"

def petConversion : Conversion where
  scope := .ofRegistry { types := [{ id := "Dog", name := "Dog", definition := dogFields }] }
  source := .service
  target := .body

theorem tags_compatible : (petConversion.registry.compatible tags tags {}).Yields () := rfl

theorem petSite_unions : petConversion.unions (petSite (.user "Dog")).source
    (petSite (.user "Dog")).target =
      .ok (pet "Pet" (.user "Dog"), pet "PetBody" (.user "Dog")) := rfl

theorem petSite_visible : petConversion.Visible (petSite (.user "Dog")) "res" where
  place := rfl
  reserved := by
    intro h
    rcases h with h | h | ⟨depth, h⟩
    · exact absurd h (by decide)
    · exact absurd h (by decide)
    · exact fixed_not_mem_loopVariables (by decide) depth h
  leaves := by
    -- Only the tags are converted in front of a wrapper, and they have no fields.
    intro t ht hleaves
    obtain ⟨hu, hab, hn, hp⟩ := ht
    obtain ⟨inner, f, ho, hf, -⟩ := hleaves
    obtain ⟨rfl, rfl⟩ := Prod.mk.inj (Except.ok.inj (petSite_unions.symm.trans hu))
    rcases List.mem_cons.mp hab with heq | hab
    · obtain ⟨rfl, rfl⟩ := Prod.mk.inj heq
      cases hn
    rcases List.mem_cons.mp hab with heq | hab
    · obtain ⟨rfl, rfl⟩ := Prod.mk.inj heq
      cases hp
    obtain ⟨rfl, rfl⟩ := Prod.mk.inj (List.mem_singleton.mp hab)
    obtain rfl := ho.eq_of_compatible tags_compatible
    obtain ⟨v, w, m, hv, -⟩ := hf.describes
    cases hv

/-- The union of a pet, which is a dog, a name or some tags, becomes the union of its body. Here the
    alternatives are of three sorts: a named object that a helper is called for, a primitive, and a
    collection, both in wrappers. -/
theorem compile_switches_pet : ∃ out met' cases,
    (petConversion.compile (petSite (.user "Dog"))).Yields [] out met' ∧
    petConversion.NamesApart (petSite (.user "Dog")).pair ∧
    petConversion.Visible (petSite (.user "Dog")) "res" ∧
    petConversion.SwitchOver (petSite (.user "Dog")) (pet "Pet" (.user "Dog")) out.body cases ∧
    ∀ i type body, cases[i]? = some (type, body) →
      ∃ stored e, petConversion.scope.alternativeRef petConversion.target "PetBody"
          (pet "PetBody" (.user "Dog")).2 i = .ok stored ∧
        body.Delivers "res" e ∧ e.typeVia (Helper.resultOf? out.helpers) = some stored ∧
        petConversion.TakenFor (pet "PetBody" (.user "Dog")) stored i := by
  obtain ⟨out, met', h⟩ : ∃ out met',
      (petConversion.compile (petSite (.user "Dog"))).Yields [] out met' := by
    decide +kernel
  have hn : petConversion.NamesApart (petSite (.user "Dog")).pair := namesApart_of_singleton rfl _
  obtain ⟨cases, hswitch, hstores⟩ := compile_switches petConversion _ _ "v" "res" true 0 false
    (pet "Pet" (.user "Dog")) (pet "PetBody" (.user "Dog")) met' out rfl rfl rfl h
  -- Both unions list the same attributes.
  have ho : ∀ i, petConversion.Corresponds (pet "Pet" (.user "Dog")) (pet "PetBody" (.user "Dog"))
      i := by
    intro i x y hx hy hnamed
    obtain rfl := Option.some.inj (hx.symm.trans hy)
    exact hnamed
  have hapart : petConversion.scope.ToldApart (pet "PetBody" (.user "Dog")).2 := by
    refine .cons ?_ (.cons ?_ (.cons ?_ .nil))
    · intro y hy hsame
      cases hsame with
      | object _ _ hj =>
        rcases List.mem_cons.mp hy with rfl | hy
        · cases hj
        · obtain rfl := List.mem_singleton.mp hy
          cases hj
      | wrapper hx => cases hx
    · intro y hy hsame
      obtain rfl := List.mem_singleton.mp hy
      cases hsame with
      | object hx => cases hx
      | wrapper _ _ hname => exact absurd hname (by decide)
    · simp
  refine ⟨out, met', cases, h, hn, petSite_visible, hswitch, fun i type body hi => ?_⟩
  obtain ⟨stored, e, hstored, hdelivers, htype, htaken⟩ :=
    hstores hn petSite_visible i type body hi (ho i)
  exact ⟨stored, e, hstored, hdelivers, htype, htaken hapart⟩

/-- A dog that becomes an object in place is stored as that, and not in the wrapper that is the
    target's alternative for it. -/
theorem dog_unwrapped : ∃ out met' cases, ∃ (type : TypeRef) (body : Block),
    (petConversion.compile (petSite dogFields)).Yields [] out met' ∧
    out.body = [.declare "res" (.named none "PetBody") none,
      .typeSwitch "actual" (.ident "v") cases] ∧ cases[0]? = some (type, body) ∧
    ¬ ∃ stored e, petConversion.scope.alternativeRef petConversion.target "PetBody"
        (pet "PetBody" dogFields).2 0 = .ok stored ∧
      body.Delivers "res" e ∧ e.typeVia (Helper.resultOf? out.helpers) = some stored := by
  obtain ⟨out, met', rest, type, fields, values, h, hbody⟩ : ∃ out met' rest type fields values,
      (petConversion.compile (petSite dogFields)).Yields [] out met' ∧
      out.body = [.declare "res" (.named none "PetBody") none,
        .typeSwitch "actual" (.ident "v") ((type,
          [.set (.ident "res") (.composite (.struct fields) values true)]) :: rest)] :=
    ⟨_, _, _, _, _, _, rfl, rfl⟩
  refine ⟨out, met', _, type, _, h, hbody, rfl, ?_⟩
  intro hclaim
  obtain ⟨stored, e, hstored, hdelivers, htype⟩ := hclaim
  have hwrapper : petConversion.scope.alternativeRef petConversion.target "PetBody"
      (pet "PetBody" dogFields).2 0 = .ok (.named none "PetBodyDog") := rfl
  obtain rfl := hdelivers.eq_of_set
  rw [hwrapper, Except.ok.injEq] at hstored
  subst hstored
  cases htype

end Conversion
end Shapewright
