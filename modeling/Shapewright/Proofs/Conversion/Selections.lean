import Shapewright.Proofs.Conversion.Safety
import Shapewright.Proofs.FieldUses
import Shapewright.Proofs.Layout

/-!
# Code names fields that are declared

Every step of the code of a conversion belongs to a site. The expressions in it are made of the
value and of the place of the site, and these lead back through fields, elements and boxes to a
variable. Whatever is selected on the way is a field of the object that stands there, under the name
that is generated for it (`Designates`). A literal allocates the object of the target and names its
fields only.

There is one exception: the content of a box is selected by a name that is fixed, whatever name the
design gives the field. So all this needs boxes that keep the name (`BoxNamed`), and it fails of
others (`nicknamed_not_declared`).

## Two layers

What an emitter names is shown first, of one site and without a word on where the site comes from
(`UsedAt`, `NamesAt`). A field is then named in the value or the place of the site, or it is a field
of what the site converts. Only then come the levels: the fields in the value and the place of a
site are those of the sites above it, so an induction carries along where each of them was selected
(`Carried`).

## Paths to a selection

A selection is of one side, and on this side the sites above form a path on which each expression is
made of the one before (`Deepens`). Loops and cases cut the path of the value, since what they
convert is in a variable of its own, while the place of an element goes on from that of its array. A
helper starts anew on both sides.
-/

namespace Shapewright

/-- What belongs to the side. -/
def Side.pick {α : Type} (side : Side) (source target : α) : α :=
  match side with
  | .source => source
  | .target => target

/-- The attribute is an object, and the name is generated for one of the fields it declares.
    References are followed, so it does not matter how the object is named. -/
def Registry.DeclaresField (reg : Registry) (a : Attribute) (name : String) : Prop :=
  ∃ v, ObjectView.of? reg a = .ok (some v) ∧ ∃ x ∈ v.fields, x.2.fieldName x.1 = name

instance (reg : Registry) (a : Attribute) (name : String) : Decidable (reg.DeclaresField a name) :=
  match h : ObjectView.of? reg a with
  | .ok (some v) =>
    decidable_of_iff (∃ x ∈ v.fields, x.2.fieldName x.1 = name)
      ⟨fun hx => ⟨v, h, hx⟩, fun ⟨_, hw, hx⟩ => by cases h.symm.trans hw; exact hx⟩
  | .ok none => isFalse fun ⟨_, hw, _⟩ => by cases h.symm.trans hw
  | .error _ => isFalse fun ⟨_, hw, _⟩ => by cases h.symm.trans hw

/-- Every field that an object has is declared, under the name that is generated for it. -/
theorem Registry.declaresField_of_mem {reg : Registry} {a : Attribute} {v : ObjectView}
    {name : String} (hv : ObjectView.of? reg a = .ok (some v)) (h : name ∈ v.fields.map Prod.fst) :
    reg.DeclaresField a (v.fieldName name) := by
  obtain ⟨x, hx⟩ := Ordered.exists_get? h
  refine ⟨v, hv, (name, x), Ordered.mem_of_get? hx, ?_⟩
  have hfield : v.field? name = some x := hx
  rw [ObjectView.fieldName, hfield, Option.getD_some]

/-- A box declares the one field that holds its content. -/
theorem Registry.declaresField_of_unbox {reg : Registry} {a inner : Attribute}
    (h : reg.unbox? a = .ok (some inner)) : reg.DeclaresField a (inner.fieldName boxField) := by
  obtain ⟨r, hr, ht⟩ := Registry.unbox?_eq_some h
  exact ⟨⟨r, [(boxField, inner)]⟩, Registry.view_eq_some.mpr ⟨hr, ht⟩, (boxField, inner),
    List.mem_singleton_self _, rfl⟩

namespace FieldSite

/-- The fields that the two expressions of a field name. -/
def fieldUses (f : FieldSite) : List FieldUse := f.value.fieldUses ++ f.place.fieldUses

theorem value_subset (f : FieldSite) : f.value.fieldUses ⊆ f.fieldUses :=
  List.subset_append_left _ _

theorem place_subset (f : FieldSite) : f.place.fieldUses ⊆ f.fieldUses :=
  List.subset_append_right _ _

end FieldSite

namespace Conversion

open Relation

variable {c : Conversion} {emit : Emit} {s t u inner : Site} {b : Block} {known : List Expr}
  {step : CodeStep} {f : FieldSite} {use : FieldUse} {p q : Pair}

/-! ## Positions -/

/-- The code of the first site has that of the second in place, or calls a helper there. A call is
    code of the site that it is made for, although what is behind it is elsewhere. -/
inductive SiteIn (c : Conversion) (s t : Site) : Prop where
  | inPlace (h : ReflTransGen c.InPlace s t) : SiteIn c s t
  | called (h : c.CallsAt s t) : SiteIn c s t

/-- The second site is one level below the first, and its expression of that side is made of the
    one of the first. The values of elements and alternatives are variables, and so are the places
    that the code declares. -/
inductive Deepens (c : Conversion) : Side → Site → Site → Prop where
  | field {s inner : Site} {f : FieldSite} (side : Side) (ho : c.Opens s inner)
      (hf : c.FieldAt inner f) : Deepens c side s (f.site inner.depth)
  | element {s inner : Site} {x y : Attribute} (ho : c.Opens s inner)
      (ht : c.Below inner (inner.element x y)) : Deepens c .target s (inner.element x y)
  | alternative {s inner : Site} {a b : Attribute} (ho : c.Opens s inner)
      (ht : c.Below inner (inner.alternative a b)) : Deepens c .target s (inner.alternative a b)

/-- In the code of `s`, the field is selected from the object of a site at or above `t`, before or
    after its box is opened, and is one that this object declares. -/
inductive Selects (c : Conversion) (s : Site) (side : Side) (t : Site) : FieldUse → Prop where
  | intro {u w : Site} {name : String} (hu : ReflTransGen c.InPlace s u)
      (ht : ReflTransGen (c.Deepens side) u t) (hw : w = u ∨ c.Opens u w)
      (hn : c.registry.DeclaresField (side.pick w.source w.target) name) :
      Selects c s side t (.select (side.pick w.value w.place) name)

/-- At the site `t` in the code of `s`, the field that is named is declared by the object it is
    selected from, or by the object that is allocated. -/
inductive Designates (c : Conversion) (s t : Site) : FieldUse → Prop where
  | selected {use : FieldUse} {side : Side} (h : c.Selects s side t use) : Designates c s t use
  | literal {w : Site} {type : TypeRef} {name : String} (hw : c.Opens t w)
      (htype : c.targetRef w.target = .ok type) (hn : c.registry.DeclaresField w.target name) :
      Designates c s t (.init type.pointee name)

/-- The statement belongs to a site in the code of `s`, and every field in it is declared where it
    is named. -/
inductive FieldsDeclared (c : Conversion) (s : Site) (stmt : Stmt) : Prop where
  | intro {t inner : Site} (ht : c.SiteIn s t) (hi : inner = t ∨ c.Opens t inner)
      (ho : c.Own inner stmt) (hd : ∀ use ∈ stmt.fieldUses, c.Designates s t use) :
      FieldsDeclared c s stmt

/-- A helper is code around a site, and what is not part of that code names no field. -/
inductive FieldsDeclaredHelper (c : Conversion) (h : Helper) : Prop where
  | intro {x : HelperSite} (hyields : (c.helper h.name x).Yields h)
      (hd : ∀ step ∈ h.body.steps [],
        step.stmt.fieldUses = [] ∨ c.FieldsDeclared x.inner step.stmt) :
      FieldsDeclaredHelper c h

/-- If a box is opened at the pair, the name that is generated for its field is the one that its
    content is selected by. -/
def BoxNamed (c : Conversion) (p : Pair) : Prop :=
  (c.registry.compatible p.1 p.2 {}).Fails → ∀ q, c.openBox? p.1 p.2 = .ok (some q) →
    (c.wire.pick q.1 q.2).fieldName boxField = boxFieldName

/-! ## What the emitter of a site names -/

/-- The field is named in the value or the place of the site, or it is one of their own fields.
    Nothing is said of the fields named in the two expressions: those were selected above. -/
inductive UsedAt (c : Conversion) (s : Site) : FieldUse → Prop where
  | inside {use : FieldUse} (side : Side) (h : use ∈ (side.pick s.value s.place).fieldUses) :
      UsedAt c s use
  | select {name : String} (side : Side)
      (hn : c.registry.DeclaresField (side.pick s.source s.target) name) :
      UsedAt c s (.select (side.pick s.value s.place) name)
  | literal {type : TypeRef} {name : String} (htype : c.targetRef s.target = .ok type)
      (hn : c.registry.DeclaresField s.target name) : UsedAt c s (.init type.pointee name)

/-- What the value of a site names is named at the site. -/
theorem UsedAt.value (h : use ∈ s.value.fieldUses) : c.UsedAt s use := .inside .source h

theorem UsedAt.place (h : use ∈ s.place.fieldUses) : c.UsedAt s use := .inside .target h

/-- The step is one that the emitter of a site writes, or one in the code of a site one level
    below. -/
inductive NamesAt (c : Conversion) (emit : Emit) (s : Site) (step : CodeStep) : Prop where
  | own (ho : c.Own s step.stmt) (hu : ∀ use ∈ step.stmt.fieldUses, c.UsedAt s use) :
      NamesAt c emit s step
  | nested {t : Site} {known : List Expr} {code : Block} (ht : c.Below s t)
      (hc : (c.nested emit t).Yields code) (hm : step ∈ code.steps known) : NamesAt c emit s step
  | wrapped {t : Site} {known : List Expr} {code : Block} (ht : c.Wraps s t)
      (hc : (emit t).Yields code) (hm : step ∈ code.steps known) : NamesAt c emit s step

/-- A store of something that is made of the value. -/
theorem NamesAt.store {e : Expr} (he : e.fieldUses ⊆ s.value.fieldUses) :
    c.NamesAt emit s ⟨known, s.store e⟩ := by
  refine .own (.store e) fun use hu => ?_
  rcases List.mem_append.mp hu with hu | hu
  · exact .place hu
  · exact .value (he hu)

/-- The loop over an array names what its value names, and the rest is code for the elements. The
    variables of the loop are no fields, and the element is selected by an index. -/
theorem array_names (h : (c.array emit s).Yields b) (hm : step ∈ b.steps known) :
    c.NamesAt emit s step := by
  obtain ⟨x, y, type, body, hx, hy, -, hb, rfl⟩ := array_yields.mp h
  rw [Site.store, Block.steps_cons, Stmt.steps_assign, Block.steps_cons, Stmt.steps_range,
    Block.steps_nil, List.append_nil, List.singleton_append, List.mem_cons, List.mem_cons] at hm
  rcases hm with rfl | rfl | hm
  · refine .store ?_
    rw [Expr.fieldUses, Expr.fieldUses]
    exact List.Subset.refl _
  · exact .own (.loop _ _) fun use hu => .value hu
  · exact .nested (.element hx hy) hb hm

/-- The loop over a map names what its value names, and the place where it stores the pairs. A key
    and an element have variables of their own, so what their code selects starts from these. -/
theorem map_names (h : (c.map emit s).Yields b) (hm : step ∈ b.steps known) :
    c.NamesAt emit s step := by
  obtain ⟨k, x, l, y, keyType, elemType, keyCode, elemCode, hx, hy, -, -, hkey, helem, rfl⟩ :=
    map_yields.mp h
  rw [Site.store, Block.steps_cons, Stmt.steps_assign, Block.steps_cons, Stmt.steps_range,
    Block.steps_append, Block.steps_append, Block.steps_cons, Stmt.set, Stmt.steps_assign,
    Block.steps_nil, List.append_nil, List.append_nil, List.singleton_append, List.mem_cons,
    List.mem_cons, List.mem_append, List.mem_append, List.mem_singleton] at hm
  rcases hm with rfl | rfl | (hm | hm) | rfl
  · refine .store ?_
    rw [Expr.fieldUses, Expr.fieldUses]
    exact List.Subset.refl _
  · exact .own (.loop _ _) fun use hu => .value hu
  · exact .nested (.key hx hy) hkey hm
  · exact .nested (.entry hx hy) helem hm
  · refine .own (.pair _ _) fun use hu => .place ?_
    simpa [Stmt.fieldUses, Expr.fieldUses] using hu

/-- The declaration of a variable for a union names no field. -/
theorem declaration_names (h : (c.declaration s).Yields b) (hm : step ∈ b.steps known) :
    c.NamesAt emit s step := by
  unfold declaration at h
  split at h
  · split at h
    · rename_i name hp
      simp only [Walk.yields_bind, Walk.yields_liftM, Walk.yields_pure] at h
      obtain ⟨type, -, rfl⟩ := h
      rw [Block.steps_cons, Stmt.steps_declare, Block.steps_nil, List.append_nil,
        List.mem_singleton] at hm
      subst hm
      exact .own (.declare type hp) fun use hu => absurd hu List.not_mem_nil
    · simp at h
  · rw [Walk.yields_pure] at h
    rw [← h, Block.steps_nil] at hm
    exact absurd hm List.not_mem_nil

/-- A case passes on the code of its alternative, and may wrap the result in the type of the
    alternative. -/
theorem alternative_names {u v : UnionType} {index : Nat} {x y : Attribute}
    (hu : c.unions s.source s.target = .ok (u, v))
    (hxy : (x, y) ∈ (u.2.map Prod.snd).zip (v.2.map Prod.snd))
    (h : (c.alternative emit s v index x y).Yields b) (hm : step ∈ b.steps known) :
    c.NamesAt emit s step := by
  -- A wrapper type is named, not selected: `actual` and `conv` have no fields here.
  have hwrap : ∀ (type : TypeRef) (name : String),
      c.NamesAt emit s ⟨known, .set s.place (.convert type (.ident name))⟩ := by
    refine fun type name => .own (.wrap type _) fun use hu => .place ?_
    simpa using hu
  rcases alternative_yields.mp h with
    ⟨hn, hcode⟩ | ⟨hn, wrapper, -, ⟨-, -, rfl⟩ | ⟨hp, code, hcode, rfl⟩⟩
  · exact .nested (.alternative hu hxy hn) hcode hm
  · rw [Block.steps_cons, Stmt.set, Stmt.steps_assign, Block.steps_nil, List.append_nil,
      List.mem_singleton] at hm
    exact hm ▸ hwrap wrapper _
  · rw [Block.steps_append, Block.steps_cons, Stmt.set, Stmt.steps_assign, Block.steps_nil,
      List.append_nil, List.mem_append, List.mem_singleton] at hm
    rcases hm with hm | rfl
    · exact .wrapped (.alternative hu hxy hn hp) hcode hm
    · exact hwrap wrapper _

/-- A switch names what its value names, and the rest is in the cases. Inside a case the value goes
    by another variable, of which no field has been selected yet. -/
theorem union_names (h : (c.union emit s).Yields b) (hm : step ∈ b.steps known) :
    c.NamesAt emit s step := by
  obtain ⟨u, v, declared, cases, hu, hd, hcases, rfl⟩ := union_yields h
  rw [Block.steps_append, Block.steps_cons, Stmt.steps, Block.steps_nil, List.append_nil,
    List.mem_append, List.mem_cons] at hm
  rcases hm with hm | rfl | hm
  · exact declaration_names hd hm
  · exact .own (.switch "actual") fun use hu => .value hu
  · obtain ⟨x, hx, hm⟩ := Block.mem_steps_cases.mp hm
    obtain ⟨⟨a, d⟩, hq, index, hb⟩ := forall₂_mem_right (cases_yields hcases) hx
    exact alternative_names hu hq hb hm

/-! ## Objects -/

/-- Code that names no other fields but the one that a literal gives a value. -/
structure CodeNames (f : FieldSite) (code : ObjectCode) : Prop where
  literal : ∀ x ∈ code.literal, x.1 = f.placeName ∧ x.2.fieldUses ⊆ f.fieldUses
  after : Block.NamesOnly f.fieldUses code.after

theorem CodeNames.set {e : Expr} (he : e.fieldUses ⊆ f.fieldUses) :
    Block.NamesOnly f.fieldUses [.set f.place e] :=
  .assign f.place_subset he .nil

theorem CodeNames.ifPresent {body : Block} (h : Block.NamesOnly f.fieldUses body) :
    Block.NamesOnly f.fieldUses [f.ifPresent body] :=
  .when (by rw [Expr.fieldUses_notNil]; exact f.value_subset) h

/-- To store a converted value, or its address, names what the field names. -/
theorem storeConverted_names {taken : List String} {result : Expr}
    (hr : result.fieldUses ⊆ f.fieldUses) :
    Block.NamesOnly f.fieldUses (storeConverted f taken result) := by
  unfold storeConverted
  split
  · exact .assign (by simp) hr (CodeNames.set (by simp))
  · exact CodeNames.set hr

/-- What a primitive is converted to names what the primitive names: no conversion selects a
    field. -/
theorem converted?_fieldUses {source target : Attribute} {isPointer : Bool} {value e : Expr}
    {result : Option Expr} (h : c.converted? source target isPointer value = .ok result)
    (he : e ∈ result) : e.fieldUses = value.fieldUses := by
  unfold converted? at h
  simp only [except_bind_eq_ok] at h
  obtain ⟨x, -, y, -, h⟩ := h
  split at h
  · rw [except_pure_eq_ok] at h
    simp [← h] at he
  · rw [except_pure_eq_ok] at h
    rw [← h, Option.mem_some_iff] at he
    rw [← he, Expr.fieldUses_convert]
    split
    · exact Expr.fieldUses_deref value
    · rfl

/-- The code of a primitive field names what the field names, and sets no other field of the
    literal. -/
theorem primitiveFieldCode_names {taken : List String} {result : Option Expr}
    (hr : c.converted? f.source f.target f.sourcePointer f.value = .ok result) :
    CodeNames f (primitiveFieldCode f taken result) := by
  -- A member of the literal is the field of the target itself, with a value read from the field of
  -- the source.
  have literal : ∀ {e : Expr}, e.fieldUses = f.value.fieldUses →
      CodeNames f { literal := [(f.placeName, e)] } := by
    intro e he
    refine ⟨fun x hx => ?_, .nil⟩
    rw [List.mem_singleton.mp hx]
    exact ⟨rfl, he ▸ f.value_subset⟩
  have after : ∀ {code : Block}, Block.NamesOnly f.fieldUses code →
      CodeNames f { after := code } :=
    fun hcode => ⟨fun x hx => absurd hx List.not_mem_nil, hcode⟩
  unfold primitiveFieldCode
  split
  · rename_i e
    have he := converted?_fieldUses hr (Option.mem_some_self e)
    have hstore : Block.NamesOnly f.fieldUses (storeConverted f taken e) :=
      storeConverted_names (he ▸ f.value_subset)
    split
    · exact literal he
    · split
      · exact after (CodeNames.ifPresent hstore)
      · exact after hstore
  · split
    · split
      · exact literal (Expr.fieldUses_deref _)
      · exact after (CodeNames.ifPresent (CodeNames.set
          (by rw [Expr.fieldUses_deref]; exact f.value_subset)))
    · split
      · exact literal (Expr.fieldUses_addr _)
      · exact literal rfl

/-- The code of a default names what the field names. It tests the place of the field, or its value,
    and stores in the place. -/
theorem laterDefault_names (h : c.laterDefault f = .ok b) : Block.NamesOnly f.fieldUses b := by
  have hlit : ∀ value type, (Expr.lit value type).fieldUses ⊆ f.fieldUses := fun value type => by
    simp
  have htest : f.value.isNil.fieldUses ⊆ f.fieldUses := by
    rw [Expr.fieldUses_isNil]
    exact f.value_subset
  unfold laterDefault at h
  split at h
  · rename_i value _
    cases defaultField_shape h with
    | idle => exact .nil
    | held _ _ type =>
      refine .when htest (.declare (fun e he => ?_) (CodeNames.set (by simp)))
      cases he
      exact hlit value type
    | stored _ _ type => exact .when htest (CodeNames.set (hlit value type))
    | zero _ _ type =>
      refine .block (.declare (by simp) (.when ?_ (CodeNames.set (hlit value type))))
      rw [Expr.fieldUses, Expr.fieldUses_ident, List.append_nil]
      exact f.place_subset
  · cases h
    exact .nil

/-- Each side of a field is selected from that side of the object, which declares it. It is one
    field with two names, as the two objects may generate them differently. -/
theorem FieldAt.selected (hf : c.FieldAt s f) (side : Side) : ∃ name,
    side.pick f.value f.place = (side.pick s.value s.place).field name ∧
      c.registry.DeclaresField (side.pick s.source s.target) name := by
  obtain ⟨v, w, m, hv, hw, hm, hd⟩ := hf.describes
  obtain ⟨hsource, htarget⟩ := mem_fields_of_mem_matchFields hm
  cases side with
  | source =>
    exact ⟨_, hd.value, Registry.declaresField_of_mem hv (List.mem_map_of_mem hsource)⟩
  | target =>
    refine ⟨f.placeName, hd.place, hd.placeName ▸ ?_⟩
    exact Registry.declaresField_of_mem hw (List.mem_map_of_mem (Ordered.mem_of_get? htarget))

/-- The name under which a field is stored is declared by the object of the target. -/
theorem FieldAt.declares (hf : c.FieldAt s f) :
    c.registry.DeclaresField s.target f.placeName := by
  obtain ⟨v, w, m, -, hw, hm, hd⟩ := hf.describes
  obtain ⟨-, htarget⟩ := mem_fields_of_mem_matchFields hm
  rw [hd.placeName]
  exact Registry.declaresField_of_mem hw (List.mem_map_of_mem (Ordered.mem_of_get? htarget))

/-- What is named on one side of a field is the field itself, or is named at the site. -/
theorem FieldAt.usedAt_side (hf : c.FieldAt s f) (side : Side)
    (hu : use ∈ (side.pick f.value f.place).fieldUses) : c.UsedAt s use := by
  obtain ⟨name, heq, hn⟩ := hf.selected side
  rw [heq, Expr.fieldUses, List.mem_cons] at hu
  rcases hu with rfl | hu
  · exact .select side hn
  · exact .inside side hu

/-- Of what a field names, the field itself is declared, and the rest is named at the site. -/
theorem FieldAt.usedAt (hf : c.FieldAt s f) (hu : use ∈ f.fieldUses) : c.UsedAt s use :=
  (List.mem_append.mp hu).elim (hf.usedAt_side .source) (hf.usedAt_side .target)

/-- Code for a structured field is nested code, perhaps behind a check of its value. The check
    selects no more than the code behind it. -/
theorem laterValue_names (ha : c.FieldAt s f) (h : (c.laterValue emit s.depth f).Yields b)
    (hm : step ∈ b.steps known) : c.NamesAt emit s step := by
  unfold laterValue at h
  split at h
  · rw [Walk.yields_pure] at h
    simp [← h] at hm
  · rename_i hp
    obtain ⟨code, hcode, rfl⟩ := structuredField_yields.mp h
    have hbelow := ha.below (by simpa using hp)
    split at hm
    · exact .nested hbelow hcode hm
    · rw [Block.steps_cons, FieldSite.ifPresent, Stmt.steps_when, Block.steps_nil, List.append_nil,
        List.mem_cons] at hm
      rcases hm with rfl | hm
      · refine .own (.test ha) fun use hu => ha.usedAt (f.value_subset ?_)
        rwa [Stmt.fieldUses_when, Expr.fieldUses_notNil] at hu
      · exact .nested hbelow hcode hm

/-- The literal names the fields that it sets, and what their values are made of. The name of a
    field in a literal belongs to the type of the literal, which is that of the target. -/
theorem literal_uses {fields : List FieldSite} {taken : List String} {code : ObjectCode}
    {type : TypeRef} (hat : ∀ f ∈ fields, c.FieldAt s f)
    (hcode : c.primitiveFields taken fields = .ok code) (htype : c.targetRef s.target = .ok type)
    (hu : use ∈ (Expr.allocate type code.literal).fieldUses) : c.UsedAt s use := by
  obtain ⟨codes, hliteral, -, hcodes⟩ := primitiveFields_parts hcode
  rw [Expr.fieldUses_allocate, Expr.mem_fieldUsesFields, hliteral] at hu
  obtain ⟨x, hx, hu⟩ := hu
  obtain ⟨part, hpart, hx⟩ := List.mem_flatMap.mp hx
  obtain ⟨f, hf, result, hresult, rfl⟩ := forall₂_mem_right hcodes hpart
  obtain ⟨hname, huses⟩ := (primitiveFieldCode_names hresult).literal x hx
  rcases hu with rfl | hu
  · rw [hname]
    exact .literal htype (hat f hf).declares
  · exact (hat f hf).usedAt (huses hu)

/-- The code of an object is the allocation, code for primitive fields, and nested code. All three
    select fields of the two objects and no others, since the emitter goes by the fields that both
    declare. -/
theorem object_names (h : (c.object emit s).Yields b) (hm : step ∈ b.steps known) :
    c.NamesAt emit s step := by
  obtain ⟨v, w, fields, code, type, later, hv, hw, hfields, hcode, htype, hlater, rfl⟩ :=
    object_yields h
  have hat : ∀ f ∈ fields, c.FieldAt s f := fun _ hf => .of_mem hv hw hfields hf
  have hprimitive : ∀ f ∈ fields.filter (·.isPrimitive), c.FieldAt s f :=
    fun f hf => hat f (List.mem_of_mem_filter hf)
  obtain ⟨codes, -, hafter, hcodes⟩ := primitiveFields_parts hcode
  obtain ⟨parts, rfl, hparts⟩ := laterFields_yields hlater
  rw [Site.store, Block.steps_cons, Stmt.steps_assign, List.singleton_append, List.mem_cons,
    Block.steps_append, hafter, Block.steps_flatMap, Block.steps_flatMap, List.mem_append] at hm
  -- The allocation, the statements of primitive fields, and behind them the other fields with all
  -- defaults.
  rcases hm with rfl | hm | hm
  · refine .own (.store _) fun use hu => ?_
    exact (List.mem_append.mp hu).elim .place (literal_uses hprimitive hcode htype)
  · obtain ⟨part, hpart, hm⟩ := List.mem_flatMap.mp hm
    obtain ⟨f, hf, result, hresult, rfl⟩ := forall₂_mem_right hcodes hpart
    have ha := hprimitive f hf
    refine .own (.primitive ha (List.mem_filter.mp hf).2 hresult hm) fun use hu => ha.usedAt ?_
    exact (primitiveFieldCode_names hresult).after _ step hm hu
  · obtain ⟨part, hpart, hm⟩ := List.mem_flatMap.mp hm
    obtain ⟨f, hf, hvalue, hdefault⟩ := forall₂_mem_right hparts hpart
    rw [Block.steps_append, List.mem_append] at hm
    rcases hm with hm | hm
    · exact laterValue_names (hat f hf) hvalue hm
    · exact .own (.default (hat f hf) hdefault hm) fun use hu =>
        (hat f hf).usedAt (laterDefault_names hdefault _ step hm hu)

/-! ## Any kind, and boxes -/

/-- A primitive is stored as it is or converted, without a field that is selected. -/
theorem primitive_names (h : (c.primitive s).Yields b) (hm : step ∈ b.steps known) :
    c.NamesAt emit s step := by
  unfold primitive at h
  simp only [Walk.yields_bind, Walk.yields_liftM, Walk.yields_pure] at h
  obtain ⟨result, hresult, rfl⟩ := h
  rw [Site.store, Block.steps_cons, Stmt.steps_assign, Block.steps_nil, List.append_nil,
    List.mem_singleton] at hm
  subst hm
  refine .store ?_
  cases result with
  | none => exact List.Subset.refl _
  | some e =>
    rw [Option.getD_some, converted?_fieldUses hresult (Option.mem_some_self e)]
    exact List.Subset.refl _

/-- For every kind of value, a step is one of the site or of the nested code. The cases are those of
    the emitter, and each is a lemma above. -/
theorem byKind_names (h : (c.byKind emit s).Yields b) (hm : step ∈ b.steps known) :
    c.NamesAt emit s step := by
  obtain ⟨kind, target, -, -, ⟨-, -, rfl⟩ | ⟨-, h⟩⟩ := byKind_yields.mp h
  · rw [Site.store, Block.steps_cons, Stmt.steps_assign, Block.steps_nil, List.append_nil,
      List.mem_singleton] at hm
    subst hm
    exact .store (List.Subset.refl _)
  · cases kind with
    | array => exact array_names h hm
    | map => exact map_names h hm
    | object => exact object_names h hm
    | union => exact union_names h hm
    | primitive p => exact primitive_names h hm

/-- Every step in the code of a site makes a box, or is one of the site that the code is about. The
    allocation sets no fields of the box, so it names none. -/
theorem attrVia_names (h : (c.attrVia emit s).Yields b) (hm : step ∈ b.steps known) :
    ∃ inner, c.Opens s inner ∧
      ((∃ type, step.stmt = s.store (.allocate type [])) ∨ c.NamesAt emit inner step) := by
  obtain ⟨inner, box, code, ho, hcode, rfl, hbox⟩ := attrVia_yields h
  refine ⟨inner, ho, ?_⟩
  rw [Block.steps_append, List.mem_append] at hm
  rcases hm with hm | hm
  · rcases hbox with ⟨-, rfl⟩ | ⟨why, hbox⟩
    · simp at hm
    · cases unboxed_yields hbox with
      | target type =>
        rw [Site.store, Block.steps_cons, Stmt.steps_assign, Block.steps_nil, List.append_nil,
          List.mem_singleton] at hm
        exact Or.inl ⟨type, by rw [hm, Site.store]⟩
      | source => simp at hm
  · exact Or.inr (byKind_names hcode hm)

/-! ## All levels -/

/-- Each side of the second site, which is in the code of the first, selects fields that are
    declared. -/
def Carried (c : Conversion) (s t : Site) : Prop :=
  ∀ side : Side, ∀ use ∈ (side.pick t.value t.place).fieldUses, c.Selects s side t use

/-- What is converted at the top are variables. -/
theorem Carried.between (s : Site) (a b : Attribute) (value place : String) (declare : Bool)
    (depth : Nat) (inBox : Bool) :
    c.Carried s (.between a b value place declare depth inBox) := by
  intro side use hu
  cases side with
  | source => simp [Side.pick, Site.between] at hu
  | target => simp [Side.pick, Site.between] at hu

theorem Selects.deepen {side : Side} (h : c.Selects s side t use) (ht : c.Deepens side t u) :
    c.Selects s side u use := by
  cases h with
  | intro hu hut hw hn => exact .intro hu (hut.tail ht) hw hn

/-- To open a box is to select its content, on the wire side. On the other side the expression is
    what it was, so the fields selected there are none that are new. -/
theorem unboxed_pick {why : Fault} {box : Block} (h : (c.unboxed s why).Yields (box, inner))
    (side : Side) : side.pick inner.value inner.place =
      if side = c.wire then (side.pick s.value s.place).field boxFieldName
      else side.pick s.value s.place := by
  unfold unboxed at h
  -- Only the side that the box is on gets a selector. The other side is left as it was.
  cases hw : c.wire with
  | target =>
    rw [hw] at h
    simp only [Walk.yields_bind, Walk.yields_liftM] at h
    obtain ⟨opened, -, h⟩ := h
    cases opened with
    | none => simp at h
    | some content =>
      simp only [Walk.yields_bind, Walk.yields_liftM, Walk.yields_pure, Prod.mk.injEq] at h
      obtain ⟨type, -, -, rfl⟩ := h
      cases side <;> rfl
  | source =>
    rw [hw] at h
    simp only [Walk.yields_bind, Walk.yields_liftM] at h
    obtain ⟨opened, -, h⟩ := h
    cases opened with
    | none => simp at h
    | some content =>
      simp only [Walk.yields_pure, Prod.mk.injEq] at h
      obtain ⟨-, rfl⟩ := h
      cases side <;> rfl

/-- The name that the content of a box is selected by is declared by the box. -/
theorem BoxNamed.declares {p q : Pair} (h : c.BoxNamed p)
    (hf : (c.registry.compatible p.1 p.2 {}).Fails) (ho : c.openBox? p.1 p.2 = .ok (some q)) :
    c.registry.DeclaresField (c.wire.pick p.1 p.2) boxFieldName := by
  have hname := h hf q ho
  rcases openBox?_eq_some ho with ⟨hw, -, ho⟩ | ⟨hw, -, ho⟩
  · rw [hw] at hname ⊢
    exact hname ▸ Registry.declaresField_of_unbox ho
  · rw [hw] at hname ⊢
    exact hname ▸ Registry.declaresField_of_unbox ho

section Levels

variable (hst : ReflTransGen c.InPlace s t) (ho : c.Opens t inner)
include hst ho

/-- The content of a box is selected by the name that its field has. This is where the theorem asks
    for the names of boxes, because the emitter takes the name to be a constant. -/
theorem Opens.selects (hbox : c.BoxNamed t.pair) (ht : c.Carried s t) (side : Side) :
    ∀ use ∈ (side.pick inner.value inner.place).fieldUses, c.Selects s side t use := by
  intro use hu
  cases ho with
  | plain => exact ht side use hu
  | boxed hf _ hopen _ =>
    rw [unboxed_pick hopen side] at hu
    split at hu
    · rename_i hw
      rw [Expr.fieldUses, List.mem_cons] at hu
      rcases hu with rfl | hu
      · have hn := hbox.declares (compatible_fails.mp hf) (unboxed_yields hopen).opened
        exact .intro hst .refl (Or.inl rfl) (hw ▸ hn)
      · exact ht side use hu
    · exact ht side use hu

/-- One level down, the fields that are selected are those from above and one more, or none. Only a
    field adds one. Elements, entries and alternatives have their own variable for the value. -/
theorem Below.carried (hb : c.Below inner u)
    (hin : ∀ side : Side, ∀ use ∈ (side.pick inner.value inner.place).fieldUses,
      c.Selects s side t use) : c.Carried s u := by
  intro side use hu
  -- -- The value of an element, a key or an alternative is a variable, so only places go on.
  cases hb with
  | element hx hy =>
    cases side with
    | source => simp [Side.pick, Site.element] at hu
    | target =>
      have hu : use ∈ inner.place.fieldUses := by
        simpa [Side.pick, Site.element, Expr.fieldUses] using hu
      exact (hin .target use hu).deepen (.element ho (.element hx hy))
  | key | entry =>
    cases side with
    | source => simp [Side.pick, Site.key, Site.entry] at hu
    | target => simp [Side.pick, Site.key, Site.entry] at hu
  | @field v w m f hv hw hm hf hp =>
    have hat : c.FieldAt inner f := .intro hv hw hm hf
    have hdeep : c.Deepens side t (f.site inner.depth) := .field side ho hat
    have hu : use ∈ (side.pick f.value f.place).fieldUses := by
      cases side with
      | source =>
        rw [Side.pick, FieldSite.site] at hu
        split at hu
        · rwa [Expr.fieldUses_deref] at hu
        · exact hu
      | target => exact hu
    obtain ⟨name, heq, hn⟩ := hat.selected side
    rw [heq, Expr.fieldUses, List.mem_cons] at hu
    rcases hu with rfl | hu
    · exact .intro hst (.single hdeep) (Or.inr ho) hn
    · exact (hin side use hu).deepen hdeep
  | alternative hu' hab hn =>
    cases side with
    | source => simp [Side.pick, Site.alternative] at hu
    | target => exact (hin .target use hu).deepen (.alternative ho (.alternative hu' hab hn))

/-- What is named at a site is declared there, or above. -/
theorem UsedAt.designates (h : c.UsedAt inner use)
    (hin : ∀ side : Side, ∀ use ∈ (side.pick inner.value inner.place).fieldUses,
      c.Selects s side t use) : c.Designates s t use := by
  cases h with
  | inside side h => exact .selected (hin side use h)
  | select side hn => exact .selected (.intro hst .refl (Or.inr ho) hn)
  | literal htype hn => exact .literal ho htype hn

end Levels

/-- A wrapped alternative starts with variables on both sides, so nothing is carried along. -/
theorem Wraps.carried (s : Site) (h : c.Wraps t u) : c.Carried s u := by
  intro side use hu
  cases h with
  | alternative =>
    cases side with
    | source => simp [Side.pick, Site.wrapped, Site.alternative] at hu
    | target => simp [Side.pick, Site.wrapped, Site.alternative] at hu

/-- To store something that is made of the value of a site names fields that are declared. -/
theorem Carried.store (ht : c.Carried s t) {e : Expr} (he : e.fieldUses ⊆ t.value.fieldUses) :
    ∀ use ∈ (t.store e).fieldUses, c.Designates s t use := by
  intro use hu
  rcases List.mem_append.mp hu with hu | hu
  · exact .selected (ht .target use hu)
  · exact .selected (ht .source use (he hu))

/-- What the levels preserve: sites further down are in the code of the same site, and select fields
    that are declared at the sites above them. -/
theorem attrWithin_fieldsDeclared
    (hbox : ∀ t, ReflTransGen c.InPlace s t → c.BoxNamed t.pair) :
    ∀ {levels : Nat} {t : Site} {b : Block} {known : List Expr}, ReflTransGen c.InPlace s t →
      c.Carried s t → (c.attrWithin levels t).Yields b →
        ∀ step ∈ b.steps known, c.FieldsDeclared s step.stmt := by
  intro levels
  -- -- The invariant is `Carried`: the fields in the expressions of a site were selected above it.
  induction levels with
  | zero => intro t b known _ _ h; exact absurd h Walk.yields_exhausted
  | succ levels ih =>
    intro t b known hst ht h step hm
    obtain ⟨inner, ho, ⟨type, hbox⟩ | hstep⟩ := attrVia_names h hm
    · rw [hbox]
      refine .intro (.inPlace hst) (Or.inl rfl) (.store _) (ht.store ?_)
      rw [Expr.fieldUses_allocate, Expr.fieldUsesFields]
      exact List.nil_subset _
    · have hin := ho.selects hst (hbox t hst) ht
      cases hstep with
      | own hown hu =>
        exact .intro (.inPlace hst) (Or.inr ho) hown fun use h =>
          (hu use h).designates hst ho hin
      | nested hb hc hmem =>
        have hcarried := hb.carried hst ho hin
        rcases nested_yields.mp hc with ⟨hcalls, name, -, rfl⟩ | ⟨hcalls, hcode⟩
        · rw [Site.store, Block.steps_cons, Stmt.steps_assign, Block.steps_nil, List.append_nil,
            List.mem_singleton] at hmem
          rw [hmem]
          refine .intro (.called ⟨t, inner, hst, ho, hb, hcalls⟩) (Or.inl rfl) (.store _)
            (hcarried.store ?_)
          rw [Expr.fieldUses, Expr.fieldUsesAll, Expr.fieldUsesAll, List.append_nil]
          exact List.Subset.refl _
        · exact ih (hst.tail (.unfolded ho hb hcalls)) hcarried hcode step hmem
      | wrapped hw hc hmem =>
        exact ih (hst.tail (.wrapped ho hw)) (hw.carried s) hc step hmem

/-- In code that starts with variables, every field that is named is declared. To begin with there
    are two variables, so no field has been selected before the code starts. -/
theorem inline_fieldsDeclared {a d : Attribute} {value place : String} {declare : Bool}
    {depth : Nat} {inBox : Bool} (hbox : ∀ p, c.Reaches (a, d) p → c.BoxNamed p)
    (h : (c.inline (.between a d value place declare depth inBox)).Yields b) :
    ∀ step ∈ b.steps [],
      c.FieldsDeclared (.between a d value place declare depth inBox) step.stmt := by
  have hvars := Carried.between (c := c) (.between a d value place declare depth inBox) a d value
    place declare depth inBox
  refine attrWithin_fieldsDeclared (fun t ht => ?_) .refl hvars h
  refine hbox t.pair (reaches_of_unfolds ?_)
  exact ReflTransGen.lift Site.pair (fun _ _ => InPlace.unfolds) _ _ ht

/-- The check at the beginning of a helper names no field. -/
theorem guard_fieldUses (x : HelperSite) : ∀ step ∈ x.guard.steps [], step.stmt.fieldUses = [] := by
  intro step hm
  unfold HelperSite.guard at hm
  split at hm
  · simp at hm
  · rw [Block.steps_cons, Stmt.steps_when, Block.steps_nil, List.append_nil, List.mem_cons,
      Block.steps_cons, Stmt.steps, Block.steps_nil, List.append_nil, List.mem_singleton] at hm
    rcases hm with rfl | rfl
    · rw [Stmt.fieldUses_when, Expr.fieldUses_isNil, Expr.fieldUses_ident]
    · simp [Stmt.fieldUses, Expr.fieldUsesAll, Expr.fieldUses]

/-- In the body of a helper, every field that is named is declared where it is selected. A helper is
    built for a pair that the request reaches, so the condition on boxes carries over to it. -/
theorem helper_fieldsDeclared {name : String} {x : HelperSite} {h : Helper}
    (hbox : ∀ p, c.Reaches x.pair p → c.BoxNamed p) (hyields : (c.helper name x).Yields h) :
    c.FieldsDeclaredHelper h := by
  obtain ⟨param, result, code, -, -, hcode, hshape⟩ := helper_yields.mp hyields
  have hdeclared := inline_fieldsDeclared hbox hcode
  obtain rfl : name = h.name := by rw [hshape]
  have hbody : h.body = x.guard ++ code ++ [.ret [.ident "res"]] := by rw [hshape]
  refine .intro hyields fun step hm => ?_
  rw [hbody, Block.steps_append, Block.steps_append, List.mem_append, List.mem_append,
    Block.steps_cons, Stmt.steps, Block.steps_nil, List.append_nil, List.mem_singleton] at hm
  rcases hm with (hm | hm) | rfl
  · exact Or.inl (guard_fieldUses x step hm)
  · exact Or.inr (hdeclared step hm)
  · exact Or.inl (by simp [Stmt.fieldUses, Expr.fieldUsesAll])

/-- Every field that the code of a request or a helper selects, or sets in a literal, is declared by
    the object there, as long as the boxes that are opened keep the name of their field. -/
theorem compile_fieldsDeclared (c : Conversion) (a b : Attribute) (value place : String)
    (declare : Bool) (depth : Nat) (inBox : Bool) (met met' : List String) (out : Compiled)
    (hbox : ∀ p, c.Reaches (a, b) p → c.BoxNamed p)
    (h : (c.compile (.between a b value place declare depth inBox)).Yields met out met') :
    (∀ step ∈ out.body.steps [],
      c.FieldsDeclared (.between a b value place declare depth inBox) step.stmt) ∧
      ∀ k ∈ out.helpers, c.FieldsDeclaredHelper k := by
  obtain ⟨hbody, made, hmade, hout⟩ := compile_yields.mp h
  obtain ⟨found, hfound, hmadeOf⟩ := collect_factors (p := (a, b)) hmade
  obtain ⟨hfinds, -⟩ := collect_finds hfound
  refine ⟨inline_fieldsDeclared hbox hbody, fun k hk => ?_⟩
  rw [hout] at hk
  obtain ⟨x, hx, hyields⟩ := forall₂_mem_right hmadeOf ((sorted_perm made).mem_iff.mp hk)
  exact helper_fieldsDeclared (fun p hp => hbox p ((hfinds.reached x hx).trans hp)) hyields

/-- Boxes keep the name of their field where no name is overridden. The condition can be read off
    the attributes that a type is made of, without a search for the pairs. -/
theorem boxNamed_of_standing (h : ∀ x ∈ c.registry.standing (c.wire.pick p.1 p.2),
    x.overrides.fieldName = none) (hp : c.Reaches p q) : c.BoxNamed q := by
  intro _ r hr
  have hq := Registry.mem_standingPairs.mp hp.mem_standing
  have hcontent : c.wire.pick r.1 r.2 ∈ c.registry.standing (c.wire.pick p.1 p.2) := by
    rcases openBox?_eq_some hr with ⟨hw, -, ho⟩ | ⟨hw, -, ho⟩
    · rw [hw]
      exact Registry.unbox?_mem_standing ho hq.2
    · rw [hw]
      exact Registry.unbox?_mem_standing ho hq.1
  rw [Attribute.fieldName, h _ hcontent]
  decide

/-! ## A page that is sent in boxes -/

/-- A box for the title of a page, and a page inside the page. -/
def packet : UserType where
  id := "Packet"
  name := "Packet"
  definition := { type := .object [
    ("title", { type := .object [("field", { type := .primitive .string })] }),
    ("next", .user "Packet")] }

/-- Pages of the service are sent with their titles in boxes. -/
def packetConversion : Conversion where
  scope := .ofRegistry { types := pageRegistry.types ++ [packet], nodup := by decide }
  source := .service
  target := .body

/-- The conversion of a page to a packet. -/
def packetSite : Site := .between (.user "Page") (.user "Packet") "v" "res"

/-- The title is stored in a box, which keeps its name, and a helper converts the next page. The
    premise on boxes can be decided for them, as no attribute gives a name of its own. -/
theorem compile_fieldsDeclared_packets :
    (∀ p, packetConversion.Reaches packetSite.pair p → packetConversion.BoxNamed p) ∧
    ∃ out met', (packetConversion.compile packetSite).Yields [] out met' ∧
      (∀ step ∈ out.body.steps [], packetConversion.FieldsDeclared packetSite step.stmt) ∧
      ∀ k ∈ out.helpers, packetConversion.FieldsDeclaredHelper k := by
  have hbox : ∀ p, packetConversion.Reaches packetSite.pair p → packetConversion.BoxNamed p :=
    fun p hp => boxNamed_of_standing (by decide +kernel) hp
  obtain ⟨out, met', h⟩ : ∃ out met',
      (packetConversion.compile packetSite).Yields [] out met' := by
    decide +kernel
  exact ⟨hbox, out, met', h, compile_fieldsDeclared packetConversion (.user "Page") (.user "Packet")
    "v" "res" true 0 false [] met' out hbox h⟩

/-! ## A box with a nickname -/

/-- A box whose field is called otherwise in code. -/
def nicknamed : Attribute where
  type := .object
    [("field", { type := .primitive .string, overrides := { fieldName := some "Other" } })]
  rules := { required := ["field"] }

/-- The conversion of a string to such a box. -/
def nicknameSite : Site := .between { type := .primitive .string } nicknamed "v" "res"

/-- No object declares a field of the name that the content of a box is selected by, neither the
    box nor what is in it. -/
theorem nickname_undeclared {side : Side} {u w : Site}
    (hu : ReflTransGen pageConversion.InPlace nicknameSite u)
    (hw : w = u ∨ pageConversion.Opens u w) :
    ¬ pageConversion.registry.DeclaresField (side.pick w.source w.target) boxFieldName := by
  obtain rfl : u = nicknameSite := by
    rcases hu.cases_head with rfl | ⟨t, ht, -⟩
    · rfl
    · exact absurd ht.unfolds.nested (not_nested_of_isPrimitive rfl)
  -- -- There are two pairs to look at, with the box closed and with the box open.
  have hpair : w.pair = nicknameSite.pair ∨
      pageConversion.openBox? nicknameSite.source nicknameSite.target = .ok (some w.pair) := by
    rcases hw with rfl | ho
    · exact Or.inl rfl
    · cases ho with
      | plain => exact Or.inl rfl
      | boxed _ _ ho => exact Or.inr (unboxed_yields ho).opened
  have hpick : side.pick w.source w.target = side.pick w.pair.1 w.pair.2 := rfl
  rcases hpair with hpair | hpair
  · rw [hpick, hpair]
    cases side
    · decide +kernel
    · decide +kernel
  · rw [hpick, ← Option.some.inj (Except.ok.inj hpair)]
    cases side
    · decide +kernel
    · decide +kernel

/-- The code stores the value in a field that is not declared. The struct is declared with the name
    that the attribute gives, and the code selects the one that a box would have by default. -/
theorem nicknamed_not_declared : ∃ out met',
    (pageConversion.compile nicknameSite).Yields [] out met' ∧
      ¬ ∀ step ∈ out.body.steps [], pageConversion.FieldsDeclared nicknameSite step.stmt := by
  obtain ⟨out, met', h, step, hm, use, hu, hroot, hname⟩ : ∃ out met',
      (pageConversion.compile nicknameSite).Yields [] out met' ∧
        ∃ step ∈ out.body.steps [], ∃ use ∈ step.stmt.fieldUses,
          use.root? = some "res" ∧ use.name = boxFieldName := by
    decide +kernel
  refine ⟨out, met', h, fun hall => ?_⟩
  cases hall step hm with
  | intro _ _ _ hd =>
    cases hd use hu with
    | selected hs =>
      cases hs with
      | @intro u w name hplace _ hw hn =>
        obtain rfl : name = boxFieldName := hname
        exact nickname_undeclared hplace hw hn
    | literal => cases hroot

end Conversion
end Shapewright
