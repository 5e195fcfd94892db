import Shapewright.Proofs.Layout

/-!
# The names of types

The named types that a piece of code writes: in literals, conversions, assertions and declarations,
at whatever depth. A name belongs to a package, or to the one at hand. All names in the type of an
attribute are put there by what is written in the attribute: by references, by unions with the
wrappers of their alternatives, and by primitives with a type of their own.

## Names in code

`typeNames` goes through expressions, statements and blocks and lists the names they write. It looks
into everything that holds an expression, so a name that is missed in the list is written nowhere.
The lemmas tagged for simplification take it apart along the ways in which code is built.

## Names in attributes

The type of an attribute is put together from the attribute and from what is written in place below
it; a reference contributes a name and is not followed. `Attribute.Spells` lists what an attribute
contributes by itself, and `spells_of_typeRef` says that there is nothing else. What is behind a
reference becomes important only where a conversion goes there.
-/

namespace Shapewright

/-- The package that declares a named type, unless it is the one at hand, and its name. -/
abbrev TypeName := Option String × String

/-- The full name of a type that is declared in the context's package. -/
def Context.typeName (ctx : Context) (name : String) : TypeName :=
  (if ctx.package.isEmpty then none else some ctx.package, name)

namespace TypeRef

mutual

/-- The names in a type. -/
def names : TypeRef → List TypeName
  | .primitive _ => []
  | .named pkg name => [(pkg, name)]
  | .pointer inner => inner.names
  | .slice elem => elem.names
  | .map key elem => key.names ++ elem.names
  | .struct fields => namesFields fields
  | .error => []

def namesFields : List (StructField TypeRef) → List TypeName
  | [] => []
  | ⟨_, type, _⟩ :: rest => type.names ++ namesFields rest

end

/-- The names in the fields of a struct are those in their types. -/
theorem mem_namesFields {n : TypeName} {fields : List (StructField TypeRef)} :
    n ∈ namesFields fields ↔ ∃ f ∈ fields, n ∈ f.type.names := by
  induction fields with
  | nil => simp [namesFields]
  | cons f rest ih =>
    rw [namesFields, List.mem_append, ih]
    simp only [List.mem_cons, or_and_right, exists_or, exists_eq_left]

@[simp] theorem names_pointee (t : TypeRef) : t.pointee.names = t.names := by
  cases t <;> simp only [pointee, names]

@[simp] theorem names_qualify (ctx : Context) (name : String) :
    (ctx.qualify name).names = [ctx.typeName name] := rfl

end TypeRef

/-! ## Names in code -/

namespace Expr

mutual

/-- The names of the types that an expression writes. -/
def typeNames : Expr → List TypeName
  | .ident _ => []
  | .field base _ => base.typeNames
  | .index base idx => base.typeNames ++ idx.typeNames
  | .deref inner => inner.typeNames
  | .addr inner => inner.typeNames
  | .nil => []
  | .lit _ type => type.names
  | .str _ => []
  | .int _ => []
  | .call _ args => typeNamesAll args
  | .convert type value => type.names ++ value.typeNames
  | .assert value type => value.typeNames ++ type.names
  | .composite type fields _ => type.names ++ typeNamesFields fields
  | .sliceLit elem items => elem.names ++ typeNamesAll items
  | .make type size => type.names ++ size.typeNames
  | .len inner => inner.typeNames
  | .binary _ lhs rhs => lhs.typeNames ++ rhs.typeNames
  | .not inner => inner.typeNames

def typeNamesAll : List Expr → List TypeName
  | [] => []
  | e :: rest => e.typeNames ++ typeNamesAll rest

def typeNamesFields : List (String × Expr) → List TypeName
  | [] => []
  | (_, e) :: rest => e.typeNames ++ typeNamesFields rest

end

/-- The names in the fields of a literal are those in their values. -/
theorem mem_typeNamesFields {n : TypeName} {fields : List (String × Expr)} :
    n ∈ typeNamesFields fields ↔ ∃ f ∈ fields, n ∈ f.2.typeNames := by
  induction fields with
  | nil => simp [typeNamesFields]
  | cons f rest ih =>
    rw [typeNamesFields, List.mem_append, ih]
    simp only [List.mem_cons, or_and_right, exists_or, exists_eq_left]

@[simp] theorem typeNames_notNil (e : Expr) : e.notNil.typeNames = e.typeNames := by
  rw [notNil, typeNames, typeNames, List.append_nil]

@[simp] theorem typeNames_isNil (e : Expr) : e.isNil.typeNames = e.typeNames := by
  rw [isNil, typeNames, typeNames, List.append_nil]

end Expr

namespace Stmt

mutual

/-- The names of the types that a statement writes. -/
def typeNames : Stmt → List TypeName
  | .assign lhs rhs _ => lhs.typeNames ++ rhs.typeNames
  | .declare _ type none => type.names
  | .declare _ type (some value) => type.names ++ value.typeNames
  | .cond none test body otherwise =>
    test.typeNames ++ typeNamesAll body ++ typeNamesAll otherwise
  | .cond (some init) test body otherwise =>
    init.typeNames ++ test.typeNames ++ typeNamesAll body ++ typeNamesAll otherwise
  | .block body => typeNamesAll body
  | .range _ _ whole body => whole.typeNames ++ typeNamesAll body
  | .typeSwitch _ subject cases => subject.typeNames ++ typeNamesTypes cases
  | .switch subject cases fallback =>
    subject.typeNames ++ typeNamesCases cases ++ typeNamesAll fallback
  | .ret values => Expr.typeNamesAll values
  | .continue => []
  | .expr e => e.typeNames

def typeNamesAll : List Stmt → List TypeName
  | [] => []
  | s :: rest => s.typeNames ++ typeNamesAll rest

def typeNamesTypes : List (TypeRef × List Stmt) → List TypeName
  | [] => []
  | (type, body) :: rest => type.names ++ typeNamesAll body ++ typeNamesTypes rest

def typeNamesCases : List (List Expr × List Stmt) → List TypeName
  | [] => []
  | (labels, body) :: rest =>
    Expr.typeNamesAll labels ++ typeNamesAll body ++ typeNamesCases rest

end

end Stmt

/-- The names of the types that a block writes. -/
def Block.typeNames (b : Block) : List TypeName := Stmt.typeNamesAll b

namespace Block

@[simp] theorem typeNames_nil : typeNames [] = [] := rfl

@[simp] theorem typeNames_cons (s : Stmt) (b : Block) :
    typeNames (s :: b) = s.typeNames ++ typeNames b := rfl

/-- The names in two blocks are those in one and then those in the other. -/
@[simp] theorem typeNames_append (a b : Block) :
    typeNames (a ++ b) = typeNames a ++ typeNames b := by
  induction a with
  | nil => rw [List.nil_append, typeNames_nil, List.nil_append]
  | cons s a ih =>
    rw [List.cons_append, typeNames_cons, typeNames_cons, ih, List.append_assoc]

theorem typeNames_flatMap {α : Type} (xs : List α) (f : α → Block) :
    typeNames (xs.flatMap f) = xs.flatMap fun x => typeNames (f x) := by
  induction xs with
  | nil => rw [List.flatMap_nil, List.flatMap_nil, typeNames_nil]
  | cons x xs ih => rw [List.flatMap_cons, List.flatMap_cons, typeNames_append, ih]

/-- The names in the cases of a switch are those in their labels and bodies. -/
theorem mem_typeNames_cases {n : TypeName} {cases : List (List Expr × Block)} :
    n ∈ Stmt.typeNamesCases cases ↔
      ∃ x ∈ cases, n ∈ Expr.typeNamesAll x.1 ∨ n ∈ typeNames x.2 := by
  induction cases with
  | nil => simp [Stmt.typeNamesCases]
  | cons x rest ih =>
    rw [Stmt.typeNamesCases, List.mem_append, List.mem_append, ih]
    simp only [List.mem_cons, or_and_right, exists_or, exists_eq_left, typeNames]

end Block

namespace Stmt

@[simp] theorem typeNames_set (place value : Expr) :
    (set place value).typeNames = place.typeNames ++ value.typeNames := rfl

@[simp] theorem typeNames_when (test : Expr) (body : Block) :
    (Stmt.when test body).typeNames = test.typeNames ++ Block.typeNames body := by
  rw [Stmt.when, typeNames, typeNamesAll, List.append_nil, Block.typeNames]

@[simp] theorem typeNames_range (key value : Option String) (whole : Expr) (body : Block) :
    (Stmt.range key value whole body).typeNames = whole.typeNames ++ Block.typeNames body := rfl

end Stmt

/-- The names of the types that a function takes, gives and writes. -/
def Func.typeNames (f : Func) : List TypeName :=
  f.params.flatMap (·.type.names) ++ f.results.flatMap (·.type.names) ++ Block.typeNames f.body

/-! ## Names in the types of attributes -/

namespace Attribute

/-- The attribute itself, not what is written below it, puts the name into types. A union puts in
    the names of its wrappers besides its own. -/
inductive Spells (s : Scope) (ctx : Context) (a : Attribute) : TypeName → Prop
  | user {id : TypeId} {name : String} (hid : a.userId? = some id) (hn : s.name id = .ok name) :
      Spells s ctx a (ctx.typeName name)
  | union {name : String} {alternatives : List (String × Attribute)}
      (ht : a.type = .union name alternatives) :
      Spells s ctx a (ctx.typeName (Identifier.exported name))
  | wrapper {name : String} {alternatives : List (String × Attribute)} {x : String × Attribute}
      (ht : a.type = .union name alternatives) (hx : x ∈ alternatives) :
      Spells s ctx a (ctx.typeName (Identifier.exported name ++ x.2.fieldName x.1))
  | override {p : Primitive} {name : String} (ht : a.type = .primitive p)
      (ho : a.overrides.typeName = some name) : Spells s ctx a (none, name)

end Attribute

namespace Scope

variable {s : Scope} {ctx : Context} {a : Attribute} {type : TypeRef} {n : TypeName}

/-- A primitive has a name only if it was given a type of its own. -/
theorem override_of_primitiveRef {p : Primitive} (hn : n ∈ (primitiveRef ctx a p).names) :
    ∃ name, a.overrides.typeName = some name ∧ n = (none, name) := by
  unfold primitiveRef at hn
  split at hn
  · rename_i name ho _
    rw [TypeRef.names, List.mem_singleton] at hn
    exact ⟨name, ho, hn⟩
  · rw [TypeRef.names] at hn
    cases hn

/-- A reference has the name of the type it refers to. -/
theorem name_of_userRef {id : TypeId} (h : s.userRef ctx a id = .ok type) (hn : n ∈ type.names) :
    ∃ name, s.name id = .ok name ∧ n = ctx.typeName name := by
  unfold userRef at h
  obtain ⟨name, hname, h⟩ := except_bind_eq_ok.mp h
  obtain ⟨kind, -, h⟩ := except_bind_eq_ok.mp h
  refine ⟨name, hname, ?_⟩
  split at h
  · split at h
    · cases h
      rw [TypeRef.names] at hn
      cases hn
    · cases h
      simpa using hn
  · cases h
    simpa [TypeRef.names] using hn
  · cases h
    simpa using hn

/-- A name in the type of an attribute is put there by something that is written in it. Types that
    are written in place are gone through, and those that are referred to are not. -/
theorem spells_of_typeRef : ∀ {a : Attribute} {type : TypeRef}, s.typeRef ctx a = .ok type →
    n ∈ type.names → ∃ x ∈ a.parts, x.Spells s ctx n := by
  intro a
  -- Attributes are nested through lists of fields, so the induction is on their size.
  induction hsize : a.size using Nat.strongRecOn generalizing a with
  | ind size ih =>
    intro type h hn
    have below : ∀ {b : Attribute} {type : TypeRef}, b ∈ a.children → s.typeRef ctx b = .ok type →
        n ∈ type.names → ∃ x ∈ a.parts, x.Spells s ctx n := by
      intro b type hb h hn
      obtain ⟨x, hx, hspells⟩ := ih _ (hsize ▸ Attribute.size_lt_of_mem_children hb) rfl h hn
      exact ⟨x, Attribute.parts_subset (Attribute.mem_parts_of_mem_children hb) hx, hspells⟩
    obtain ⟨t, description, rules, overrides, default⟩ := a
    cases t with
    | primitive p =>
      rw [typeRef] at h
      cases h
      obtain ⟨name, ho, rfl⟩ := override_of_primitiveRef hn
      exact ⟨_, Attribute.mem_parts_self _, .override rfl ho⟩
    | user id =>
      rw [typeRef] at h
      obtain ⟨name, hname, rfl⟩ := name_of_userRef h hn
      exact ⟨_, Attribute.mem_parts_self _, .user rfl hname⟩
    | array elem =>
      rw [typeRef] at h
      obtain ⟨t, ht, h⟩ := except_bind_eq_ok.mp h
      cases h
      rw [TypeRef.names] at hn
      exact below (by simp [Attribute.children]) ht hn
    | map key elem =>
      rw [typeRef] at h
      obtain ⟨k, hk, h⟩ := except_bind_eq_ok.mp h
      obtain ⟨e, he, h⟩ := except_bind_eq_ok.mp h
      cases h
      rw [TypeRef.names, List.mem_append] at hn
      rcases hn with hn | hn
      · exact below (by simp [Attribute.children]) hk hn
      · exact below (by simp [Attribute.children]) he hn
    | object fields =>
      rw [typeRef] at h
      obtain ⟨types, htypes, h⟩ := except_bind_eq_ok.mp h
      cases h
      rw [TypeRef.names, TypeRef.names, TypeRef.mem_namesFields] at hn
      obtain ⟨f, hf, hn⟩ := hn
      obtain ⟨x, hx, -, hfield⟩ := forall₂_mem_right (structFields_forall₂ htypes) hf
      unfold fieldType at hfield
      obtain ⟨t, ht, hfield⟩ := except_bind_eq_ok.mp hfield
      obtain ⟨pointer, -, hfield⟩ := except_bind_eq_ok.mp hfield
      have hnames : f.type.names = t.names := by
        rw [← Except.ok.inj hfield]
        split
        · rw [TypeRef.names]
        · rfl
      exact below (List.mem_map_of_mem hx) ht (hnames ▸ hn)
    | union name alternatives =>
      rw [typeRef] at h
      cases h
      rw [TypeRef.names_qualify, List.mem_singleton] at hn
      exact ⟨_, Attribute.mem_parts_self _, hn ▸ .union rfl⟩

/-- A name in the type of an alternative is put there by the union or by what is written in it. -/
theorem spells_of_alternativeRef {union : String} {alternatives : List (String × Attribute)}
    {index : Nat} (ht : a.type = .union union alternatives)
    (h : s.alternativeRef ctx union alternatives index = .ok type) (hn : n ∈ type.names) :
    ∃ x ∈ a.parts, x.Spells s ctx n := by
  unfold alternativeRef at h
  split at h
  · cases h
  · rename_i name b hb
    have hmem := List.mem_of_getElem? hb
    obtain ⟨named, -, h⟩ := except_bind_eq_ok.mp h
    split at h
    · obtain ⟨x, hx, hspells⟩ := spells_of_typeRef h hn
      have hchild : b ∈ a.children := by
        simpa [Attribute.children, ht] using ⟨name, hmem⟩
      exact ⟨x, Attribute.parts_subset (Attribute.mem_parts_of_mem_children hchild) hx, hspells⟩
    · cases h
      rw [TypeRef.names_qualify, List.mem_singleton] at hn
      exact ⟨a, Attribute.mem_parts_self a, hn ▸ .wrapper ht hmem⟩

end Scope
end Shapewright
