import Mathlib.Data.List.Nodup
import Shapewright.Proofs.Positions

/-!
# Fields of generated structs

An object becomes a struct with a field for each of its fields. Where the generated names are
distinct, each of them leads back to the one field that it was generated for, and so do the names in
the design.

Names in the design are texts, and a generated name is what identifiers keep of them, unless the
design gives one. So generated names can clash while those in the design differ, and it is the
former that have to be asked for (`ObjectView.Distinct`): that the latter differ follows.

Code selects fields by name, in the value as well as in the result. Common fields of two objects are
those of one name in the design. With distinct names on both sides, they are matched one to one, and
go into different fields of the result (`nodup_placeNames`).
-/

namespace Shapewright

/-- Where keys are distinct, an entry is found by its key. -/
theorem find?_of_nodup_map {α : Type} {key : α → String} {entries : List α}
    (hn : (entries.map key).Nodup) {e : α} (he : e ∈ entries) :
    entries.find? (fun x => key x == key e) = some e := by
  cases hfind : entries.find? (fun x => key x == key e) with
  | none => simpa using List.find?_eq_none.mp hfind e he
  | some found =>
    have hkey : key found = key e := by simpa using List.find?_some hfind
    rw [List.inj_on_of_nodup_map hn (List.mem_of_find?_eq_some hfind) he hkey]

namespace Ordered

variable {κ α : Type} [BEq κ] [LawfulBEq κ] {entries : List (κ × α)} {key : κ} {value : α}

theorem get?_of_mem (hn : (entries.map Prod.fst).Nodup) (h : (key, value) ∈ entries) :
    get? entries key = some value := by
  obtain ⟨found, hfound⟩ := exists_get? (List.mem_map.mpr ⟨_, h, rfl⟩)
  have heq := List.inj_on_of_nodup_map hn (mem_of_get? hfound) h rfl
  rw [hfound, (Prod.mk.inj heq).2]

theorem get?_eq_none (h : key ∉ entries.map Prod.fst) : get? entries key = none := by
  cases hfound : get? entries key with
  | none => rfl
  | some value => exact absurd (List.mem_map.mpr ⟨_, mem_of_get? hfound, rfl⟩) h

end Ordered

namespace ObjectView

variable {v w : ObjectView} {name : String} {a : Attribute}

/-- No two fields have one generated name. Their declared names are different anyway, and this is
    about what these become. -/
def Distinct (v : ObjectView) : Prop := (v.fields.map fun x => v.fieldName x.1).Nodup

theorem Distinct.nodup_names (h : v.Distinct) : (v.fields.map Prod.fst).Nodup := by
  have hmap :
      v.fields.map (fun x => v.fieldName x.1) = (v.fields.map Prod.fst).map v.fieldName := by
    rw [List.map_map]
    rfl
  unfold Distinct at h
  rw [hmap] at h
  exact h.of_map

theorem Distinct.field? (h : v.Distinct) (hm : (name, a) ∈ v.fields) : v.field? name = some a :=
  Ordered.get?_of_mem h.nodup_names hm

theorem Distinct.fieldName (h : v.Distinct) (hm : (name, a) ∈ v.fields) :
    v.fieldName name = a.fieldName name := by
  rw [ObjectView.fieldName, h.field? hm, Option.getD_some]

/-- A generated name tells which field it was generated for. -/
theorem Distinct.fieldName_injOn (h : v.Distinct) {other : String}
    (hname : name ∈ v.fields.map Prod.fst) (hother : other ∈ v.fields.map Prod.fst)
    (heq : v.fieldName name = v.fieldName other) : name = other := by
  obtain ⟨x, hx, rfl⟩ := List.mem_map.mp hname
  obtain ⟨y, hy, rfl⟩ := List.mem_map.mp hother
  rw [List.inj_on_of_nodup_map h hx hy heq]

end ObjectView

section Matching

variable {v w : ObjectView} {m : FieldMatch}

theorem mem_fields_of_mem_matchFields (h : m ∈ matchFields v w) :
    (m.name, m.source) ∈ v.fields ∧ w.field? m.name = some m.target := by
  obtain ⟨⟨name, a⟩, ha, h⟩ := List.mem_filterMap.mp h
  obtain ⟨b, hb, rfl⟩ := Option.map_eq_some_iff.mp h
  exact ⟨ha, hb⟩

theorem mem_matchFields_of_mem {name : String} {a b : Attribute} (ha : (name, a) ∈ v.fields)
    (hb : w.field? name = some b) : ⟨name, a, b⟩ ∈ matchFields v w :=
  List.mem_filterMap.mpr ⟨(name, a), ha, by simp only [hb, Option.map_some]⟩

/-- Common fields come in the order of the source. A name that occurs once in the source therefore
    occurs once among the matches. -/
theorem names_matchFields_sublist (v w : ObjectView) :
    ((matchFields v w).map (·.name)).Sublist (v.fields.map Prod.fst) := by
  unfold matchFields
  induction v.fields with
  | nil => exact .slnil
  | cons x rest ih =>
    obtain ⟨name, a⟩ := x
    rw [List.filterMap_cons, List.map_cons]
    dsimp only
    cases w.field? name with
    | none => exact .cons name ih
    | some b => exact .cons_cons name ih

/-- Different fields that match go into different fields of the result. The names of the two objects
    are different within each of them, and a match is by the declared name. -/
theorem nodup_placeNames (hv : v.Distinct) (hw : w.Distinct) :
    ((matchFields v w).map fun m => w.fieldName m.name).Nodup := by
  have hnames : ((matchFields v w).map (·.name)).Nodup :=
    hv.nodup_names.sublist (names_matchFields_sublist v w)
  have hin : ∀ m ∈ matchFields v w, m.name ∈ w.fields.map Prod.fst := by
    intro m hm
    obtain ⟨-, hb⟩ := mem_fields_of_mem_matchFields hm
    exact List.mem_map.mpr ⟨_, Ordered.mem_of_get? hb, rfl⟩
  refine List.Nodup.map_on (fun m hm n hn heq => ?_) hnames.of_map
  exact List.inj_on_of_nodup_map hnames hm hn (hw.fieldName_injOn (hin m hm) (hin n hn) heq)

end Matching

namespace Scope

variable {s : Scope} {ctx : Context} {required : List String}

/-- Every field of a struct is there for a field of the object, with the type that the context gives
    to it. -/
theorem structFields_forall₂ : ∀ {fields : List (String × Attribute)}
    {types : List (StructField TypeRef)}, s.structFields ctx required fields = .ok types →
      List.Forall₂ (fun x t => t.name = x.2.fieldName x.1 ∧
        s.fieldType ctx x.2 (required.contains x.1) = .ok t.type) fields types := by
  intro fields
  induction fields with
  | nil =>
    intro types h
    rw [structFields] at h
    cases h
    exact .nil
  | cons x rest ih =>
    obtain ⟨name, a⟩ := x
    intro types h
    rw [structFields] at h
    simp only [except_bind_eq_ok] at h
    obtain ⟨type, htype, pointer, hpointer, others, hothers, h⟩ := h
    cases h
    refine .cons ⟨rfl, ?_⟩ (ih hothers)
    unfold fieldType
    simp only [except_bind_eq_ok]
    exact ⟨type, htype, pointer, hpointer, rfl⟩

/-- Objects are held behind pointers. That goes for objects in place and for references alike. -/
theorem typeRef_of_view {b : Attribute} {w : ObjectView} {type : TypeRef}
    (hw : ObjectView.of? s.registry b = .ok (some w)) (h : s.typeRef ctx b = .ok type) :
    ∃ inner, type = .pointer inner := by
  obtain ⟨hr, ht⟩ := Registry.view_eq_some.mp hw
  -- A reference is to an object, which is held behind a pointer; without a reference the attribute
  -- is a struct itself.
  cases hb : b.userId? with
  | some id =>
    have hsame : Attribute.BothRefer id b (.user id) := ⟨hb, rfl⟩
    have hk := Registry.kind_of_view hw
    rw [hsame.kind_eq] at hk
    rw [hsame.typeRef_eq, Attribute.user, typeRef, userRef] at h
    simp only [except_bind_eq_ok, hk, Except.ok.injEq, exists_eq_left'] at h
    obtain ⟨name, -, h⟩ := h
    exact ⟨_, h.symm⟩
  | none =>
    obtain rfl := Except.ok.inj ((Registry.resolve_of_userId?_eq_none hb).symm.trans hr)
    obtain ⟨⟨btype, description, rules, overrides, default⟩, fields⟩ := w
    obtain rfl : btype = .object fields := ht
    rw [typeRef] at h
    simp only [except_bind_eq_ok] at h
    obtain ⟨fields, -, h⟩ := h
    cases h
    exact ⟨_, rfl⟩

end Scope
end Shapewright
