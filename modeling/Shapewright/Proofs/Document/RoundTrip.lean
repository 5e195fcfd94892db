import Shapewright.Document.Schema
import Shapewright.Document.Writer
import Shapewright.Proofs.Document.Reading
import Shapewright.Proofs.Projection.Correspondence

/-!
# Documents, written and read again

What is written of a document is read as the same document. The writer leaves out what is empty, and
the reader takes what is missing for empty; the shapes by which data types, literals and the
attributes of views are told apart are never confused.

Fields and contexts are the keys of objects, so a document can be written and read again only if it
declares none of them twice. No document that was read does.

## One lemma for each kind of data

For each kind of data there is a lemma that what is written of it is read as it was, named `reads_`
after the reader. Those about records put together one step for each field, in the order in which
the writer has them: a field that is always written, one that is written if it is there, and one
that is left out where it is empty (`Laid.needed`, `Laid.present`, `Laid.omitted`).

Data types and attributes are nested in each other. The readers go down a number of levels, which is
that of the draft; so the induction is on that number, and all it needs of the writer is that what
is inside is written less high (`height_attr_lt`).

## What is read declares nothing twice

The second half is about any document that was read, not only about written ones. Objects are read
as tables, in which a later entry takes the place of an earlier one, so the names in them are
different (`tidy_of_document`). That is what the first half asks for.
-/

namespace Shapewright

open Json (Draft Member Value)

variable {α σ : Type}

namespace Json.Draft

theorem ofMembers_append (ms ns : List (String × Value)) :
    ofMembers (ms ++ ns) = ofMembers ms ++ ofMembers ns := by
  simp [ofMembers_eq_map]

theorem height_lt_object {ms : List (String × Value)} {key : String} {v : Value}
    (h : (key, v) ∈ ms) : (ofValue v).height < (ofValue (.object ms)).height := by
  refine height_lt_of_mem_children ?_
  rw [ofValue, ofMembers_eq_map]
  exact List.mem_map_of_mem (List.mem_map_of_mem h)

theorem height_lt_array {vs : List Value} {v : Value} (h : v ∈ vs) :
    (ofValue v).height < (ofValue (.array vs)).height := by
  refine height_lt_of_mem_children ?_
  rw [ofValue, ofItems_eq_map]
  exact List.mem_map_of_mem h

end Json.Draft

/-! ## Members that may be left out -/

namespace Record.Laid

open Reader (Reads)

variable {read : Reader α} {store : α → σ → σ} {name : String} {s : σ}

theorem cons {f : RecordField σ} {fs : List (RecordField σ)} {ms ns : List (Member Draft)}
    {s s₁ s' : σ} (h : Laid [f] ms s s₁) (rest : Laid fs ns s₁ s') :
    Laid (f :: fs) (ms ++ ns) s s' := h.append rest

theorem member {d : Draft} {x : α} (h : Reads read d x) :
    Laid [.of name read store] [⟨name, d, none⟩] s (store x s) :=
  .take (f := .of name read store) (RecordField.takes_of h) .nil

theorem needed {d : Draft} {x : α} (h : Reads read d x) :
    Laid [.need name read store] [⟨name, d, none⟩] s (store x s) :=
  have hf : (RecordField.of name read store).Takes d s (store x s) := RecordField.takes_of h
  .take (f := .need name read store) hf .nil

/-- A member that is left out where it would change nothing. -/
theorem omitted {v : Value} {x : α} {b : Bool} (h : Reads read (Draft.ofValue v) x)
    (hb : b → store x s = s) :
    Laid [.of name read store] (Draft.ofMembers (if b then [] else [(name, v)])) s (store x s) := by
  cases b with
  | true =>
    rw [hb rfl]
    exact .skip rfl .nil
  | false => exact member h

/-- What may be missing is written only if it is there. What is not written leaves the record as it
    was, and that has to be what it is without the field. -/
theorem present {store : Option α → σ → σ} {write : α → Value} {o : Option α}
    (hnone : store none s = s)
    (h : ∀ x, Reads (Reader.optional read) (Draft.ofValue (write x)) (some x)) :
    Laid [.of name (Reader.optional read) store] (Draft.ofMembers (Writer.present name write o)) s
      (store o s) := by
  cases o with
  | none =>
    rw [hnone]
    exact .skip rfl .nil
  | some x => exact member (h x)

/-- A list is written only if it has something in it. -/
theorem nonempty {store : List α → σ → σ} {vs : List Value} {xs : List α}
    (hnil : store [] s = s) (hempty : vs = [] → xs = [])
    (h : Reads (Reader.list read) (Draft.ofValue (.array vs)) xs) :
    Laid [.of name (Reader.list read) store] (Draft.ofMembers (Writer.nonempty name vs)) s
      (store xs s) :=
  omitted h fun hvs => by rw [hempty (List.isEmpty_iff.mp hvs), hnil]

end Record.Laid

namespace Reader

open Record (Laid)

/-- A list is read if each of its items is. -/
theorem reads_map {read : Reader α} {write : α → Value} {xs : List α}
    (h : ∀ x ∈ xs, Reads read (Draft.ofValue (write x)) x) :
    Reads (list read) (Draft.ofValue (.array (xs.map write))) xs := by
  rw [Draft.ofValue, Draft.ofItems_eq_map]
  refine reads_list ?_
  rw [List.map_map, List.forall₂_map_left_iff, List.forall₂_same]
  exact h

/-- A table is read if each of its entries is, and no key occurs twice. A table with a key that
    occurs twice would lose one of the two entries. -/
theorem reads_entries {read : Reader α} {write : α → Value} {xs : List (String × α)}
    (hnodup : (xs.map Prod.fst).Nodup) (h : ∀ x ∈ xs, Reads read (Draft.ofValue (write x.2)) x.2) :
    Reads (table read) (Draft.ofValue (.object (xs.map fun x => (x.1, write x.2)))) xs := by
  have hread : Reads (table read) (Draft.ofValue (.object (xs.map fun x => (x.1, write x.2))))
      (written [] xs) := by
    rw [Draft.ofValue, Draft.ofMembers_eq_map]
    refine reads_table ?_
    rw [List.map_map, List.forall₂_map_left_iff, List.forall₂_same]
    exact fun x hx => ⟨rfl, h x hx⟩
  rwa [written_of_nodup hnodup] at hread

/-- What may be missing is written as `null`, where it has a place of its own. -/
theorem reads_optional {read : Reader α} {write : α → Value} (o : Option α)
    (h : ∀ x, Reads (optional read) (Draft.ofValue (write x)) (some x)) :
    Reads (optional read) (Draft.ofValue (Writer.optional write o)) o := by
  cases o with
  | none => exact reads_none read
  | some x => exact h x

theorem reads_some_string (s : String) :
    Reads (optional string) (Draft.ofValue (.string s)) (some s) :=
  reads_some (reads_string s) nofun

theorem reads_some_size (n : Nat) :
    Reads (optional size) (Draft.ofValue (Writer.size n)) (some n) :=
  reads_some (reads_size n) nofun

theorem reads_some_number (x : Float) :
    Reads (optional number) (Draft.ofValue (.float x)) (some x) :=
  reads_some (reads_number x) nofun

/-! ## Literals -/

mutual

/-- A literal is told apart by its shape, whatever is inside. -/
theorem literalShape_literal (l : Literal) :
    literalShape (Draft.ofValue (Writer.literal l)) = some l := by
  match l with
  | .bool _ | .integer _ | .float _ | .string _ => rfl
  | .array items =>
    rw [Writer.literal, Draft.ofValue, literalShape, literalShapes_literals items]
    rfl

theorem literalShapes_literals (ls : List Literal) :
    literalShapes (Draft.ofItems (Writer.literals ls)) = some ls := by
  match ls with
  | [] => rfl
  | l :: rest =>
    rw [Writer.literals, Draft.ofItems, literalShapes, literalShape_literal l,
      literalShapes_literals rest]
    rfl

end

theorem reads_literal (l : Literal) : Reads literal (Draft.ofValue (Writer.literal l)) l :=
  reads_variants (Draft.whole_ofValue _) fun _ _ => literalShape_literal l

theorem reads_some_literal (l : Literal) :
    Reads (optional literal) (Draft.ofValue (Writer.literal l)) (some l) := by
  refine reads_some (reads_literal l) ?_
  cases l <;> nofun

theorem literals_eq_map (ls : List Literal) : Writer.literals ls = ls.map Writer.literal := by
  induction ls with
  | nil => rfl
  | cons l rest ih => rw [Writer.literals, ih, List.map_cons]

/-! ## Rules and overrides -/

theorem reads_some_format (f : Format) :
    Reads (optional format) (Draft.ofValue (.string f.name)) (some f) := by
  refine reads_some (reads_choice ?_) nofun
  cases f <;> rfl

theorem reads_rules (r : Rules) : Reads rules (Draft.ofValue (Writer.rules r)) r := by
  refine Laid.reads ?_ (by decide)
  simp only [Draft.ofMembers_append, List.append_assoc]
  refine .cons (.nonempty rfl List.map_eq_nil_iff.mp (reads_map fun x _ => reads_string x)) ?_
  rw [literals_eq_map]
  refine .cons (.nonempty rfl List.map_eq_nil_iff.mp (reads_map fun x _ => reads_literal x)) ?_
  refine .cons (.present rfl reads_some_format) ?_
  refine .cons (.present rfl reads_some_string) ?_
  refine .cons (.present rfl reads_some_size) ?_
  refine .cons (.present rfl reads_some_size) ?_
  refine .cons (.present rfl reads_some_number) ?_
  exact .present rfl reads_some_number

theorem reads_overrides (o : Overrides) :
    Reads overrides (Draft.ofValue (Writer.overrides o)) o := by
  refine Laid.reads ?_ (by decide)
  simp only [Draft.ofMembers_append, List.append_assoc]
  refine .cons (.present rfl reads_some_string) ?_
  refine .cons (.present rfl fun b => reads_some (reads_bool b) nofun) ?_
  refine .cons (.present rfl reads_some_string) ?_
  exact .present rfl reads_some_string

/-! ## Attributes -/

/-- An attribute is read if its type is. All the other fields of an attribute have readers without
    recursion. -/
theorem reads_attribute {read : Reader (DataType Attribute)} {a : Attribute}
    (h : Reads read (Draft.ofValue (Writer.dataType a.type)) a.type) :
    Reads (attributeRecord read).read (Draft.ofValue (Writer.attr a)) a := by
  obtain ⟨type, description, r, o, default⟩ := a
  rw [Writer.attr]
  refine Laid.reads ?_ (by simp [attributeRecord, RecordField.need, RecordField.of])
  rw [← List.singleton_append, Draft.ofMembers_append, Writer.details]
  simp only [Draft.ofMembers_append, List.append_assoc]
  refine .cons (.needed h) ?_
  refine .cons (.present rfl reads_some_string) ?_
  refine .cons (.omitted (reads_rules r) fun he => Rules.eq_of_isEmpty he ▸ rfl) ?_
  refine .cons (.omitted (reads_overrides o) fun he => Overrides.eq_of_isEmpty he ▸ rfl) ?_
  exact .present rfl reads_some_literal

theorem attrs_eq_map (fields : List (String × Attribute)) :
    Writer.attrs fields = fields.map fun f => (f.1, Writer.attr f.2) := by
  induction fields with
  | nil => rfl
  | cons f rest ih => rw [Writer.attrs, ih, List.map_cons]

/-- Alternatives are written as objects with a name, in their order. -/
theorem namedAttrs_eq_map (alternatives : List (String × Attribute)) :
    Writer.namedAttrs alternatives = alternatives.map fun f =>
      .object [("name", .string f.1), ("attribute", Writer.attr f.2)] := by
  induction alternatives with
  | nil => rfl
  | cons f rest ih => rw [Writer.namedAttrs, ih, List.map_cons]

/-! Types are nested in attributes and attributes in types, so what is written of them is nested
deeper with every step. -/

theorem height_dataType_lt (a : Attribute) :
    (Draft.ofValue (Writer.dataType a.type)).height < (Draft.ofValue (Writer.attr a)).height := by
  obtain ⟨type, description, r, o, default⟩ := a
  rw [Writer.attr]
  exact Draft.height_lt_object List.mem_cons_self

theorem height_attr_lt {a b : Attribute} (hb : b ∈ a.children) :
    (Draft.ofValue (Writer.attr b)).height < (Draft.ofValue (Writer.dataType a.type)).height := by
  obtain ⟨type, _, _, _, _⟩ := a
  cases type with
  | primitive p => simp [Attribute.children] at hb
  | user id => simp [Attribute.children] at hb
  | array elem =>
    rw [List.mem_singleton.mp hb]
    exact Draft.height_lt_object List.mem_cons_self
  -- The writer puts one or two containers around each inner attribute, depending on the structure.
  | map key elem =>
    refine Nat.lt_trans ?_ (Draft.height_lt_object List.mem_cons_self)
    rcases List.mem_pair.mp hb with rfl | rfl
    · exact Draft.height_lt_object List.mem_cons_self
    · exact Draft.height_lt_object (List.mem_cons_of_mem _ List.mem_cons_self)
  | object fields =>
    obtain ⟨f, hf, rfl⟩ := List.mem_map.mp hb
    refine Nat.lt_trans ?_ (Draft.height_lt_object List.mem_cons_self)
    rw [attrs_eq_map]
    exact Draft.height_lt_object (List.mem_map_of_mem hf)
  | union name alternatives =>
    obtain ⟨f, hf, rfl⟩ := List.mem_map.mp hb
    refine Nat.lt_trans ?_ (Draft.height_lt_object List.mem_cons_self)
    refine Nat.lt_trans ?_ (Draft.height_lt_object (List.mem_cons_of_mem _ List.mem_cons_self))
    rw [namedAttrs_eq_map]
    refine Nat.lt_trans ?_ (Draft.height_lt_array (List.mem_map_of_mem hf))
    exact Draft.height_lt_object (List.mem_cons_of_mem _ List.mem_cons_self)

/-- A structure is read from its only member, unless it is read as a primitive. -/
theorem reads_structured {inner : Reader Attribute} {key : String} {v : Value}
    {t : DataType Attribute}
    (h : ∀ spot : Spot, (Draft.ofValue v).height ≤ spot.room →
      structured inner spot key (Draft.ofValue v) = some t) :
    Reads (variants "DataType" (typeShape inner)) (Draft.ofValue (.object [(key, v)])) t := by
  refine reads_variants (Draft.whole_ofValue _) fun spot hroom => ?_
  have hinner : (Draft.ofValue v).height ≤ spot.room :=
    (Nat.le_of_lt (Draft.height_lt_of_mem_children List.mem_cons_self)).trans hroom
  simp [Draft.ofValue, Draft.ofMembers, typeShape, h spot hinner]

section

variable {inner : Reader Attribute}

/-- A primitive is read from its name. -/
theorem reads_primitive (p : Primitive) :
    Reads (variants "DataType" (typeShape inner)) (.string p.name) (.primitive p) := by
  have hchoice : Reads primitive (.string p.name) p := reads_choice (by cases p <;> rfl)
  refine reads_variants (Draft.whole_of_leaf rfl rfl) fun spot hroom => ?_
  have hread := hchoice spot hroom
  rw [primitive] at hread
  simp [typeShape, hread, Except.toOption]

theorem reads_entry {key elem : Attribute}
    (hkey : Reads inner (Draft.ofValue (Writer.attr key)) key)
    (helem : Reads inner (Draft.ofValue (Writer.attr elem)) elem) :
    Reads (entryRecord inner).read
      (Draft.ofValue (.object [("key", Writer.attr key), ("elem", Writer.attr elem)]))
      (key, elem) := by
  refine Laid.reads ?_ (by simp [entryRecord, RecordField.need, RecordField.of])
  exact (Laid.needed hkey).cons (Laid.needed helem)

theorem reads_alternative {f : String × Attribute}
    (h : Reads inner (Draft.ofValue (Writer.attr f.2)) f.2) :
    Reads (alternativeRecord inner).read
      (Draft.ofValue (.object [("name", .string f.1), ("attribute", Writer.attr f.2)])) f := by
  refine Laid.reads ?_ (by simp [alternativeRecord, RecordField.need, RecordField.of])
  exact (Laid.needed (reads_string f.1)).cons (Laid.needed h)

theorem reads_union (name : String) {alternatives : List (String × Attribute)}
    (h : ∀ f ∈ alternatives, Reads inner (Draft.ofValue (Writer.attr f.2)) f.2) :
    Reads (unionRecord inner).read (Draft.ofValue (.object [("type_name", .string name),
      ("values", .array (Writer.namedAttrs alternatives))])) (name, alternatives) := by
  refine Laid.reads ?_ (by simp [unionRecord, RecordField.need, RecordField.of])
  rw [namedAttrs_eq_map]
  exact (Laid.needed (reads_string name)).cons
    (Laid.needed (reads_map fun f hf => reads_alternative (h f hf)))

theorem reads_fields {fields : List (String × Attribute)} (hnodup : (fields.map Prod.fst).Nodup)
    (h : ∀ f ∈ fields, Reads inner (Draft.ofValue (Writer.attr f.2)) f.2) :
    Reads (table inner) (Draft.ofValue (.object (Writer.attrs fields))) fields := by
  rw [attrs_eq_map]
  exact reads_entries hnodup h

end

/-- A type is read if there are as many levels as the draft is high. By induction on the levels. The
    height of a draft counts the containers, and each level opens one. -/
theorem reads_dataTypeWithin {levels : Nat} {a : Attribute} (ha : a.Tidy)
    (hlevels : (Draft.ofValue (Writer.dataType a.type)).height ≤ levels) :
    Reads (dataTypeWithin levels) (Draft.ofValue (Writer.dataType a.type)) a.type := by
  induction levels generalizing a with
  | zero =>
    obtain ⟨type, _, _, _, _⟩ := a
    cases type with
    | primitive p => exact reads_primitive p
    | _ => exact absurd hlevels (Nat.not_succ_le_zero _)
  | succ levels ih =>
    -- An inner attribute is lower than the type that it is in, so one level less is enough for its
    -- own type.
    have hinner b (hb : b ∈ a.children) : Reads (attributeRecord (dataTypeWithin levels)).read
        (Draft.ofValue (Writer.attr b)) b := by
      refine reads_attribute (ih (ha.child hb) ?_)
      have := height_attr_lt hb
      have := height_dataType_lt b
      omega
    obtain ⟨type, _, _, _, _⟩ := a
    cases type with
    | primitive p => exact reads_primitive p
    | user id => exact reads_structured fun spot _ => rfl
    | array elem =>
      refine reads_structured fun spot hroom => ?_
      simp [structured, hinner elem (by simp [Attribute.children]) spot hroom, Except.toOption]
    | map key elem =>
      have hentry := reads_entry (hinner key (by simp [Attribute.children]))
        (hinner elem (by simp [Attribute.children]))
      refine reads_structured fun spot hroom => ?_
      simp [structured, hentry spot hroom, Except.toOption]
    | object fields =>
      have hfields := reads_fields (ha.nodup (Attribute.mem_parts_self _) rfl)
        fun f hf => hinner f.2 (List.mem_map_of_mem hf)
      refine reads_structured fun spot hroom => ?_
      simp [structured, hfields spot hroom, Except.toOption]
    | union name alternatives =>
      have hunion := reads_union name fun f hf => hinner f.2 (List.mem_map_of_mem hf)
      refine reads_structured fun spot hroom => ?_
      simp [structured, hunion spot hroom, Except.toOption]

theorem reads_attr {a : Attribute} (ha : a.Tidy) :
    Reads attr (Draft.ofValue (Writer.attr a)) a :=
  reads_attribute fun spot => reads_dataTypeWithin ha (Nat.le_refl _) spot

/-! ## Named types -/

/-- An attribute of a view is read from its name alone, or from an object with a tag. Which of the
    two is written depends on whether there is a tag. -/
theorem reads_viewAttribute (va : ViewAttribute) :
    Reads viewAttribute (Draft.ofValue (Writer.viewAttribute va)) va := by
  refine reads_variants (Draft.whole_ofValue _) fun spot hroom => ?_
  cases va with
  | name name => rfl
  | tagged name view =>
    have htagged : Reads taggedRecord.read
        (Draft.ofValue (Writer.viewAttribute (.tagged name view))) (name, view) := by
      refine Laid.reads ?_ (by decide)
      exact (Laid.needed (reads_string name)).cons
        (Laid.member (reads_optional view reads_some_string))
    have hread := htagged spot hroom
    rw [Writer.viewAttribute, Draft.ofValue] at hread ⊢
    simp only [viewAttributeShape, hread, Except.toOption, Option.map_some]

theorem reads_view (v : View) : Reads viewRecord.read (Draft.ofValue (Writer.view v)) v := by
  refine Laid.reads ?_ (by decide)
  exact (Laid.needed (reads_string v.name)).cons
    (Laid.needed (reads_map fun va _ => reads_viewAttribute va))

theorem reads_userKind (k : UserKind) : Reads userKind (.string k.name) k := by
  cases k <;> exact reads_choice rfl

theorem reads_userType {t : UserType} (ht : t.definition.Tidy) :
    Reads userType (Draft.ofValue (Writer.userType t)) t := by
  refine Laid.reads ?_ (by decide)
  rw [Draft.ofMembers_append]
  refine (Laid.member (reads_string t.id)).cons ?_
  refine (Laid.member (reads_string t.name)).cons ?_
  refine (Laid.member (reads_userKind t.kind)).cons ?_
  refine (Laid.needed (reads_attr ht)).cons ?_
  exact .nonempty rfl List.map_eq_nil_iff.mp (reads_map fun v _ => reads_view v)

/-! ## Contexts and requests -/

theorem reads_encoding (e : Encoding) : Reads encoding (.string e.name) e := by
  cases e <;> exact reads_choice rfl

theorem reads_side (side : Side) : Reads Reader.side (.string side.name) side := by
  cases side <;> exact reads_choice rfl

theorem reads_context (c : Context) : Reads context (Draft.ofValue (Writer.context c)) c := by
  refine Laid.reads ?_ (by decide)
  refine (Laid.member (reads_bool c.pointerForRequired)).cons ?_
  refine (Laid.member (reads_bool c.pointerForOptional)).cons ?_
  refine (Laid.member (reads_bool c.useDefault)).cons ?_
  refine (Laid.member (reads_string c.package)).cons ?_
  exact .member (reads_encoding c.encoding)

theorem reads_conversion (r : ConversionRequest) :
    Reads conversionRecord.read (Draft.ofValue (Writer.conversion r)) r := by
  refine Laid.reads ?_ (by decide)
  refine (Laid.member (reads_optional r.name reads_some_string)).cons ?_
  refine (Laid.needed (reads_string r.source)).cons ?_
  refine (Laid.needed (reads_string r.target)).cons ?_
  refine (Laid.member (reads_string r.sourceContext)).cons ?_
  refine (Laid.member (reads_string r.targetContext)).cons ?_
  refine (Laid.member (reads_string r.verb)).cons ?_
  exact .member (reads_side r.wire)

theorem reads_projection (r : ProjectionRequest) :
    Reads projectionRecord.read (Draft.ofValue (Writer.projection r)) r := by
  refine Laid.reads ?_ (by decide)
  refine (Laid.needed (reads_string r.type)).cons ?_
  refine (Laid.member (reads_string r.context)).cons ?_
  exact .member (reads_string r.package)

theorem reads_validation (r : ValidationRequest) :
    Reads validationRecord.read (Draft.ofValue (Writer.validation r)) r := by
  refine Laid.reads ?_ (by decide)
  refine (Laid.needed (reads_string r.type)).cons ?_
  refine (Laid.member (reads_optional r.view reads_some_string)).cons ?_
  exact .member (reads_string r.context)

theorem reads_reporting (r : Reporting) :
    Reads reporting (Draft.ofValue (Writer.reporting r)) r := by
  refine Laid.reads ?_ (by decide)
  exact (Laid.member (reads_string r.runtime)).cons (.member (reads_string r.arg))

end Reader

/-! ## Documents -/

/-- No object of the document's types declares a field twice, and no context is declared twice.
    Tables are read by writing their keys one by one, so every document that was read is tidy. -/
structure Document.Tidy (d : Document) : Prop where
  types : ∀ t ∈ d.types, t.definition.Tidy
  contexts : (d.contexts.map Prod.fst).Nodup

namespace Reader

open Record (Laid)

/-- A document in which nothing is declared twice is read as it was. -/
theorem reads_document {d : Document} (h : d.Tidy) :
    Reads document (Draft.ofValue (Writer.document d)) d := by
  refine Laid.reads ?_ (by decide)
  refine (Laid.member (reads_map fun t ht => reads_userType (h.types t ht))).cons ?_
  refine (Laid.member (reads_entries h.contexts fun c _ => reads_context c.2)).cons ?_
  refine (Laid.member (reads_map fun r _ => reads_conversion r)).cons ?_
  refine (Laid.member (reads_map fun r _ => reads_projection r)).cons ?_
  refine (Laid.member (reads_map fun r _ => reads_validation r)).cons ?_
  exact .member (reads_reporting d.reporting)

/-! ## What is read declares nothing twice -/

theorem tidy_of_type {a b : Attribute} (h : a.type = b.type) (ha : a.Tidy) : b.Tidy := by
  rw [Attribute.tidy_iff_children] at ha ⊢
  rw [Attribute.fieldNames, Attribute.children, ← h]
  exact ha

theorem tidy_of_children {a : Attribute} (hnames : a.fieldNames.Nodup)
    (h : ∀ b ∈ a.children, b.Tidy) : a.Tidy := Attribute.tidy_iff_children.mpr ⟨hnames, h⟩

theorem tidy_primitive (p : Primitive) : Attribute.Tidy { type := .primitive p } :=
  tidy_of_children List.nodup_nil nofun

/-- What is known of the type that was read is known of its attribute. That a type declares nothing
    twice is the only thing here that depends on reading, since tables drop what is repeated. -/
theorem tidy_of_attribute {read : Reader (DataType Attribute)}
    (hread : ∀ spot d t, read spot d = .ok t → Attribute.Tidy { type := t })
    {spot : Spot} {d : Draft} {a : Attribute} (h : (attributeRecord read).read spot d = .ok a) :
    a.Tidy := by
  refine Record.read_induction (tidy_primitive _) ?_ h
  simp only [attributeRecord, List.forall_mem_cons]
  refine ⟨RecordField.keeps_need fun spot d t ht _ _ =>
      tidy_of_type (a := { type := t }) rfl (hread spot d t ht),
    RecordField.keeps_of fun _ _ _ _ _ => tidy_of_type rfl,
    RecordField.keeps_of fun _ _ _ _ _ => tidy_of_type rfl,
    RecordField.keeps_of fun _ _ _ _ _ => tidy_of_type rfl,
    RecordField.keeps_of fun _ _ _ _ _ => tidy_of_type rfl, List.forall_mem_nil _⟩

section

variable {inner : Reader Attribute} (hinner : ∀ spot d a, inner spot d = .ok a → a.Tidy)
include hinner

theorem tidy_of_entry {spot : Spot} {d : Draft} {e : Attribute × Attribute}
    (h : (entryRecord inner).read spot d = .ok e) : e.1.Tidy ∧ e.2.Tidy := by
  refine Record.read_induction (I := fun e => e.1.Tidy ∧ e.2.Tidy)
    ⟨tidy_primitive _, tidy_primitive _⟩ ?_ h
  simp only [entryRecord, List.forall_mem_cons]
  exact ⟨RecordField.keeps_need fun spot d a ha s hs => ⟨hinner spot d a ha, hs.2⟩,
    RecordField.keeps_need fun spot d a ha s hs => ⟨hs.1, hinner spot d a ha⟩,
    List.forall_mem_nil _⟩

theorem tidy_of_alternative {spot : Spot} {d : Draft} {f : String × Attribute}
    (h : (alternativeRecord inner).read spot d = .ok f) : f.2.Tidy := by
  refine Record.read_induction (I := fun f => f.2.Tidy) (tidy_primitive _) ?_ h
  simp only [alternativeRecord, List.forall_mem_cons]
  exact ⟨RecordField.keeps_need fun _ _ _ _ _ => id,
    RecordField.keeps_need fun spot d a ha _ _ => hinner spot d a ha, List.forall_mem_nil _⟩

theorem tidy_of_union {spot : Spot} {d : Draft} {u : String × List (String × Attribute)}
    (h : (unionRecord inner).read spot d = .ok u) : ∀ f ∈ u.2, f.2.Tidy := by
  refine Record.read_induction (I := fun u => ∀ f ∈ u.2, f.2.Tidy) (by simp [unionRecord]) ?_ h
  simp only [unionRecord, List.forall_mem_cons]
  refine ⟨RecordField.keeps_need fun _ _ _ _ _ => id, RecordField.keeps_need ?_,
    List.forall_mem_nil _⟩
  intro spot d fs hfs s _ f hf
  obtain ⟨ds, -, hread⟩ := of_list_eq_ok hfs
  obtain ⟨d, -, _, -, hd⟩ := forall₂_mem_right hread hf
  exact tidy_of_alternative hinner hd

/-- The fields of an object are read as a table, and so have different names. -/
theorem tidy_of_fields {spot : Spot} {d : Draft} {fields : List (String × Attribute)}
    (h : table inner spot d = .ok fields) :
    (fields.map Prod.fst).Nodup ∧ ∀ f ∈ fields, f.2.Tidy := by
  obtain ⟨ms, es, -, hread, rfl⟩ := of_table_eq_ok h
  refine ⟨nodup_written List.nodup_nil, fun f hf => ?_⟩
  have hmem := (mem_written hf).resolve_left (List.not_mem_nil)
  obtain ⟨m, -, -, spot, -, hm⟩ := forall₂_mem_right hread hmem
  exact hinner spot m.value f.2 hm

/-- Whatever structure is read declares no field twice, if what is inside does not. Objects and
    unions are read as tables, from which a field that is declared twice has gone. -/
theorem tidy_of_structured {spot : Spot} {key : String} {d : Draft} {t : DataType Attribute}
    (h : structured inner spot key d = some t) : Attribute.Tidy { type := t } := by
  -- The reader tries the structures by their key. Only objects name fields, and there the list was
  -- read as a table, where the last of a name wins.
  unfold structured at h
  split at h
  · obtain ⟨elem, helem, rfl⟩ := Option.map_eq_some_iff.mp h
    refine tidy_of_children List.nodup_nil fun b hb => ?_
    rw [List.mem_singleton.mp hb]
    exact hinner spot d elem (toOption_eq_some.mp helem)
  split at h
  · obtain ⟨e, he, rfl⟩ := Option.map_eq_some_iff.mp h
    obtain ⟨hkey, helem⟩ := tidy_of_entry hinner (toOption_eq_some.mp he)
    refine tidy_of_children List.nodup_nil fun b hb => ?_
    rcases List.mem_pair.mp hb with rfl | rfl
    · exact hkey
    · exact helem
  split at h
  · obtain ⟨fields, hfields, rfl⟩ := Option.map_eq_some_iff.mp h
    obtain ⟨hnodup, htidy⟩ := tidy_of_fields hinner (toOption_eq_some.mp hfields)
    refine tidy_of_children hnodup fun b hb => ?_
    obtain ⟨f, hf, rfl⟩ := List.mem_map.mp hb
    exact htidy f hf
  split at h
  · obtain ⟨u, hu, rfl⟩ := Option.map_eq_some_iff.mp h
    refine tidy_of_children List.nodup_nil fun b hb => ?_
    obtain ⟨f, hf, rfl⟩ := List.mem_map.mp hb
    exact tidy_of_union hinner (toOption_eq_some.mp hu) f hf
  split at h
  · obtain ⟨id, -, rfl⟩ := Option.map_eq_some_iff.mp h
    exact tidy_of_children List.nodup_nil nofun
  · cases h

theorem tidy_of_typeShape {spot : Spot} {d : Draft} {t : DataType Attribute}
    (h : typeShape inner spot d = some t) : Attribute.Tidy { type := t } := by
  simp only [typeShape] at h
  split at h
  · rename_i t' hstructure
    cases h
    split at hstructure
    · exact tidy_of_structured hinner hstructure
    · cases hstructure
  · obtain ⟨p, -, rfl⟩ := Option.map_eq_some_iff.mp h
    exact tidy_primitive p

end

/-- A type that was read declares no field twice, at any depth. -/
theorem tidy_of_dataTypeWithin {levels : Nat} {spot : Spot} {d : Draft} {t : DataType Attribute}
    (h : dataTypeWithin levels spot d = .ok t) : Attribute.Tidy { type := t } := by
  induction levels generalizing spot d t with
  | zero => exact tidy_of_typeShape (by simp) (variants_eq_ok.mp h).2
  | succ levels ih =>
    exact tidy_of_typeShape (fun _ _ _ => tidy_of_attribute fun _ _ _ => ih)
      (variants_eq_ok.mp h).2

theorem tidy_of_userType {spot : Spot} {d : Draft} {t : UserType}
    (h : userType spot d = .ok t) : t.definition.Tidy := by
  refine Record.read_induction (I := fun t => t.definition.Tidy) (tidy_primitive _) ?_ h
  simp only [userTypeRecord, List.forall_mem_cons]
  refine ⟨RecordField.keeps_of fun _ _ _ _ _ => id, RecordField.keeps_of fun _ _ _ _ _ => id,
    RecordField.keeps_of fun _ _ _ _ _ => id,
    RecordField.keeps_need fun _ _ _ ha _ _ =>
      tidy_of_attribute (fun _ _ _ => tidy_of_dataTypeWithin) ha,
    RecordField.keeps_of fun _ _ _ _ _ => id, List.forall_mem_nil _⟩

/-- No document that was read declares anything twice. So what was read is in the range where
    writing and reading are inverse. -/
theorem tidy_of_document {spot : Spot} {draft : Draft} {d : Document}
    (h : document spot draft = .ok d) : d.Tidy := by
  have hblank : documentRecord.blank.Tidy :=
    ⟨fun _ ht => absurd ht List.not_mem_nil, List.nodup_nil⟩
  refine Record.read_induction (I := Document.Tidy) hblank ?_ h
  simp only [documentRecord, List.forall_mem_cons]
  -- Requests declare nothing, nor does the way errors are reported, so those four fields leave both
  -- lists as they were.
  refine ⟨RecordField.keeps_of ?types, RecordField.keeps_of ?contexts,
    RecordField.keeps_of fun _ _ _ _ _ hs => ⟨hs.types, hs.contexts⟩,
    RecordField.keeps_of fun _ _ _ _ _ hs => ⟨hs.types, hs.contexts⟩,
    RecordField.keeps_of fun _ _ _ _ _ hs => ⟨hs.types, hs.contexts⟩,
    RecordField.keeps_of fun _ _ _ _ _ hs => ⟨hs.types, hs.contexts⟩, List.forall_mem_nil _⟩
  case types =>
    intro spot d ts hts s hs
    obtain ⟨ds, -, hread⟩ := of_list_eq_ok hts
    refine ⟨fun t ht => ?_, hs.contexts⟩
    obtain ⟨d, -, _, -, hd⟩ := forall₂_mem_right hread ht
    exact tidy_of_userType hd
  case contexts =>
    intro spot d cs hcs s hs
    obtain ⟨ms, es, -, -, rfl⟩ := of_table_eq_ok hcs
    exact ⟨hs.types, nodup_written List.nodup_nil⟩

end Reader

/-- A document that was read is written so that it is read as the same document again. The document
    itself is not arbitrary here: one that no value is read as, with a key twice for instance, need
    not come back. -/
theorem document_roundtrip (v : Value) (d : Document)
    (h : Reader.ofValue Reader.document v = .ok d) :
    Reader.ofValue Reader.document (Writer.document d) = .ok d :=
  Reader.reads_document (Reader.tidy_of_document h) _ (Nat.le_refl _)

/-- A shelf of volumes. Its parts are given in ways in which they are not written: rules that are
    `null` or empty, a primitive kind as an object, a view as an array, and a whole number as a
    bound. -/
def shelf : Value :=
  .object [
    ("types", .array [
      .object [("id", .string "Shelf"), ("kind", .string "result"),
        ("attribute", .object [("type", .object [("object", .object [
          ("volumes", .object [("type", .object [("map", .object [
            ("elem", .object [("type", .object [("user", .string "Volume")])]),
            ("key", .object [("type", .object [("int", .null)])])])])]),
          ("label", .object [("type", .object [("union", .object [("type_name", .string "Label"),
            ("values", .array [.object [("name", .string "text"),
              ("attribute", .object [("type", .string "string"),
                ("default", .string "none")])]])])])])
          ])])]),
        ("views", .array [.array [.string "default", .array [.string "label",
          .object [("name", .string "volumes"), ("view", .null)]]]])],
      .object [("id", .string "Volume"), ("attribute", .object [("type", .string "float64"),
        ("validation", .object [("enum", .array []), ("pattern", .null), ("minimum", .integer 1)]),
        ("description", .string "pages")])]]),
    ("contexts", .object [("views", .object [("namespace", .string "views")])]),
    ("projections", .array [.object [("type", .string "Shelf")]])]

/-- The shelf is read, and although its parts are written in other ways then, read as the same
    again. -/
theorem document_roundtrip_shelf : ∃ d, Reader.ofValue Reader.document shelf = .ok d ∧
    Reader.ofValue Reader.document (Writer.document d) = .ok d :=
  by
  obtain ⟨d, h⟩ : ∃ d, Reader.document.ofValue shelf = .ok d := by decide +kernel
  exact ⟨d, h, document_roundtrip shelf d h⟩

end Shapewright
