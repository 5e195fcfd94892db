import Shapewright.Proofs.Design.Conversions
import Shapewright.Proofs.Growth
import Shapewright.Proofs.Ranges

/-!
# The defaults of a design that was loaded

A default ends up in code as it was written, as a value of the attribute's kind. Loading a design
looks at the variant of the literal, at its sign, and at the format that the attribute declares
itself. It does not look at the width of the kind, nor at the format of the type behind a reference:
what is left open is exactly that a number is not too great for its kind (or too small, where the
kind is shorter than a literal), and that a date is one where the alias says so.

## Two conditions

`Usable` says what a default has to be, `Fitting` what of this is not checked. In the presence of
the checks they are equivalent (`usable_iff`), so nothing was forgotten in the second and nothing in
it is superfluous. Literals are integers of any size here, while those of a document have 64 bits,
with or without a sign; that is the assumption on their width.

## From a document to its design

The checks are made on the types of the registry, which have been given identities and views in the
meantime. Their definitions are still those of the document (`find?_of_register`), so the theorem
can speak about an attribute of the document.
-/

namespace Shapewright

/-- The text is in the format, where that is one of dates. Any text will do for the other formats,
    which no check looks at. -/
def Format.Reads (f : Format) (s : String) : Prop :=
  match f with
  | .date => ∃ day, Calendar.readDate s = .ok day
  | .dateTime => ∃ time, Calendar.readDateTime s = .ok time
  | _ => True

namespace Registry

/-- The literal becomes a value of a primitive kind: it is the default of an attribute of the kind,
    or an item of the default of an array whose elements are of the kind. -/
inductive Initializes (reg : Registry) (a : Attribute) : Literal → Primitive → Prop
  | value {l : Literal} {p : Primitive} (hd : a.default = some l)
      (hk : reg.kind a = .ok (.primitive p)) : Initializes reg a l p
  | item {items : List Literal} {l : Literal} {elem : Attribute} {p : Primitive}
      (hd : a.default = some (.array items)) (hl : l ∈ items) (he : reg.elem? a = .ok (some elem))
      (hk : reg.kind elem = .ok (.primitive p)) : Initializes reg a l p

/-- The default of the attribute can be pasted into code: its integers are values of the kinds that
    they initialize, and its text is in the formats that are declared by the attribute and by the
    type behind it. -/
structure Usable (reg : Registry) (a : Attribute) : Prop where
  integer : ∀ i p, reg.Initializes a (.integer i) p → p.isFixedWidth → p.Holds i
  text : ∀ s x f, a.default = some (.string s) → x = a ∨ reg.resolve a = .ok x →
    x.rules.format = some f → f.Reads s

/-- What loading leaves open: integers are not too great for a kind with a width, nor too small for
    the signed kind of 32 bits, and a text is in the format of the type behind the attribute. -/
structure Fitting (reg : Registry) (a : Attribute) : Prop where
  notAbove : ∀ i p, reg.Initializes a (.integer i) p → p = .int32 ∨ p = .uint32 ∨ p = .int64 →
    i ≤ p.greatest
  notBelow : ∀ i, reg.Initializes a (.integer i) .int32 → Primitive.int32.least ≤ i
  text : ∀ s r f, a.default = some (.string s) → reg.resolve a = .ok r → r.rules.format = some f →
    f.Reads s

end Registry

namespace Design

variable {reg reg' : Registry} {location : String} {a : Attribute} {d : Design} {doc : Document}
  {t : UserType} {l : Literal} {p : Primitive} {isPattern : String → Bool}

/-! ## What the check of an attribute establishes -/

/-- A text passes the check of its format exactly if it is in the format. Formats that are not about
    dates are not looked at by the check, and nothing is asked of a text in them. -/
theorem checkDate_eq_ok {format : Option Format} {s : String} :
    checkDate location format s = .ok () ↔ ∀ f, format = some f → f.Reads s := by
  unfold checkDate
  cases format with
  | none => simp
  | some f =>
    cases f with
    | date =>
      cases h : Calendar.readDate s <;> simp [violate, Format.Reads, h]
    | dateTime =>
      cases h : Calendar.readDateTime s <;> simp [violate, Format.Reads, h]
    | _ => simp [Format.Reads]

/-- The default of a primitive fits its kind, and a text is in the format of its attribute. The
    format is that of the attribute itself. What an alias adds is not consulted, which is one of the
    gaps that `Usable` shows. -/
theorem fits_of_checkPrimitive (h : checkPrimitive location a p = .ok ())
    (hd : a.default = some l) :
    l.fits p ∧ ∀ s, l = .string s → ∀ f, a.rules.format = some f → f.Reads s := by
  unfold checkPrimitive at h
  simp only [hd] at h
  by_cases hf : l.fits p
  · refine ⟨hf, ?_⟩
    rintro s rfl
    simp only [hf, Bool.not_true, Bool.false_eq_true, if_false] at h
    obtain ⟨⟨⟩, hdate, -⟩ := except_bind_eq_ok.mp h
    exact checkDate_eq_ok.mp hdate
  · simp [hf, violate] at h

/-- The default of a structure is an array, and its items fit the kind of the elements. So no
    default of an object, a map or a union is ever accepted, nor one of an array of structures. -/
theorem items_of_checkStructured {kind : Kind}
    (h : checkStructured reg location a kind = .ok ()) (hd : a.default = some l) :
    ∃ items elem p, l = .array items ∧ reg.elem? a = .ok (some elem) ∧
      reg.primitive? elem = .ok (some p) ∧ ∀ item ∈ items, item.fits p := by
  unfold checkStructured at h
  simp only [hd, except_bind_eq_ok, located, mapError_eq_ok] at h
  obtain ⟨elem, he, h⟩ := h
  cases elem with
  | none => simp [violate] at h
  | some elem =>
    dsimp only at h
    obtain ⟨p, hp, h⟩ := except_bind_eq_ok.mp h
    rw [mapError_eq_ok] at hp
    split_ifs at h with hfits
    · split at hfits
      · exact ⟨_, _, _, rfl, he, hp, List.all_eq_true.mp hfits⟩
      · cases hfits
    · cases h

/-- Whatever a checked default initializes, it is of the right variant and sign. Variant and sign
    are all that is checked; how wide the kind is does not come into it. -/
theorem fits_of_checkValues (h : checkValues reg isPattern location a = .ok ())
    (hl : reg.Initializes a l p) : l.fits p := by
  unfold checkValues at h
  simp only [except_bind_eq_ok, located, mapError_eq_ok] at h
  obtain ⟨-, -, -, -, kind, hkind, h⟩ := h
  -- The default is of a primitive field, or it is a list and its items are of a primitive kind.
  cases hl with
  | value hd hk =>
    rw [hk] at hkind
    cases hkind
    exact (fits_of_checkPrimitive h hd).1
  | item hd hl he hk =>
    rw [Registry.kind_of_elem he] at hkind
    cases hkind
    obtain ⟨items, elem, p', heq, he', hp, hfits⟩ := items_of_checkStructured h hd
    cases heq
    rw [he] at he'
    cases he'
    rw [Registry.primitive?, hk] at hp
    cases hp
    exact hfits _ hl

/-- A text is in the format that its attribute declares. For a format behind an alias there is no
    such lemma, and there cannot be one. -/
theorem reads_of_checkValues {s : String} {f : Format}
    (h : checkValues reg isPattern location a = .ok ())
    (hd : a.default = some (.string s)) (hf : a.rules.format = some f) : f.Reads s := by
  unfold checkValues at h
  simp only [except_bind_eq_ok, located, mapError_eq_ok] at h
  obtain ⟨-, -, -, -, kind, hkind, h⟩ := h
  have hstructured : checkStructured reg location a kind ≠ .ok () := by
    intro h
    obtain ⟨items, -, -, heq, -⟩ := items_of_checkStructured h hd
    cases heq
  cases kind with
  | primitive p => exact (fits_of_checkPrimitive h hd).2 s rfl f hf
  | _ => exact absurd h hstructured

/-- An integer of an unsigned kind is not negative. -/
theorem nonneg_of_fits {i : Int} (h : (Literal.integer i).fits p) (hp : p.isUnsigned) : 0 ≤ i := by
  cases p <;> simp_all [Literal.fits, Primitive.isInteger, Primitive.isUnsigned]

/-- What was checked is usable exactly if what is left open holds. The premise is that integers have
    64 bits, which is what a document can hold. -/
theorem usable_iff (h : checkValues reg isPattern location a = .ok ())
    (hwide : ∀ i p, reg.Initializes a (.integer i) p → -2 ^ 63 ≤ i ∧ i < 2 ^ 64) :
    reg.Usable a ↔ reg.Fitting a := by
  constructor
  · intro hu
    refine ⟨fun i p hi hp => ?_, fun i hi => (hu.integer i _ hi rfl).1, fun s r f hd hr hf =>
      hu.text s r f hd (.inr hr) hf⟩
    rcases hp with rfl | rfl | rfl <;> exact (hu.integer i _ hi rfl).2
  · intro hn
    refine ⟨fun i p hi hp => ?_, fun s x f hd hx hf => ?_⟩
    · obtain ⟨hlow, hhigh⟩ := hwide i p hi
      have hsign := nonneg_of_fits (fits_of_checkValues h hi)
      have habove := hn.notAbove i p hi
      have hbelow := hn.notBelow i
      -- Kind by kind, what the sign and the width of the literal leave open is an inequality.
      cases p <;> simp_all [Primitive.isFixedWidth, Primitive.Holds, Primitive.least,
        Primitive.greatest, Primitive.bits, Primitive.isUnsigned]
      all_goals omega
    · rcases hx with rfl | hr
      · exact reads_of_checkValues h hd hf
      · exact hn.text s x f hd hr hf

/-! ## The types of a design -/

/-- The types of a document are in its registry, with the attributes that they have. By induction on
    the types. One that is registered is looked up from there on, as a second one of its name is
    refused. -/
theorem find?_of_register : ∀ {ts : List UserType} {index : Nat} {reg : Registry},
    register reg index ts = .ok reg' →
      (∀ {id u}, reg.find? id = some u → reg'.find? id = some u) ∧
      ∀ t ∈ ts, ∃ id u, reg'.find? id = some u ∧ u.definition = t.definition := by
  intro ts
  induction ts with
  | nil =>
    intro index reg h
    cases h
    simp
  | cons t rest ih =>
    intro index reg h
    unfold register at h
    dsimp only at h
    split_ifs at h with hname hfresh
    obtain ⟨hkept, hrest⟩ := ih h
    -- A name that is taken already is refused, so nothing that was registered before is replaced.
    have hadded : reg'.find? (identified t).id = some (identified t).named.withDefaultView :=
      hkept (by rw [Registry.find?_insert, if_pos rfl])
    have hdefinition : (identified t).named.withDefaultView.definition = t.definition := by
      rw [UserType.definition_withDefaultView, UserType.definition_named, identified]
      split <;> rfl
    refine ⟨fun {id u} hu => hkept ?_, List.forall_mem_cons.mpr ⟨⟨_, _, hadded, hdefinition⟩,
      hrest⟩⟩
    have hne : (identified t).id ≠ id := by
      rintro rfl
      exact hfresh (by rw [Registry.contains, hu]; rfl)
    rw [Registry.find?_insert, if_neg hne, hu]

/-- The types of a document are in the design, with their definitions. Only the definition is kept
    for certain, since a type may be completed when it is registered. -/
theorem exists_type_of_load (h : load doc isPattern = .ok d) (ht : t ∈ doc.types) :
    ∃ u ∈ d.registry.types, u.definition = t.definition := by
  unfold load at h
  obtain ⟨d', hd, h⟩ := except_bind_eq_ok.mp h
  split at h
  · cases h
    unfold ofDocument at hd
    obtain ⟨reg, hreg, hd⟩ := except_bind_eq_ok.mp hd
    cases hd
    obtain ⟨id, u, hu, hdefinition⟩ := (find?_of_register hreg).2 t ht
    exact ⟨u, (Registry.mem_types_of_find? hu).1, hdefinition⟩
  · cases h

/-- The values of every attribute of a document have been checked. This connects attributes of the
    document, of which the theorem speaks, with those of the registry, which were checked. -/
theorem checkValues_of_load (h : load doc isPattern = .ok d) (ht : t ∈ doc.types)
    (ha : a ∈ t.definition.parts) :
    ∃ location, checkValues d.registry isPattern location a = .ok () := by
  obtain ⟨u, hu, hdefinition⟩ := exists_type_of_load h ht
  have hcheck := check_of_load h
  unfold check at hcheck
  simp only [except_bind_eq_ok] at hcheck
  obtain ⟨⟨⟩, -, ⟨⟩, hvalues, -⟩ := hcheck
  have hchecked := forM_eq_ok hvalues u hu
  rw [except_bind_eq_ok] at hchecked
  obtain ⟨⟨⟩, hchecked, -⟩ := hchecked
  exact check_of_everywhere hchecked a (hdefinition ▸ ha)

/-- The defaults of a design that was loaded are of the right variant and sign, and texts are in the
    formats of their own attributes. They are usable exactly if what is left open holds: that
    integers are in the range of their kind, and that texts are in the formats that their types
    declare. The bounds on integers in the hypothesis are those that a document can hold at all. -/
theorem load_usable_iff (doc : Document) (d : Design) (t : UserType) (a : Attribute)
    (h : load doc isPattern = .ok d) (ht : t ∈ doc.types) (ha : a ∈ t.definition.parts)
    (hwide : ∀ i p, d.registry.Initializes a (.integer i) p → -2 ^ 63 ≤ i ∧ i < 2 ^ 64) :
    (∀ i p, d.registry.Initializes a (.integer i) p → p.isUnsigned → 0 ≤ i) ∧
      (∀ s f, a.default = some (.string s) → a.rules.format = some f → f.Reads s) ∧
      (d.registry.Usable a ↔ d.registry.Fitting a) := by
  obtain ⟨location, hcheck⟩ := checkValues_of_load h ht ha
  exact ⟨fun i p hi => nonneg_of_fits (fits_of_checkValues hcheck hi),
    fun s f hd hf => reads_of_checkValues hcheck hd hf, usable_iff hcheck hwide⟩

/-- A count of 32 bits with a default. -/
def countField (count : Int) : Attribute where
  type := .primitive .int32
  default := some (.integer count)

/-- A day with a default, of a type that says what a day is. -/
def dayField (day : String) : Attribute where
  type := .user "Day"
  default := some (.string day)

/-- Events with a count of 32 bits and a day, which is a date; both have a default. -/
def eventDocument (count : Int) (day : String) : Document where
  types := [
    { id := "Event", name := "Event"
      definition := { type := .object [("count", countField count), ("day", dayField day)] } },
    { id := "Day", name := "Day"
      definition := { type := .primitive .string, rules := { format := some .date } } }]

section

variable {count : Int} {day : String}

theorem kind_countField : reg.kind (countField count) = .ok (.primitive .int32) :=
  Registry.kind_eq_of_resolve (Registry.resolve_of_userId?_eq_none rfl)

/-- The default of a count initializes the count and nothing else. -/
theorem initializes_countField {i : Int} (h : reg.Initializes (countField count) (.integer i) p) :
    i = count ∧ p = .int32 := by
  cases h with
  | value hd hk =>
    rw [kind_countField] at hk
    cases hd
    cases hk
    exact ⟨rfl, rfl⟩
  | item hd => cases hd

theorem initializes_dayField {i : Int} : ¬ reg.Initializes (dayField day) (.integer i) p := by
  intro h
  cases h with
  | value hd => cases hd
  | item hd => cases hd

/-- Both fields are written in the type of events. -/
theorem mem_parts_eventDocument (count : Int) (day : String)
    (ha : a = countField count ∨ a = dayField day) :
    ∃ t ∈ (eventDocument count day).types, a ∈ t.definition.parts := by
  refine ⟨_, List.mem_cons_self, ?_⟩
  rcases ha with rfl | rfl <;>
    simp [Attribute.parts, Attribute.partsAll, Attribute.mem_parts_self]

end

/-- A small count and a day of a leap year can be pasted into code. A day that is no day in other
    years shows that the format is read and not just its shape. -/
theorem load_usable_events : ∃ d, load (eventDocument 7 "2024-02-29") = .ok d ∧
    d.registry.Usable (countField 7) ∧ d.registry.Usable (dayField "2024-02-29") := by
  obtain ⟨d, h⟩ : ∃ d, load (eventDocument 7 "2024-02-29") = .ok d := ⟨_, rfl⟩
  have hday : ∃ day, Calendar.readDate "2024-02-29" = .ok day := by decide +kernel
  refine ⟨d, h, ?_, ?_⟩
  · obtain ⟨t, ht, ha⟩ := mem_parts_eventDocument 7 "2024-02-29" (.inl rfl)
    refine (load_usable_iff _ d t _ h ht ha ?_).2.2.mpr ⟨?_, ?_, ?_⟩
    · intro i p hi
      obtain ⟨rfl, rfl⟩ := initializes_countField hi
      decide
    · intro i p hi _
      obtain ⟨rfl, rfl⟩ := initializes_countField hi
      decide
    · intro i hi
      obtain ⟨rfl, -⟩ := initializes_countField hi
      decide
    · intro s r f hd
      cases hd
  · obtain ⟨t, ht, ha⟩ := mem_parts_eventDocument 7 "2024-02-29" (.inr rfl)
    refine (load_usable_iff _ d t _ h ht ha ?_).2.2.mpr ⟨?_, ?_, ?_⟩
    · exact fun i p hi => absurd hi initializes_dayField
    · exact fun i p hi => absurd hi initializes_dayField
    · exact fun i hi => absurd hi initializes_dayField
    · intro s r f hd hr hf
      cases h
      cases hd
      cases hr
      cases hf
      exact hday

/-- A count that is too great for 32 bits and a text that is no date are both accepted. Each of the
    two breaks one of the two halves of being usable. -/
theorem load_unusable_events : ∃ d, load (eventDocument 4294967296 "someday") = .ok d ∧
    (∃ t ∈ (eventDocument 4294967296 "someday").types,
      countField 4294967296 ∈ t.definition.parts) ∧
    (∃ t ∈ (eventDocument 4294967296 "someday").types, dayField "someday" ∈ t.definition.parts) ∧
    ¬ d.registry.Usable (countField 4294967296) ∧ ¬ d.registry.Usable (dayField "someday") := by
  obtain ⟨d, h⟩ : ∃ d, load (eventDocument 4294967296 "someday") = .ok d := ⟨_, rfl⟩
  have hday : ¬ ∃ day, Calendar.readDate "someday" = .ok day := by decide +kernel
  refine ⟨d, h, mem_parts_eventDocument _ _ (.inl rfl), mem_parts_eventDocument _ _ (.inr rfl), ?_,
    ?_⟩
  · intro hu
    have hholds := hu.integer 4294967296 .int32 (.value rfl kind_countField) rfl
    revert hholds
    decide
  · intro hu
    cases h
    exact hday (hu.text "someday" _ .date rfl (.inr rfl) rfl)

end Design
end Shapewright
