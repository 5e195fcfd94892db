import Shapewright.Document.Schema
import Shapewright.Proofs.Document.Reading

/-!
# Texts and values are read alike

A reader is steady if, once it has read something from a draft, the draft is whole and the same is
read from it everywhere. For a text this asks one thing of the draft: that what is passed over
without being read could be read as well. Every reader of design documents is steady; the two
origins of a document differ in the misfits that are reported, and in nothing else.

## Where the origin could matter

A reader knows whether its document is a text or a value, since the two report faults differently
and stop at different points: a choice that is made by an object is read to the end of the object in
a text, and is counted in a value. It also knows how much room is left for containers. `Steady` says
that none of this matters to what is read.

## Records

For a record, most of the work is about members that it has no field for. They are passed over and
not read, so a success says only that they could be passed over, and that they are whole has to come
from `Fair`. It is the one point at which the statement about texts needs a proviso.
-/

namespace Shapewright

open Json (Draft Ending Member)
open Reader (Reads ReadIn)

variable {α β σ : Type}

/-- What is passed over in the draft could be read, and a draft that is no text is whole. Under
    these conditions a reader makes the same of a text as of its value. -/
structure Fair (origin : Origin) (d : Draft) : Prop where
  legible : d.Legible
  whole : origin = .value → d.Whole

/-- What was read somewhere is read everywhere, and nothing of the draft was left out. The premise
    leaves out drafts of values that are not whole, since there are none. -/
def Steady (read : Reader α) : Prop :=
  ∀ origin d x, ReadIn origin read d x → Fair origin d → d.Whole ∧ Reads read d x

theorem Fair.of_whole {origin : Origin} {d : Draft} (h : d.Whole) : Fair origin d :=
  ⟨h.legible, fun _ => h⟩

theorem Fair.child {origin : Origin} {d b : Draft} (h : Fair origin d) (hb : b ∈ d.children) :
    Fair origin b :=
  ⟨(Draft.legible_iff.mp h.legible).2 b hb, fun ho => (h.whole ho).child hb⟩

namespace Steady

variable {read : Reader α}

theorem reads (h : Steady read) {spot : Spot} {d : Draft} {x : α} (hread : read spot d = .ok x)
    (hd : Fair spot.origin d) : d.Whole ∧ Reads read d x :=
  h spot.origin d x ⟨spot, rfl, hread⟩ hd

/-- From a whole draft one and the same thing is read, or nothing, wherever there is room. -/
theorem toOption_eq (h : Steady read) {d : Draft} (hd : d.Whole) {spot spot' : Spot}
    (hroom : d.height ≤ spot.room) (hroom' : d.height ≤ spot'.room) :
    (read spot d).toOption = (read spot' d).toOption := by
  refine Option.ext fun x => ?_
  rw [toOption_eq_some, toOption_eq_some]
  exact ⟨fun hx => (h.reads hx (.of_whole hd)).2 spot' hroom',
    fun hx => (h.reads hx (.of_whole hd)).2 spot hroom⟩

end Steady

theorem forall₂_imp_mem {R S : α → β → Prop} {xs : List α} {ys : List β}
    (himp : ∀ x ∈ xs, ∀ y, R x y → S x y) (h : List.Forall₂ R xs ys) : List.Forall₂ S xs ys := by
  induction h with
  | nil => exact .nil
  | cons hr _ ih =>
    rw [List.forall_mem_cons] at himp
    exact .cons (himp.1 _ hr) (ih himp.2)

namespace Reader

variable {read : Reader α}

theorem steady_string : Steady string := by
  rintro origin d x ⟨spot, rfl, h⟩ -
  cases string_eq_ok.mp h
  exact ⟨Draft.whole_of_leaf rfl rfl, reads_string x⟩

theorem steady_bool : Steady bool := by
  rintro origin d x ⟨spot, rfl, h⟩ -
  cases bool_eq_ok.mp h
  exact ⟨Draft.whole_of_leaf rfl rfl, reads_bool x⟩

theorem steady_size : Steady size := by
  rintro origin d x ⟨spot, rfl, h⟩ -
  cases d with
  | integer i =>
    refine ⟨Draft.whole_of_leaf rfl rfl, fun spot' _ => ?_⟩
    rw [size] at h ⊢
    split at h
    · simp at h
    · rwa [if_neg ‹_›]
  | _ => simp [size] at h

theorem steady_number : Steady number := by
  rintro origin d x ⟨spot, rfl, h⟩ -
  cases d with
  | integer i | float f => exact ⟨Draft.whole_of_leaf rfl rfl, fun _ _ => h⟩
  | _ => simp [number] at h

theorem steady_mismatch (expected : String) :
    Steady (α := α) fun spot d => mismatch expected spot d := by
  rintro origin d x ⟨spot, rfl, h⟩ -
  simp at h

/-- What may be missing is read steadily if it is so when it is there. A null is nothing wherever it
    stands. -/
theorem steady_optional (h : Steady read) : Steady (optional read) := by
  rintro origin d x ⟨spot, rfl, hread⟩ hd
  by_cases hnull : d = .null
  · subst hnull
    cases hread
    exact ⟨Draft.whole_of_leaf rfl rfl, reads_none read⟩
  · have hsome : (read spot d).map some = .ok x := by
      cases d with
      | null => exact absurd rfl hnull
      | _ => exact hread
    cases hx : read spot d with
    | error _ => simp [hx, Except.map] at hsome
    | ok y =>
      simp only [hx, Except.map, Except.ok.injEq] at hsome
      obtain ⟨hwhole, hreads⟩ := h.reads hx hd
      exact ⟨hwhole, hsome ▸ reads_some hreads hnull⟩

theorem steady_list (h : Steady read) : Steady (list read) := by
  rintro origin d xs ⟨spot, rfl, hread⟩ hd
  obtain ⟨ds, rfl, hds⟩ := of_list_eq_ok hread
  have hall := forall₂_imp_mem (fun d hmem x hx => h _ d x hx (hd.child hmem)) hds
  obtain ⟨hwhole, hreads⟩ := (List.forall₂_and_left _ _).mp hall
  exact ⟨Draft.whole_array.mpr ⟨rfl, hwhole⟩, reads_list hreads⟩

theorem steady_table (h : Steady read) : Steady (table read) := by
  rintro origin d xs ⟨spot, rfl, hread⟩ hd
  obtain ⟨ms, es, rfl, hes, rfl⟩ := of_table_eq_ok hread
  have hall := forall₂_imp_mem (fun m hmem e he =>
    (h _ m.value e.2 he.2 (hd.child (List.mem_map_of_mem hmem))).imp_right (And.intro he.1)) hes
  obtain ⟨hwhole, hreads⟩ := (List.forall₂_and_left _ _).mp hall
  exact ⟨Draft.whole_object.mpr ⟨rfl, hwhole⟩, reads_table hreads⟩

/-! ## Choices and data of several shapes -/

/-- A choice may be made by an object with the name as its only key. -/
theorem reads_choiceMember {choices : List (String × α)} {m : Member Draft} {x : α}
    (hx : Ordered.get? choices m.key = some x) (hm : m.value = .null) :
    Reads (choice choices) (.object [m] .closed) x := by
  rintro ⟨origin, place, room⟩ hroom
  obtain ⟨inner, hinner, -⟩ := exists_opened hroom
  cases origin with
  | text => simp [choice, hinner, chosen, hx, hm, unit]
  | value => simp [choice, chosen, hx, hm, unit]

theorem chosen_eq_ok {choices : List (String × α)} {spot : Spot} {name : String} {x : α} :
    chosen choices spot name = .ok x ↔ Ordered.get? choices name = some x := by
  rw [chosen]
  cases Ordered.get? choices name <;> simp

/-- A choice is made by a name or by such an object. In a value nobody asks whether the object was
    closed, as it always is. -/
theorem of_choice_eq_ok {choices : List (String × α)} {spot : Spot} {d : Draft} {x : α}
    (h : choice choices spot d = .ok x) :
    (∃ name, d = .string name ∧ Ordered.get? choices name = some x) ∨
      ∃ m ending, d = .object [m] ending ∧ (spot.origin = .text → ending = .closed) ∧
        Ordered.get? choices m.key = some x ∧ m.value = .null := by
  obtain ⟨origin, place, room⟩ := spot
  cases d with
  | string name => exact .inl ⟨name, rfl, chosen_eq_ok.mp h⟩
  | object ms ending =>
    refine .inr ?_
    -- The two origins take an object for a choice differently: a value must have a single member,
    -- and of a text the first is read before the end is looked for.
    cases origin with
    | value =>
      rcases ms with _ | ⟨m, _ | ⟨m', more⟩⟩
      · simp [choice] at h
      · simp only [choice, except_bind_eq_ok] at h
        obtain ⟨x', hx, _, hm, h⟩ := h
        cases h
        refine ⟨m, ending, rfl, fun horigin => ?_, chosen_eq_ok.mp hx, unit_eq_ok.mp hm⟩
        cases horigin
      · simp [choice] at h
    | text =>
      cases ms with
      | nil =>
        simp only [choice, except_bind_eq_ok] at h
        obtain ⟨inner, -, h⟩ := h
        cases ending <;> simp at h
      | cons m more =>
        simp only [choice, except_bind_eq_ok] at h
        obtain ⟨inner, -, x', hx, _, hm, h⟩ := h
        split at h
        · cases h
          exact ⟨m, .closed, rfl, fun _ => rfl, chosen_eq_ok.mp hx, unit_eq_ok.mp hm⟩
        · simp at h
        · simp at h
  | _ => cases origin <;> simp [choice] at h

/-- Both ways to make a choice are read steadily. A choice can be given as a text or as an object
    with one member. -/
theorem steady_choice (choices : List (String × α)) : Steady (choice choices) := by
  rintro origin d x ⟨spot, rfl, hread⟩ hd
  rcases of_choice_eq_ok hread with ⟨name, rfl, hx⟩ | ⟨m, ending, rfl, hclosed, hx, hm⟩
  · exact ⟨Draft.whole_of_leaf rfl rfl, reads_choice hx⟩
  · have hend : ending = .closed := by
      cases ho : spot.origin with
      | text => exact hclosed ho
      | value => exact (Draft.whole_object.mp (hd.whole ho)).1
    subst hend
    refine ⟨Draft.whole_object.mpr ⟨rfl, ?_⟩, reads_choiceMember hx hm⟩
    rw [List.forall_mem_singleton, hm]
    exact Draft.whole_of_leaf rfl rfl

/-- Data of several shapes are read steadily if shapes do not depend on where they are looked at. -/
theorem steady_variants {type : String} {shape : Spot → Draft → Option α}
    (h : ∀ d, d.Whole → ∀ spot spot' : Spot, d.height ≤ spot.room → d.height ≤ spot'.room →
      shape spot d = shape spot' d) : Steady (variants type shape) := by
  rintro origin d x ⟨spot, rfl, hread⟩ -
  obtain ⟨⟨hwhole, hroom⟩, hx⟩ := variants_eq_ok.mp hread
  refine ⟨hwhole, reads_variants hwhole fun spot' hroom' => ?_⟩
  rw [← h d hwhole spot spot' hroom hroom', hx]

end Reader

/-! ## Records -/

/-- What a field made of a record somewhere, it makes of it everywhere. It is the same for a field
    as for a reader, with the record that is passed along. -/
def RecordField.Steady (f : RecordField σ) : Prop :=
  ∀ spot d s s', f.read spot d s = .ok s' → Fair spot.origin d → d.Whole ∧ f.Takes d s s'

namespace RecordField

variable {read : Reader α} {store : α → σ → σ} {name : String}

theorem steady_of (h : Shapewright.Steady read) : (of name read store).Steady := by
  intro spot d s s' hread hd
  obtain ⟨x, hx, rfl⟩ := of_read_eq_ok.mp hread
  exact (h.reads hx hd).imp_right takes_of

theorem steady_need (h : Shapewright.Steady read) : (need name read store).Steady :=
  (steady_of h : (of name read store).Steady)

end RecordField

namespace Record

variable {r : Record σ}

theorem stranger_eq_ok {spot : Spot} {key : String} :
    r.stranger spot key = .ok () ↔ r.strict = false := by
  rw [stranger]
  split <;> simp_all

/-- The members of an object that were read into a record are whole, those that were passed over
    included, and are read into it everywhere. -/
theorem steady_members (hfields : ∀ f ∈ r.fields, f.Steady) {ms : List (Member Draft)}
    {spot : Spot} {met : List String} {s : σ} {out : List String × σ}
    (h : r.members spot met s ms = .ok out)
    (hms : ∀ m ∈ ms, Fair spot.origin m.value ∧ (m.impassable = none → m.value.Whole)) :
    (∀ m ∈ ms, m.value.Whole) ∧ ∀ spot' : Spot, (∀ m ∈ ms, m.value.height ≤ spot'.room) →
      r.members spot' met s ms = .ok out := by
  induction ms generalizing met s with
  | nil => exact ⟨by simp, fun _ _ => h⟩
  | cons m rest ih =>
    simp only [List.forall_mem_cons] at hms ⊢
    rw [members] at h
    -- A member is of a field of the record, or of a stranger that is passed over where strangers
    -- may be.
    cases hf : r.field? m.key with
    | some f =>
      simp only [hf] at h
      split at h
      · simp at h
      · rename_i hmet
        obtain ⟨s₁, hs₁, h⟩ := except_bind_eq_ok.mp h
        obtain ⟨hwhole, htakes⟩ := hfields f (mem_of_field? hf).1 _ _ _ _ hs₁ hms.1.1
        obtain ⟨hrest, hreads⟩ := ih h hms.2
        refine ⟨⟨hwhole, hrest⟩, fun spot' hroom => ?_⟩
        simp only [members, hf, hmet, htakes (spot'.below _) hroom.1]
        exact hreads spot' hroom.2
    | none =>
      simp only [hf] at h
      obtain ⟨_, hstranger, h⟩ := except_bind_eq_ok.mp h
      split at h
      · simp at h
      · rename_i hpass
        obtain ⟨hrest, hreads⟩ := ih h hms.2
        refine ⟨⟨hms.1.2 hpass, hrest⟩, fun spot' hroom => ?_⟩
        have hstranger' : r.stranger spot' m.key = .ok () :=
          stranger_eq_ok.mpr (stranger_eq_ok.mp hstranger)
        simp only [members, hf, hstranger', hpass]
        exact hreads spot' hroom.2

/-- The fields of a record given by position are whole, and are read into it everywhere. By
    induction on the fields. A record may be given without its last fields, so the items can run out
    first. -/
theorem steady_positional {fs : List (RecordField σ)} (hfields : ∀ f ∈ fs, f.Steady)
    {ds : List Draft} {spot : Spot} {index count : Nat} {s s' : σ}
    (h : positional spot index s fs ds = .ok (s', count, [])) (hds : ∀ d ∈ ds, Fair spot.origin d) :
    (∀ d ∈ ds, d.Whole) ∧ ∀ spot' : Spot, (∀ d ∈ ds, d.height ≤ spot'.room) →
      positional spot' index s fs ds = .ok (s', count, []) := by
  induction fs generalizing ds index s with
  | nil =>
    cases ds with
    | nil => exact ⟨by simp, fun _ _ => h⟩
    | cons d rest => cases h
  | cons f fs ih =>
    cases ds with
    | nil => exact ⟨by simp, fun _ _ => h⟩
    | cons d rest =>
      simp only [List.forall_mem_cons] at hfields hds ⊢
      obtain ⟨s₁, hs₁, h⟩ := except_bind_eq_ok.mp h
      obtain ⟨hwhole, htakes⟩ := hfields.1 _ _ _ _ hs₁ hds.1
      obtain ⟨hrest, hreads⟩ := ih hfields.2 h hds.2
      refine ⟨⟨hwhole, hrest⟩, fun spot' hroom => ?_⟩
      rw [positional, htakes (spot'.below _) hroom.1]
      exact hreads spot' hroom.2

/-- A record of steady fields is steady. A record reads its fields and then looks for those that are
    missing, and neither depends on where it stands. -/
theorem steady_read (hfields : ∀ f ∈ r.fields, f.Steady) : Steady r.read := by
  rintro origin d s ⟨spot, rfl, h⟩ hd
  cases d with
  | object ms ending =>
    obtain ⟨rfl, inner, met, hinner, hread, hmissing⟩ := read_object_eq_ok.mp h
    -- What is inside has the same origin as the whole.
    have hms : ∀ m ∈ ms, Fair inner.origin m.value ∧ (m.impassable = none → m.value.Whole) := by
      intro m hm
      rw [Reader.origin_of_opened hinner]
      exact ⟨hd.child (List.mem_map_of_mem hm), (Draft.legible_iff.mp hd.legible).1 m hm⟩
    obtain ⟨hwhole, hreads⟩ := steady_members hfields hread hms
    refine ⟨Draft.whole_object.mpr ⟨rfl, hwhole⟩, fun spot' hroom => ?_⟩
    obtain ⟨inner', hinner', hle⟩ := Reader.exists_opened hroom
    exact read_object_eq_ok.mpr ⟨rfl, inner', met, hinner',
      hreads inner' (Draft.heightMembers_le.mp hle), hmissing⟩
  | array ds ending =>
    obtain ⟨rfl, inner, count, hinner, hread, hmissing⟩ := read_array_eq_ok.mp h
    have hds : ∀ d ∈ ds, Fair inner.origin d := by
      intro d hmem
      rw [Reader.origin_of_opened hinner]
      exact hd.child hmem
    obtain ⟨hwhole, hreads⟩ := steady_positional hfields hread hds
    refine ⟨Draft.whole_array.mpr ⟨rfl, hwhole⟩, fun spot' hroom => ?_⟩
    obtain ⟨inner', hinner', hle⟩ := Reader.exists_opened hroom
    exact read_array_eq_ok.mpr ⟨rfl, inner', count, hinner',
      hreads inner' (Draft.heightItems_le.mp hle), hmissing⟩
  | _ => simp [Record.read] at h

end Record

/-! ## Design documents -/

namespace Reader

open Record (steady_read)
open RecordField (steady_of steady_need)

theorem steady_literal : Steady literal := steady_variants fun _ _ _ _ _ _ => rfl

theorem steady_rules : Steady rules := by
  refine steady_read ?_
  simp only [rulesRecord, List.forall_mem_cons]
  exact ⟨steady_of (steady_list steady_string), steady_of (steady_list steady_literal),
    steady_of (steady_optional (steady_choice _)), steady_of (steady_optional steady_string),
    steady_of (steady_optional steady_size), steady_of (steady_optional steady_size),
    steady_of (steady_optional steady_number), steady_of (steady_optional steady_number),
    List.forall_mem_nil _⟩

theorem steady_overrides : Steady overrides := by
  refine steady_read ?_
  simp only [overridesRecord, List.forall_mem_cons]
  exact ⟨steady_of (steady_optional steady_string), steady_of (steady_optional steady_bool),
    steady_of (steady_optional steady_string), steady_of (steady_optional steady_string),
    List.forall_mem_nil _⟩

theorem steady_attribute {dataType : Reader (DataType Attribute)} (h : Steady dataType) :
    Steady (attributeRecord dataType).read := by
  refine steady_read ?_
  simp only [attributeRecord, List.forall_mem_cons]
  exact ⟨steady_need h, steady_of (steady_optional steady_string), steady_of steady_rules,
    steady_of steady_overrides, steady_of (steady_optional steady_literal), List.forall_mem_nil _⟩

section

variable {inner : Reader Attribute} (hinner : Steady inner)
include hinner

theorem steady_entry : Steady (entryRecord inner).read := by
  refine steady_read ?_
  simp only [entryRecord, List.forall_mem_cons]
  exact ⟨steady_need hinner, steady_need hinner, List.forall_mem_nil _⟩

theorem steady_alternative : Steady (alternativeRecord inner).read := by
  refine steady_read ?_
  simp only [alternativeRecord, List.forall_mem_cons]
  exact ⟨steady_need steady_string, steady_need hinner, List.forall_mem_nil _⟩

theorem steady_union : Steady (unionRecord inner).read := by
  refine steady_read ?_
  simp only [unionRecord, List.forall_mem_cons]
  exact ⟨steady_need steady_string, steady_need (steady_list (steady_alternative hinner)),
    List.forall_mem_nil _⟩

variable {d : Draft} (hd : d.Whole) {spot spot' : Spot} (hroom : d.height ≤ spot.room)
  (hroom' : d.height ≤ spot'.room)
include hd hroom hroom'

/-- A structure is the same wherever there is room for it. -/
theorem structured_eq (key : String) :
    structured inner spot key d = structured inner spot' key d := by
  simp only [structured, hinner.toOption_eq hd hroom hroom',
    (steady_entry hinner).toOption_eq hd hroom hroom',
    (steady_table hinner).toOption_eq hd hroom hroom',
    (steady_union hinner).toOption_eq hd hroom hroom', steady_string.toOption_eq hd hroom hroom']

/-- The shape of a type is the same wherever there is room for it. It is told from the one member
    that such an object has, and a spot gives no more than the room for it. -/
theorem typeShape_eq : typeShape inner spot d = typeShape inner spot' d := by
  simp only [typeShape, (steady_choice _).toOption_eq hd hroom hroom']
  cases d with
  | object ms ending =>
    match ms with
    | [m] =>
      have hm : m.value ∈ (Draft.object [m] ending).children := List.mem_cons_self
      have hlt := Nat.le_of_lt (Draft.height_lt_of_mem_children hm)
      simp only [structured_eq hinner (hd.child hm) (Nat.le_trans hlt hroom)
        (Nat.le_trans hlt hroom')]
    | [] | _ :: _ :: _ => rfl
  | _ => rfl

end

theorem steady_dataTypeWithin (levels : Nat) : Steady (dataTypeWithin levels) := by
  induction levels with
  | zero => exact steady_variants fun d hd _ _ => typeShape_eq (steady_mismatch _) hd
  | succ levels ih => exact steady_variants fun d hd _ _ => typeShape_eq (steady_attribute ih) hd

theorem steady_dataType : Steady dataType := fun origin d t ht hd => by
  obtain ⟨spot, ho, hread⟩ := ht
  exact steady_dataTypeWithin d.height origin d t ⟨spot, ho, hread⟩ hd

theorem steady_attr : Steady attr := steady_attribute steady_dataType

theorem steady_viewAttribute : Steady viewAttribute := by
  refine steady_variants fun d hd spot spot' hroom hroom' => ?_
  have htagged : Steady taggedRecord.read := by
    refine steady_read ?_
    simp only [taggedRecord, List.forall_mem_cons]
    exact ⟨steady_need steady_string, steady_of (steady_optional steady_string),
      List.forall_mem_nil _⟩
  cases d with
  | object ms ending => simp only [viewAttributeShape, htagged.toOption_eq hd hroom hroom']
  | _ => rfl

theorem steady_view : Steady viewRecord.read := by
  refine steady_read ?_
  simp only [viewRecord, List.forall_mem_cons]
  exact ⟨steady_need steady_string, steady_need (steady_list steady_viewAttribute),
    List.forall_mem_nil _⟩

theorem steady_userType : Steady userType := by
  refine steady_read ?_
  simp only [userTypeRecord, List.forall_mem_cons]
  exact ⟨steady_of steady_string, steady_of steady_string, steady_of (steady_choice _),
    steady_need steady_attr, steady_of (steady_list steady_view), List.forall_mem_nil _⟩

theorem steady_context : Steady context := by
  refine steady_read ?_
  simp only [contextRecord, List.forall_mem_cons]
  exact ⟨steady_of steady_bool, steady_of steady_bool, steady_of steady_bool,
    steady_of steady_string, steady_of (steady_choice _), List.forall_mem_nil _⟩

theorem steady_reporting : Steady reporting := by
  refine steady_read ?_
  simp only [reportingRecord, List.forall_mem_cons]
  exact ⟨steady_of steady_string, steady_of steady_string, List.forall_mem_nil _⟩

theorem steady_conversion : Steady conversionRecord.read := by
  refine steady_read ?_
  simp only [conversionRecord, List.forall_mem_cons]
  exact ⟨steady_of (steady_optional steady_string), steady_need steady_string,
    steady_need steady_string, steady_of steady_string, steady_of steady_string,
    steady_of steady_string, steady_of (steady_choice _), List.forall_mem_nil _⟩

theorem steady_projection : Steady projectionRecord.read := by
  refine steady_read ?_
  simp only [projectionRecord, List.forall_mem_cons]
  exact ⟨steady_need steady_string, steady_of steady_string, steady_of steady_string,
    List.forall_mem_nil _⟩

theorem steady_validation : Steady validationRecord.read := by
  refine steady_read ?_
  simp only [validationRecord, List.forall_mem_cons]
  exact ⟨steady_need steady_string, steady_of (steady_optional steady_string),
    steady_of steady_string, List.forall_mem_nil _⟩

theorem steady_document : Steady document := by
  refine steady_read ?_
  simp only [documentRecord, List.forall_mem_cons]
  exact ⟨steady_of (steady_list steady_userType), steady_of (steady_table steady_context),
    steady_of (steady_list steady_conversion), steady_of (steady_list steady_projection),
    steady_of (steady_list steady_validation), steady_of steady_reporting, List.forall_mem_nil _⟩

end Reader
end Shapewright
