import Shapewright.Document.Reader
import Shapewright.Proofs.Positions
import Shapewright.Proofs.Projection.Derivation

/-!
# Whole drafts

A draft is whole if nothing in it is broken and every container in it was closed. Whole drafts of
which no object repeats a key are the drafts of values; a reader that goes through a draft to its
end finds no fault if the draft is whole and there is room for its containers.

## Why drafts

A reader of a text meets the first fault of the text while it is building something, and reports it
with the path it has come to. So a text is first made into a draft, which has the faults in the
places where a reader would come across them, and readers work on drafts. A value gives a draft as
well, without any faults.

## What may be passed over

A reader may skip a member that it has no use for. To skip a value is not to read it: some escapes
in strings can be skipped although they stand for no character. A draft keeps note of both, and
`Draft.Legible` and `Draft.Passable` say that the one follows from the other. The drafts of texts
are passable, whatever the text (`Document.Texts`), and being legible has to be asked for.

## Recursion

Drafts are nested through lists of items and of members, so functions over them come in threes and
so do the proofs about these. Once a property is stated with `parts`, the third part can be left to
`forall_parts_iff`.
-/

namespace Shapewright

namespace Ordered

variable {κ α : Type} [BEq κ] [LawfulBEq κ] {entries : List (κ × α)} {key : κ} {value : α}

/-- A new key is put behind the others. For a key that is there, the entry is replaced at its place,
    which is why order and uniqueness are kept apart. -/
theorem insert_of_not_mem (h : key ∉ entries.map Prod.fst) :
    insert entries key value = entries ++ [(key, value)] := by
  induction entries with
  | nil => rfl
  | cons x rest ih =>
    obtain ⟨k, v⟩ := x
    rw [List.map_cons, List.mem_cons, not_or] at h
    have hk : (k == key) = false := beq_eq_false_iff_ne.mpr (Ne.symm h.1)
    rw [insert, hk, ih h.2]
    rfl

end Ordered

namespace Json.Draft

variable {d b x : Draft}

/-! ## The drafts inside a draft -/

/-- The drafts one level below. -/
def children : Draft → List Draft
  | .array items _ => items
  | .object members _ => members.map (·.value)
  | _ => []

/-- The members of an object. -/
def members : Draft → List (Member Draft)
  | .object members _ => members
  | _ => []

mutual

/-- The drafts in a draft, itself included. -/
def parts (d : Draft) : List Draft :=
  d :: match d with
    | .array items _ => partsOfItems items
    | .object members _ => partsOfMembers members
    | _ => []

/-- The drafts in the items of an array. -/
def partsOfItems : List Draft → List Draft
  | [] => []
  | d :: rest => d.parts ++ partsOfItems rest

/-- The drafts in the members of an object. -/
def partsOfMembers : List (Member Draft) → List Draft
  | [] => []
  | ⟨_, d, _⟩ :: rest => d.parts ++ partsOfMembers rest

end

theorem mem_partsOfItems {items : List Draft} :
    x ∈ partsOfItems items ↔ ∃ d ∈ items, x ∈ d.parts := by
  induction items with
  | nil => simp [partsOfItems]
  | cons d rest ih => simp [partsOfItems, ih]

theorem mem_partsOfMembers {ms : List (Member Draft)} :
    x ∈ partsOfMembers ms ↔ ∃ m ∈ ms, x ∈ m.value.parts := by
  induction ms with
  | nil => simp [partsOfMembers]
  | cons m rest ih => simp [partsOfMembers, ih]

theorem mem_parts_iff : x ∈ d.parts ↔ x = d ∨ ∃ b ∈ d.children, x ∈ b.parts := by
  cases d <;> simp [parts, children, mem_partsOfItems, mem_partsOfMembers]

/-- What holds throughout a draft holds of the draft and throughout the drafts one level below.
    Predicates on drafts are defined by their parts, and with this they are used by recursion. -/
theorem forall_parts_iff {P : Draft → Prop} :
    (∀ x ∈ d.parts, P x) ↔ P d ∧ ∀ b ∈ d.children, ∀ x ∈ b.parts, P x := by
  constructor
  · intro h
    refine ⟨h d (mem_parts_iff.mpr (.inl rfl)), fun b hb x hx => ?_⟩
    exact h x (mem_parts_iff.mpr (.inr ⟨b, hb, hx⟩))
  · rintro ⟨hd, hchildren⟩ x hx
    rcases mem_parts_iff.mp hx with rfl | ⟨b, hb, hx⟩
    · exact hd
    · exact hchildren b hb x hx

/-! ## Heights -/

variable {n : Nat}

theorem heightItems_le {items : List Draft} :
    heightItems items ≤ n ↔ ∀ d ∈ items, d.height ≤ n := by
  induction items with
  | nil => simp [heightItems]
  | cons d rest ih => rw [heightItems, Nat.max_le, ih, List.forall_mem_cons]

theorem heightMembers_le {ms : List (Member Draft)} :
    heightMembers ms ≤ n ↔ ∀ m ∈ ms, m.value.height ≤ n := by
  induction ms with
  | nil => simp [heightMembers]
  | cons m rest ih => rw [heightMembers, Nat.max_le, ih, List.forall_mem_cons]

/-- A draft is higher than what is one level below. Recursion on drafts goes down in height, and so
    does the room that is left. -/
theorem height_lt_of_mem_children (h : b ∈ d.children) : b.height < d.height := by
  cases d with
  | array items ending =>
    have := heightItems_le.mp (Nat.le_refl (heightItems items)) b h
    rw [height]
    omega
  | object ms ending =>
    obtain ⟨m, hm, rfl⟩ := List.mem_map.mp h
    have := heightMembers_le.mp (Nat.le_refl _) m hm
    rw [height]
    omega
  | _ => simp [children] at h

/-! ## Whole drafts -/

/-- The draft was read to its end, whatever is below it. -/
def complete : Draft → Bool
  | .broken _ => false
  | .array _ ending | .object _ ending => ending = .closed
  | _ => true

/-- Nothing in the draft is broken, and every container in it was closed. Only drafts of texts can
    be otherwise, since a value has no place where it could break off. -/
def Whole (d : Draft) : Prop := ∀ x ∈ d.parts, x.complete

instance decidableWhole (d : Draft) : Decidable d.Whole :=
  inferInstanceAs (Decidable (∀ x ∈ d.parts, x.complete))

theorem whole_iff : d.Whole ↔ d.complete ∧ ∀ b ∈ d.children, b.Whole := forall_parts_iff

theorem Whole.child (h : d.Whole) (hb : b ∈ d.children) : b.Whole := (whole_iff.mp h).2 b hb

@[simp] theorem whole_array {items : List Draft} {ending : Ending} :
    (Draft.array items ending).Whole ↔ ending = .closed ∧ ∀ d ∈ items, d.Whole := by
  rw [whole_iff]
  simp [complete, children]

@[simp] theorem whole_object {ms : List (Member Draft)} {ending : Ending} :
    (Draft.object ms ending).Whole ↔ ending = .closed ∧ ∀ m ∈ ms, m.value.Whole := by
  rw [whole_iff]
  simp [complete, children]

@[simp] theorem not_whole_broken {why : SyntaxFault} : ¬ (Draft.broken why).Whole := fun h =>
  Bool.false_ne_true (whole_iff.mp h).1

theorem whole_of_leaf (hd : d.children = []) (h : d.complete) : d.Whole :=
  whole_iff.mpr ⟨h, by simp [hd]⟩

/-- No object in the draft repeats a key. A text may repeat one, and a value may not. -/
def Distinct (d : Draft) : Prop := ∀ x ∈ d.parts, (x.members.map (·.key)).Nodup

instance decidableDistinct (d : Draft) : Decidable d.Distinct :=
  inferInstanceAs (Decidable (∀ x ∈ d.parts, (x.members.map (·.key)).Nodup))

theorem distinct_iff :
    d.Distinct ↔ (d.members.map (·.key)).Nodup ∧ ∀ b ∈ d.children, b.Distinct := forall_parts_iff

/-- What can be read in the draft can be passed over as well. Readers pass over what they have no
    use for, by a scan of its own that must not find fault with more than reading does. -/
def Passable (d : Draft) : Prop :=
  ∀ x ∈ d.parts, ∀ m ∈ x.members, m.value.Whole → m.impassable = none

theorem passable_iff :
    d.Passable ↔ (∀ m ∈ d.members, m.value.Whole → m.impassable = none) ∧
      ∀ b ∈ d.children, b.Passable := forall_parts_iff

/-- What can be passed over in the draft can be read as well. The scan that passes over a value
    looks at less of it, so this is not true of every text. -/
def Legible (d : Draft) : Prop :=
  ∀ x ∈ d.parts, ∀ m ∈ x.members, m.impassable = none → m.value.Whole

instance decidableLegible (d : Draft) : Decidable d.Legible :=
  inferInstanceAs
    (Decidable (∀ x ∈ d.parts, ∀ m ∈ x.members, m.impassable = none → m.value.Whole))

theorem legible_iff :
    d.Legible ↔ (∀ m ∈ d.members, m.impassable = none → m.value.Whole) ∧
      ∀ b ∈ d.children, b.Legible := forall_parts_iff

theorem value_mem_children {m : Member Draft} (h : m ∈ d.members) : m.value ∈ d.children := by
  cases d with
  | object ms ending => exact List.mem_map_of_mem h
  | _ => simp [members] at h

theorem Whole.legible (h : d.Whole) : d.Legible := by
  induction hn : d.height using Nat.strongRecOn generalizing d with
  | ind n ih =>
    refine legible_iff.mpr ⟨fun m hm _ => h.child (value_mem_children hm), fun b hb => ?_⟩
    exact ih b.height (hn ▸ height_lt_of_mem_children hb) (h.child hb) rfl

/-! ## Drafts of values -/

mutual

theorem whole_ofValue (v : Value) : (ofValue v).Whole := by
  match v with
  | .null | .bool _ | .integer _ | .float _ | .string _ => exact whole_of_leaf rfl rfl
  | .array items => exact whole_array.mpr ⟨rfl, whole_ofItems items⟩
  | .object ms => exact whole_object.mpr ⟨rfl, whole_ofMembers ms⟩

theorem whole_ofItems (items : List Value) : ∀ d ∈ ofItems items, d.Whole := by
  match items with
  | [] => simp [ofItems]
  | v :: rest =>
    rw [ofItems, List.forall_mem_cons]
    exact ⟨whole_ofValue v, whole_ofItems rest⟩

theorem whole_ofMembers (ms : List (String × Value)) : ∀ m ∈ ofMembers ms, m.value.Whole := by
  match ms with
  | [] => simp [ofMembers]
  | (k, v) :: rest =>
    rw [ofMembers, List.forall_mem_cons]
    exact ⟨whole_ofValue v, whole_ofMembers rest⟩

end

theorem ofItems_eq_map (items : List Value) : ofItems items = items.map ofValue := by
  induction items with
  | nil => rfl
  | cons v rest ih => rw [ofItems, ih, List.map_cons]

theorem ofMembers_eq_map (ms : List (String × Value)) :
    ofMembers ms = ms.map fun m => ⟨m.1, ofValue m.2, none⟩ := by
  induction ms with
  | nil => rfl
  | cons m rest ih => rw [ofMembers, ih, List.map_cons]

/-! ## The value of a draft -/

variable {room : Nat}

mutual

/-- A draft has a value exactly if it is whole and there is room for its containers. The two ways to
    fail are apart: a fault in the text, and more containers inside each other than are allowed. -/
theorem exists_toValue_iff (room : Nat) (d : Draft) :
    (∃ v, toValue room d = .ok v) ↔ d.Whole ∧ d.height ≤ room := by
  match d, room with
  | .null, _ | .bool _, _ | .integer _, _ | .float _, _ | .string _, _ =>
    exact iff_of_true ⟨_, rfl⟩ ⟨whole_of_leaf rfl rfl, Nat.zero_le _⟩
  | .broken _, _ => simp [toValue]
  | .array items ending, 0 => simp [toValue, height]
  -- One level of room is spent on the container itself, and all that is in it has the rest.
  | .array items ending, room + 1 =>
    have ih := exists_toItems_iff room items
    rw [whole_array, height, Nat.add_le_add_iff_right, heightItems_le]
    simp only [toValue, except_bind_eq_ok]
    cases ending with
    | closed => simp [exists_comm (α := Value), ih, forall_and]
    | broken _ | brokenAfter _ _ => simp
  | .object ms ending, 0 => simp [toValue, height]
  | .object ms ending, room + 1 =>
    have ih := exists_toMembers_iff room [] ms
    rw [whole_object, height, Nat.add_le_add_iff_right, heightMembers_le]
    simp only [toValue, except_bind_eq_ok]
    cases ending with
    | closed => simp [exists_comm (α := Value), ih, forall_and]
    | broken _ | brokenAfter _ _ => simp

theorem exists_toItems_iff (room : Nat) (items : List Draft) :
    (∃ vs, toItems room items = .ok vs) ↔ ∀ d ∈ items, d.Whole ∧ d.height ≤ room := by
  match items with
  | [] => simp [toItems]
  | d :: rest =>
    rw [List.forall_mem_cons, ← exists_toValue_iff room d, ← exists_toItems_iff room rest]
    simp [toItems]

theorem exists_toMembers_iff (room : Nat) (met : List (String × Value))
    (ms : List (Member Draft)) :
    (∃ vs, toMembers room met ms = .ok vs) ↔
      ∀ m ∈ ms, m.value.Whole ∧ m.value.height ≤ room := by
  match ms with
  | [] => simp [toMembers]
  | ⟨k, d, p⟩ :: rest =>
    have ih v := exists_toMembers_iff room (Ordered.insert met k v) rest
    rw [List.forall_mem_cons, ← exists_toValue_iff room d]
    simp only [toMembers, except_bind_eq_ok]
    constructor
    · rintro ⟨vs, v, hv, hvs⟩
      exact ⟨⟨v, hv⟩, (ih v).mp ⟨vs, hvs⟩⟩
    · rintro ⟨⟨v, hv⟩, hrest⟩
      obtain ⟨vs, hvs⟩ := (ih v).mpr hrest
      exact ⟨vs, v, hv, hvs⟩

end

mutual

/-- A draft of which no object repeats a key is the draft of its value. A key that is repeated keeps
    its last value only, so nothing could be said without the premise. -/
theorem ofValue_toValue (room : Nat) (d : Draft) {v : Value} (h : toValue room d = .ok v)
    (hkeys : d.Distinct) (hpass : d.Passable) : ofValue v = d := by
  match d, room with
  | .null, _ | .bool _, _ | .integer _, _ | .float _, _ | .string _, _ =>
    simp only [toValue, Except.ok.injEq] at h
    rw [← h, ofValue]
  | .broken _, _ | .array _ _, 0 | .object _ _, 0 => simp [toValue] at h
  | .array items ending, room + 1 =>
    simp only [toValue, except_bind_eq_ok] at h
    obtain ⟨vs, hvs, h⟩ := h
    -- Only what was closed has a value, so the draft is closed, as is the draft of any value.
    cases ending with
    | broken _ | brokenAfter _ _ => cases h
    | closed =>
      cases h
      rw [ofValue, ofItems_toItems room items hvs (distinct_iff.mp hkeys).2
        (passable_iff.mp hpass).2]
  | .object ms ending, room + 1 =>
    simp only [toValue, except_bind_eq_ok] at h
    obtain ⟨vs, hvs, h⟩ := h
    cases ending with
    | broken _ | brokenAfter _ _ => cases h
    | closed =>
      cases h
      have hpass := passable_iff.mp hpass
      have hkeys := distinct_iff.mp hkeys
      rw [ofValue, ofMembers_toMembers room [] ms hvs hkeys.1 (by simp) hpass.1
        (fun m hm => ⟨hkeys.2 _ (List.mem_map_of_mem hm), hpass.2 _ (List.mem_map_of_mem hm)⟩)]
      rfl

theorem ofItems_toItems (room : Nat) (items : List Draft) {vs : List Value}
    (h : toItems room items = .ok vs) (hkeys : ∀ d ∈ items, d.Distinct)
    (hpass : ∀ d ∈ items, d.Passable) : ofItems vs = items := by
  match items with
  | [] =>
    cases h
    rfl
  | d :: rest =>
    simp only [toItems, except_bind_eq_ok] at h
    obtain ⟨v, hv, vs', hvs, h⟩ := h
    cases h
    rw [List.forall_mem_cons] at hkeys hpass
    rw [ofItems, ofValue_toValue room d hv hkeys.1 hpass.1,
      ofItems_toItems room rest hvs hkeys.2 hpass.2]

theorem ofMembers_toMembers (room : Nat) (met : List (String × Value)) (ms : List (Member Draft))
    {vs : List (String × Value)} (h : toMembers room met ms = .ok vs)
    (hkeys : (ms.map (·.key)).Nodup) (hnew : ∀ m ∈ ms, m.key ∉ met.map Prod.fst)
    (himpassable : ∀ m ∈ ms, m.value.Whole → m.impassable = none)
    (hms : ∀ m ∈ ms, m.value.Distinct ∧ m.value.Passable) :
    ofMembers vs = ofMembers met ++ ms := by
  match ms with
  | [] =>
    cases h
    rw [List.append_nil]
  | ⟨k, d, p⟩ :: rest =>
    simp only [toMembers, except_bind_eq_ok] at h
    obtain ⟨v, hv, h⟩ := h
    rw [List.forall_mem_cons] at hnew himpassable hms
    rw [List.map_cons, List.nodup_cons] at hkeys
    rw [Ordered.insert_of_not_mem hnew.1] at h
    have hp : p = none := himpassable.1 ((exists_toValue_iff room d).mp ⟨v, hv⟩).1
    have hd := ofValue_toValue room d hv hms.1.1 hms.1.2
    -- The members are inserted one by one. None replaces an earlier one, since no key comes again.
    have hnew' : ∀ m ∈ rest, m.key ∉ (met ++ [(k, v)]).map Prod.fst := by
      intro m hm
      rw [List.map_append, List.mem_append, not_or]
      refine ⟨hnew.2 m hm, fun hk => hkeys.1 ?_⟩
      rw [List.map_singleton, List.mem_singleton] at hk
      exact List.mem_map.mpr ⟨m, hm, hk⟩
    rw [ofMembers_toMembers room _ rest h hkeys.2 hnew' himpassable.2 hms.2]
    simp [ofMembers_eq_map, hd, hp]

end

end Json.Draft

/-! ## Going through a draft -/

namespace Reader

open Json (Draft Ending Member)

@[simp] theorem spot_below_room (spot : Spot) (step : Step) : (spot.below step).room = spot.room :=
  rfl

@[simp] theorem ended_eq_ok {spot : Spot} {ending : Ending} :
    ended spot ending = .ok () ↔ ending = .closed := by
  cases ending <;> simp [ended, Spot.fail]

@[simp] theorem endedObject_eq_ok {spot : Spot} {ending : Ending} :
    endedObject spot ending = .ok () ↔ ending = .closed := by
  cases ending <;> simp [endedObject, Spot.fail]

mutual

/-- To go through a draft succeeds exactly if it is whole and there is room for its containers. This
    is what is left of reading where the content is ignored. -/
theorem whole_eq_ok (spot : Spot) (d : Draft) :
    whole spot d = .ok () ↔ d.Whole ∧ d.height ≤ spot.room := by
  match d with
  | .null | .bool _ | .integer _ | .float _ | .string _ =>
    exact iff_of_true rfl ⟨Draft.whole_of_leaf rfl rfl, Nat.zero_le _⟩
  | .broken _ => simp [whole, Spot.fail]
  | .array items ending =>
    rw [whole, Draft.whole_array, Draft.height]
    cases hroom : spot.room with
    | zero => simp [Spot.opened, hroom, Spot.fail]
    | succ room =>
      -- A container is gone through like it would be read: with one level of room less.
      have ih := wholeItems_eq_ok { spot with room } 0 items
      rw [Nat.add_le_add_iff_right, Draft.heightItems_le]
      simp [Spot.opened, hroom, ih, forall_and, and_comm, and_assoc]
  | .object ms ending =>
    rw [whole, Draft.whole_object, Draft.height]
    cases hroom : spot.room with
    | zero => simp [Spot.opened, hroom, Spot.fail]
    | succ room =>
      have ih := wholeMembers_eq_ok { spot with room } ms
      rw [Nat.add_le_add_iff_right, Draft.heightMembers_le]
      simp [Spot.opened, hroom, ih, forall_and, and_comm, and_assoc]

theorem wholeItems_eq_ok (spot : Spot) (index : Nat) (items : List Draft) :
    wholeItems spot index items = .ok () ↔ ∀ d ∈ items, d.Whole ∧ d.height ≤ spot.room := by
  match items with
  | [] => simp [wholeItems]
  | d :: rest =>
    have hd := whole_eq_ok (spot.below (.item index)) d
    simp [wholeItems, hd, wholeItems_eq_ok spot (index + 1) rest]

theorem wholeMembers_eq_ok (spot : Spot) (ms : List (Member Draft)) :
    wholeMembers spot ms = .ok () ↔ ∀ m ∈ ms, m.value.Whole ∧ m.value.height ≤ spot.room := by
  match ms with
  | [] => simp [wholeMembers]
  | ⟨k, d, _⟩ :: rest =>
    have hd := whole_eq_ok (spot.below (.member k)) d
    simp [wholeMembers, hd, wholeMembers_eq_ok spot rest]

end

end Reader
end Shapewright
