import Mathlib.Logic.Unique
import Shapewright.Proofs.Document.Drafts

/-!
# What readers read

A reader reads one and the same thing from a draft wherever there is room for the draft's
containers, be the document a text or a value. `Reads` says so. It is shown here for every way of
making a reader, and with it what follows from a reader's success: what the draft looks like, and
what was read from the drafts inside it.

## Two directions

`Reader.Reads` is for composing: from what is read of the parts follows what is read of the whole.
`Reader.ReadIn` is for taking apart: if something was read, the draft was a list, a table or a
record, and something was read from its parts. For lists and tables both are relations between two
lists, of the drafts and of what is read from them.

## Records

A record is read by storing one field after the other in a blank one. From an object its fields come
in any order, and from an array by position. `Record.Laid` describes the objects that a writer
makes, in which fields stand in the order of their declaration and may be left out; so it needs to
follow only one order, and `Laid.reads` says that such an object is read back.

What holds of the blank record and is kept by each field holds of every record that is read, however
it was written (`Record.read_induction`).
-/

namespace Shapewright

open Json (Draft Ending Member)

variable {α β σ : Type}

/-- Wherever there is room for the draft, `x` is read from it. Neither the origin nor the place of
    the draft matters, which is what a round trip needs. -/
def Reader.Reads (read : Reader α) (d : Draft) (x : α) : Prop :=
  ∀ spot : Spot, d.height ≤ spot.room → read spot d = .ok x

@[simp] theorem toOption_eq_some {ε : Type} {e : Except ε α} {x : α} :
    e.toOption = some x ↔ e = .ok x := by
  cases e <;> simp [Except.toOption]

/-- Somewhere in a document of the origin, `x` is read from the draft. This is all that is known of
    the parts of something that was read. -/
def Reader.ReadIn (origin : Origin) (read : Reader α) (d : Draft) (x : α) : Prop :=
  ∃ spot : Spot, spot.origin = origin ∧ read spot d = .ok x

namespace Reader

variable {read : Reader α} {spot : Spot} {d : Draft} {x : α}

@[simp] theorem fail_ne_ok {cause : Misfit.Cause} : ¬ spot.fail cause = .ok x := by
  simp [Spot.fail]

@[simp] theorem mismatch_ne_ok {expected : String} : ¬ mismatch expected spot d = .ok x := by
  cases d <;> simp [mismatch]

/-- A container can be opened where there is room for one. -/
theorem exists_opened {n : Nat} (h : n + 1 ≤ spot.room) :
    ∃ inner : Spot, spot.opened = .ok inner ∧ n ≤ inner.room := by
  obtain ⟨origin, place, room⟩ := spot
  cases room with
  | zero => exact absurd h (Nat.not_succ_le_zero n)
  | succ room => exact ⟨_, rfl, Nat.le_of_succ_le_succ h⟩

/-- Inside a container the document is the same. -/
theorem origin_of_opened {inner : Spot} (h : spot.opened = .ok inner) :
    inner.origin = spot.origin := by
  obtain ⟨origin, place, room⟩ := spot
  cases room with
  | zero => simp [Spot.opened] at h
  | succ room =>
    cases h
    rfl

/-! ## Scalars -/

@[simp] theorem string_eq_ok {s : String} : string spot d = .ok s ↔ d = .string s := by
  cases d <;> simp [string]

@[simp] theorem bool_eq_ok {b : Bool} : bool spot d = .ok b ↔ d = .bool b := by
  cases d <;> simp [bool]

@[simp] theorem unit_eq_ok : unit spot d = .ok () ↔ d = .null := by
  cases d <;> simp [unit]

theorem reads_string (s : String) : Reads string (.string s) s := fun _ _ => rfl

theorem reads_bool (b : Bool) : Reads bool (.bool b) b := fun _ _ => rfl

theorem reads_number (f : Float) : Reads number (.float f) f := fun _ _ => rfl

theorem reads_size (n : Nat) : Reads size (.integer n) n := by
  intro spot _
  have h : ¬ (n : Int) < 0 := by omega
  simp [size, h]

/-- Nothing is read from `null` where something may be missing. -/
theorem reads_none (read : Reader α) : Reads (optional read) .null none := fun _ _ => rfl

/-- From everything else the thing itself is read. -/
theorem reads_some (h : Reads read d x) (hd : d ≠ .null) : Reads (optional read) d (some x) := by
  intro spot hroom
  have hread := h spot hroom
  cases d with
  | null => exact absurd rfl hd
  | _ => simp only [optional, hread, Except.map]

/-! ## Lists and tables -/

/-- Items are read in order, at whatever index they begin. -/
theorem items_of_reads {ds : List Draft} {xs : List α} (h : List.Forall₂ (Reads read) ds xs)
    (hroom : ∀ d ∈ ds, d.height ≤ spot.room) (index : Nat) :
    items read spot index ds = .ok xs := by
  induction h generalizing index with
  | nil => rfl
  | cons hd _ ih =>
    rw [List.forall_mem_cons] at hroom
    rw [items, hd (spot.below (.item index)) hroom.1, ih hroom.2]
    rfl

/-- A list is read from an array that was closed. -/
theorem reads_list {ds : List Draft} {xs : List α} (h : List.Forall₂ (Reads read) ds xs) :
    Reads (list read) (.array ds .closed) xs := by
  intro spot hroom
  obtain ⟨inner, hinner, hle⟩ := exists_opened hroom
  simp only [list, hinner, except_bind_eq_ok, Except.ok.injEq, exists_eq_left']
  exact ⟨xs, items_of_reads h (Draft.heightItems_le.mp hle) 0, (), rfl, rfl⟩

/-- If items were read, something was read from each of them. The index tells the spot of an item,
    and `ReadIn` forgets the spot. -/
theorem forall₂_of_items {ds : List Draft} {xs : List α} {index : Nat}
    (h : items read spot index ds = .ok xs) :
    List.Forall₂ (ReadIn spot.origin read) ds xs := by
  induction ds generalizing index xs with
  | nil =>
    cases h
    exact .nil
  | cons d rest ih =>
    simp only [items, except_bind_eq_ok] at h
    obtain ⟨x, hx, xs', hxs, h⟩ := h
    cases h
    exact .cons ⟨spot.below (.item index), rfl, hx⟩ (ih hxs)

/-- A list is read from nothing but an array that was closed. An array that breaks off gives an
    error of its end, after its items. -/
theorem of_list_eq_ok {xs : List α} (h : list read spot d = .ok xs) :
    ∃ ds, d = .array ds .closed ∧
      List.Forall₂ (ReadIn spot.origin read) ds xs := by
  cases d with
  | array ds ending =>
    simp only [list, except_bind_eq_ok] at h
    obtain ⟨inner, hinner, xs', hxs, ⟨⟩, hend, h⟩ := h
    cases h
    cases ended_eq_ok.mp hend
    exact ⟨ds, rfl, origin_of_opened hinner ▸ forall₂_of_items hxs⟩
  | _ => simp [list] at h

/-- The entries of a table, written one after the other behind those that were `met`. -/
def written (met es : List (String × α)) : List (String × α) :=
  es.foldl (fun met e => Ordered.insert met e.1 e.2) met

theorem nodup_written {met es : List (String × α)} (h : (met.map Prod.fst).Nodup) :
    ((written met es).map Prod.fst).Nodup := by
  induction es generalizing met with
  | nil => exact h
  | cons e rest ih => exact ih (Ordered.nodup_keys_insert h)

/-- Entries with different keys stay as they are. So a table that was written from a list of fields
    reads back as this list. -/
theorem written_of_nodup {met es : List (String × α)}
    (h : ((met ++ es).map Prod.fst).Nodup) : written met es = met ++ es := by
  induction es generalizing met with
  | nil => rw [List.append_nil]; rfl
  | cons e rest ih =>
    have hnew : e.1 ∉ met.map Prod.fst := by
      rw [List.map_append, List.nodup_append] at h
      intro hmem
      exact h.2.2 _ hmem _ (List.mem_map_of_mem List.mem_cons_self) rfl
    rw [List.append_cons] at h
    rw [written, List.foldl_cons, Ordered.insert_of_not_mem hnew]
    exact (ih h).trans (List.append_cons met e rest).symm

/-- What is in a table has been written into it. Nothing else is known of it: its value may be that
    of another member with the same key. -/
theorem mem_written {met es : List (String × α)} {e : String × α} (h : e ∈ written met es) :
    e ∈ met ∨ e ∈ es := by
  induction es generalizing met with
  | nil => exact .inl h
  | cons e' rest ih =>
    rcases ih h with h | h
    · rcases Ordered.mem_insert h with rfl | h
      · exact .inr List.mem_cons_self
      · exact .inl h
    · exact .inr (List.mem_cons_of_mem _ h)

/-- Entries are read in order. A later one takes the place of an earlier one with its key. The
    premise on room is that of reading further down, and it is the same for all members. -/
theorem entries_of_reads {ms : List (Member Draft)} {es : List (String × α)}
    (h : List.Forall₂ (fun m e => e.1 = m.key ∧ Reads read m.value e.2) ms es)
    (hroom : ∀ m ∈ ms, m.value.height ≤ spot.room) (met : List (String × α)) :
    entries read spot met ms = .ok (written met es) := by
  induction h generalizing met with
  | nil => rfl
  | cons hm _ ih =>
    rw [List.forall_mem_cons] at hroom
    rw [entries, hm.2 (spot.below _) hroom.1]
    exact hm.1 ▸ ih hroom.2 _

/-- A table is read from an object that was closed. -/
theorem reads_table {ms : List (Member Draft)} {es : List (String × α)}
    (h : List.Forall₂ (fun m e => e.1 = m.key ∧ Reads read m.value e.2) ms es) :
    Reads (table read) (.object ms .closed) (written [] es) := by
  intro spot hroom
  obtain ⟨inner, hinner, hle⟩ := exists_opened hroom
  simp only [table, hinner, except_bind_eq_ok, Except.ok.injEq, exists_eq_left']
  exact ⟨_, entries_of_reads h (Draft.heightMembers_le.mp hle) [], (), rfl, rfl⟩

/-- If entries were read, something was read from each member. The entries of the table are those
    that were read, with the repeated keys folded by `written`. -/
theorem forall₂_of_entries {ms : List (Member Draft)} {met out : List (String × α)}
    (h : entries read spot met ms = .ok out) : ∃ es,
      List.Forall₂ (fun m e => e.1 = m.key ∧ ReadIn spot.origin read m.value e.2) ms es ∧
        out = written met es := by
  induction ms generalizing met with
  | nil =>
    cases h
    exact ⟨[], .nil, rfl⟩
  | cons m rest ih =>
    simp only [entries, except_bind_eq_ok] at h
    obtain ⟨x, hx, h⟩ := h
    obtain ⟨es, hes, hout⟩ := ih h
    exact ⟨(m.key, x) :: es, .cons ⟨rfl, spot.below (.member m.key), rfl, hx⟩ hes, hout⟩

/-- A table is read from nothing but an object that was closed. The order of the members is kept,
    which for the fields of an object means the order in which they were declared. -/
theorem of_table_eq_ok {out : List (String × α)} (h : table read spot d = .ok out) :
    ∃ ms es, d = .object ms .closed ∧
      List.Forall₂ (fun m e => e.1 = m.key ∧ ReadIn spot.origin read m.value e.2) ms es ∧
        out = written [] es := by
  cases d with
  | object ms ending =>
    simp only [table, except_bind_eq_ok] at h
    obtain ⟨inner, hinner, out', hout, ⟨⟩, hend, h⟩ := h
    cases h
    cases endedObject_eq_ok.mp hend
    obtain ⟨es, hes, rfl⟩ := forall₂_of_entries hout
    exact ⟨ms, es, rfl, origin_of_opened hinner ▸ hes, rfl⟩
  | _ => simp [table] at h

/-! ## Choices and data of several shapes -/

theorem reads_choice {choices : List (String × α)} {name : String}
    (h : Ordered.get? choices name = some x) : Reads (choice choices) (.string name) x := by
  intro spot _
  simp [choice, chosen, h]

/-- Data of several shapes are read from a draft that is whole, by the first shape that it has. -/
theorem variants_eq_ok {type : String} {shape : Spot → Draft → Option α} :
    variants type shape spot d = .ok x ↔
      (d.Whole ∧ d.height ≤ spot.room) ∧ shape spot d = some x := by
  rw [← whole_eq_ok]
  cases hshape : shape spot d with
  | none => simp [variants, hshape]
  | some y => simp [variants, hshape, Unique.exists_iff]

theorem reads_variants {type : String} {shape : Spot → Draft → Option α} (hd : d.Whole)
    (h : ∀ spot : Spot, d.height ≤ spot.room → shape spot d = some x) :
    Reads (variants type shape) d x :=
  fun spot hroom => variants_eq_ok.mpr ⟨⟨hd, hroom⟩, h spot hroom⟩

end Reader

/-! ## Records -/

namespace RecordField

open Reader (Reads)

variable {f : RecordField σ} {read : Reader α} {store : α → σ → σ} {name : String}

/-- Wherever there is room for the draft, the field takes the record from `s` to `s'`. Fields of a
    record are read one after another, each into what the ones before it have left. -/
def Takes (f : RecordField σ) (d : Draft) (s s' : σ) : Prop :=
  ∀ spot : Spot, d.height ≤ spot.room → f.read spot d s = .ok s'

theorem takes_of {d : Draft} {x : α} {s : σ} (h : Reads read d x) :
    (of name read store).Takes d s (store x s) := by
  intro spot hroom
  simp only [of, h spot hroom, Except.map]

/-- If a field was read, something was stored. -/
theorem of_read_eq_ok {spot : Spot} {d : Draft} {s s' : σ} :
    (of name read store).read spot d s = .ok s' ↔ ∃ x, read spot d = .ok x ∧ store x s = s' := by
  simp only [of]
  cases read spot d with
  | error _ => simp [Except.map]
  | ok x => simp [Except.map]

/-- Reading the field keeps what holds of a record. An invariant of records that every field keeps
    is one of all records that are read. -/
def Keeps (I : σ → Prop) (f : RecordField σ) : Prop :=
  ∀ spot d s s', I s → f.read spot d s = .ok s' → I s'

theorem keeps_of {I : σ → Prop} (h : ∀ spot d x, read spot d = .ok x → ∀ s, I s → I (store x s)) :
    (of name read store).Keeps I := by
  intro spot d s s' hs hread
  obtain ⟨x, hx, rfl⟩ := of_read_eq_ok.mp hread
  exact h spot d x hx s hs

theorem keeps_need {I : σ → Prop}
    (h : ∀ spot d x, read spot d = .ok x → ∀ s, I s → I (store x s)) :
    (need name read store).Keeps I :=
  (keeps_of h : (of name read store).Keeps I)

end RecordField

namespace Record

open Reader (Reads ReadIn)

variable {r : Record σ}

theorem mem_of_field? {f : RecordField σ} {name : String} (h : r.field? name = some f) :
    f ∈ r.fields ∧ f.name = name :=
  ⟨List.mem_of_find?_eq_some h, by simpa using List.find?_some h⟩

/-- Where names are different, each field is found by its name. -/
theorem field?_of_mem (hnodup : (r.fields.map (·.name)).Nodup) {f : RecordField σ}
    (hf : f ∈ r.fields) : r.field? f.name = some f := by
  obtain ⟨g, hg⟩ : ∃ g, r.field? f.name = some g :=
    Option.isSome_iff_exists.mp (List.find?_isSome.mpr ⟨f, hf, by simp⟩)
  obtain ⟨hmem, hname⟩ := mem_of_field? hg
  rw [hg, List.inj_on_of_nodup_map hnodup hmem hf hname]

/-- A key with a fault behind it ends the reading. -/
@[simp] theorem keyThenFault_ne_ok {spot : Spot} {met : List String} {key : String}
    {why : Json.SyntaxFault} : ¬ r.keyThenFault spot met key why = .ok () := by
  rw [keyThenFault]
  split
  · split <;> simp
  · simp

@[simp] theorem endPositional_eq_ok {spot : Spot} {total : Nat} {rest : List Draft}
    {ending : Ending} : endPositional spot total rest ending = .ok () ↔
      rest = [] ∧ ending = .closed := by
  unfold endPositional
  split <;> simp_all

/-- A record is read from an object if that was closed and all fields that must be there are. Fields
    may come in any order, and one that is unknown or comes twice is an error of `members`. -/
theorem read_object_eq_ok {spot : Spot} {ms : List (Member Draft)} {ending : Ending} {s : σ} :
    r.read spot (.object ms ending) = .ok s ↔ ending = .closed ∧
      ∃ inner met, spot.opened = .ok inner ∧ r.members inner [] r.blank ms = .ok (met, s) ∧
        r.missing? met = none := by
  cases ending with
  | broken why => simp [Record.read]
  | brokenAfter key why => simp [Record.read, Unique.exists_iff]
  | closed =>
    simp only [Record.read, except_bind_eq_ok, true_and]
    constructor
    · rintro ⟨inner, hinner, ⟨met, s'⟩, hread, h⟩
      cases hmissing : r.missing? met with
      | some name => simp [hmissing] at h
      | none =>
        simp only [hmissing, Except.ok.injEq] at h
        obtain ⟨-, -, rfl⟩ := h
        exact ⟨inner, met, hinner, hread, hmissing⟩
    · rintro ⟨inner, met, hinner, hread, hmissing⟩
      exact ⟨inner, hinner, (met, s), hread, by simp [hmissing]⟩

/-- A record is read from an array if the fields that it reaches include all that must be there. The
    fields that are not reached take the value that they have when they are absent. -/
theorem read_array_eq_ok {spot : Spot} {ds : List Draft} {ending : Ending} {s : σ} :
    r.read spot (.array ds ending) = .ok s ↔ ending = .closed ∧
      ∃ inner count, spot.opened = .ok inner ∧
        positional inner 0 r.blank r.fields ds = .ok (s, count, []) ∧
          r.missing? ((r.fields.map (·.name)).take count) = none := by
  simp only [Record.read, except_bind_eq_ok, List.map_take]
  constructor
  · rintro ⟨inner, hinner, ⟨s', count, rest⟩, hread, h⟩
    -- Neither a missing field nor what is left of the array is looked at before all fields are
    -- read, so there are two ways to fail and one to succeed.
    cases hmissing : r.missing? ((r.fields.map (·.name)).take count) with
    | some name => split at h <;> simp [hmissing] at h
    | none =>
      have hend : endPositional spot ds.length rest ending = .ok () ∧ s' = s := by
        split at h <;> simp_all [Unique.exists_iff]
      obtain ⟨⟨rfl, rfl⟩, rfl⟩ := hend.imp_left endPositional_eq_ok.mp
      exact ⟨rfl, inner, count, hinner, hread, hmissing⟩
  · rintro ⟨rfl, inner, count, hinner, hread, hmissing⟩
    have hend : endPositional spot ds.length [] .closed = .ok () :=
      endPositional_eq_ok.mpr ⟨rfl, rfl⟩
    refine ⟨inner, hinner, (s, count, []), hread, ?_⟩
    split <;> simp [hmissing, hend, Reader.ended]

/-- The members, which stand for some of the fields and in their order, take the record from one
    state to another. The fields that are passed over need not be there. -/
inductive Laid : List (RecordField σ) → List (Member Draft) → σ → σ → Prop
  | nil {s : σ} : Laid [] [] s s
  | skip {f fs ms} {s s' : σ} (hf : f.required = false) (rest : Laid fs ms s s') :
    Laid (f :: fs) ms s s'
  | take {f fs ms d} {s s₁ s' : σ} (hf : f.Takes d s s₁) (rest : Laid fs ms s₁ s') :
    Laid (f :: fs) (⟨f.name, d, none⟩ :: ms) s s'

/-- Members for some fields may be followed by those for others. -/
theorem Laid.append {fs gs : List (RecordField σ)} {ms ns : List (Member Draft)} {s s₁ s' : σ}
    (h : Laid fs ms s s₁) (h' : Laid gs ns s₁ s') : Laid (fs ++ gs) (ms ++ ns) s s' := by
  induction h with
  | nil => exact h'
  | skip hf _ ih => exact .skip hf (ih h')
  | take hf _ ih => exact .take hf (ih h')

/-- Such members are read in order, and no field that must be there is left out. The premises say
    that a field has not been met before it is its turn, so no member is refused for being
    repeated. -/
theorem Laid.members {fs : List (RecordField σ)} {ms : List (Member Draft)} {s s' : σ}
    (h : Laid fs ms s s') (hnodup : (r.fields.map (·.name)).Nodup) (hfs : fs.Sublist r.fields)
    {spot : Spot} (hroom : ∀ m ∈ ms, m.value.height ≤ spot.room) (met : List String)
    (hmet : ∀ f ∈ fs, f.name ∉ met) :
    ∃ met', r.members spot met s ms = .ok (met', s') ∧ met ⊆ met' ∧
      ∀ f ∈ fs, f.required → f.name ∈ met' := by
  induction h generalizing met with
  | nil => exact ⟨met, rfl, List.Subset.refl met, by simp⟩
  | @skip f fs ms s s' hf _ ih =>
    rw [List.forall_mem_cons] at hmet
    obtain ⟨met', hread, hsub, hreq⟩ := ih ((List.sublist_cons_self _ _).trans hfs) hroom met hmet.2
    refine ⟨met', hread, hsub, List.forall_mem_cons.mpr ⟨fun h => ?_, hreq⟩⟩
    rw [hf] at h
    cases h
  | @take f fs ms d s s₁ s' hf _ ih =>
    rw [List.forall_mem_cons] at hmet hroom
    have hnodup' := List.nodup_cons.mp (hnodup.sublist (hfs.map (·.name)))
    -- A name is met once: the fields that follow have other names.
    have hmet' : ∀ g ∈ fs, g.name ∉ f.name :: met := by
      intro g hg hmem
      rcases List.mem_cons.mp hmem with heq | hmem
      · exact hnodup'.1 (List.mem_map.mpr ⟨g, hg, heq⟩)
      · exact hmet.2 g hg hmem
    obtain ⟨met', hread, hsub, hreq⟩ :=
      ih ((List.sublist_cons_self _ _).trans hfs) hroom.2 (f.name :: met) hmet'
    refine ⟨met', ?_, fun x hx => hsub (List.mem_cons_of_mem _ hx),
      List.forall_mem_cons.mpr ⟨fun _ => hsub List.mem_cons_self, hreq⟩⟩
    have hcontains : met.contains f.name = false := by simpa using hmet.1
    rw [Record.members, field?_of_mem hnodup (hfs.subset List.mem_cons_self)]
    simp only [hcontains, hf (spot.below _) hroom.1, Bool.false_eq_true, if_false]
    exact hread

/-- An object with such members is read as the record they lead to. This is the lemma that round
    trips use for records: it remains to lay out what was written. -/
theorem Laid.reads {ms : List (Member Draft)} {s : σ} (h : Laid r.fields ms r.blank s)
    (hnodup : (r.fields.map (·.name)).Nodup) : Reads r.read (.object ms .closed) s := by
  intro spot hroom
  obtain ⟨inner, hinner, hle⟩ := Reader.exists_opened hroom
  obtain ⟨met, hread, -, hreq⟩ := h.members hnodup (List.Sublist.refl _)
    (Draft.heightMembers_le.mp hle) [] (by simp)
  have hmissing : r.missing? met = none := by
    simp only [missing?, Option.map_eq_none_iff, List.find?_eq_none]
    intro f hf
    have := hreq f hf
    simp_all
  exact read_object_eq_ok.mpr ⟨rfl, inner, met, hinner, hread, hmissing⟩

/-! ## What every record keeps -/

/-- What holds of the blank record and is kept by every field holds of every record that was
    read. -/
theorem read_induction {I : σ → Prop} (hblank : I r.blank)
    (hstep : ∀ f ∈ r.fields, f.Keeps I)
    {spot : Spot} {d : Draft} {s : σ} (h : r.read spot d = .ok s) : I s := by
  -- A record is read from members in any order, or from items by position. Either is a loop that
  -- starts with the blank record.
  have hmembers : ∀ (ms : List (Member Draft)) (spot : Spot) (met : List String) (s : σ) out,
      I s → r.members spot met s ms = .ok out → I out.2 := by
    intro ms
    induction ms with
    | nil =>
      intro spot met s out hs h
      cases h
      exact hs
    | cons m rest ih =>
      intro spot met s out hs h
      rw [Record.members] at h
      split at h
      · rename_i f hf
        split at h
        · simp at h
        · obtain ⟨s₁, hs₁, h⟩ := except_bind_eq_ok.mp h
          exact ih _ _ _ _ (hstep f (mem_of_field? hf).1 _ _ _ _ hs hs₁) h
      · obtain ⟨-, -, h⟩ := except_bind_eq_ok.mp h
        split at h
        · simp at h
        · exact ih _ _ _ _ hs h
  have hpositional : ∀ (fs : List (RecordField σ)) (ds : List Draft) (spot : Spot) (index : Nat)
      (s : σ) out, fs ⊆ r.fields → I s → positional spot index s fs ds = .ok out → I out.1 := by
    intro fs
    induction fs with
    | nil =>
      intro ds spot index s out _ hs h
      cases ds <;> cases h <;> exact hs
    | cons f fs ih =>
      intro ds spot index s out hfs hs h
      cases ds with
      | nil =>
        cases h
        exact hs
      | cons d ds =>
        rw [positional] at h
        obtain ⟨s₁, hs₁, h⟩ := except_bind_eq_ok.mp h
        exact ih _ _ _ _ _ (List.subset_of_cons_subset hfs)
          (hstep f (hfs List.mem_cons_self) _ _ _ _ hs hs₁) h
  cases d with
  | object ms ending =>
    obtain ⟨-, inner, met, -, hread, -⟩ := read_object_eq_ok.mp h
    exact hmembers ms inner [] r.blank _ hblank hread
  | array ds ending =>
    obtain ⟨-, inner, count, -, hread, -⟩ := read_array_eq_ok.mp h
    exact hpositional r.fields ds inner 0 r.blank _ (List.Subset.refl _) hblank hread
  | _ => simp [Record.read] at h

end Record
end Shapewright
