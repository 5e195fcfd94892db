import Shapewright.Design.Check
import Shapewright.Proofs.Document.Steadiness

/-!
# Documents as texts

A text in which no object repeats a key is read as a design just as its value is, provided that the
text ends with its first value and that what is passed over in it could be read. Both provisos are
needed: nobody looks at what follows the first value of a text, and a member that no record has a
field for is only passed over.

## The drafts of texts

A text is made into a draft by going through its characters once. The functions that do so follow
the grammar: a value, the items of an array, the members of an object, each with what is left of the
text. What is shown of them is one invariant (`Draft.Finished`): whatever can be read in the draft
can be passed over, and reading stops without a rest only inside a value that is broken. It is
proved by going along with the functions, one theorem for each of them.

The value of a text is that of its draft, if nothing but blanks is left behind it (`parse_eq_ok`).
Where no object repeats a key the draft can be made again from the value (`ofValue_of_parse`). This
is the bridge between the two ways of reading: a draft of a text and one of a value are the same
draft, so a steady reader reads the same from both.

## Designs

What is read is checked and loaded in one and the same way, so the equivalence goes over from
documents to designs, for whatever is taken for a pattern.

Two examples show that the provisos cannot be left out. A text may go on behind its first value with
something that is no JSON, and is read all the same (`ofText_reads_only_first`); and a note may be
passed over that is no string (`ofText_passes_over`).
-/

namespace Shapewright

namespace Json.Draft

/-! ## The drafts of texts -/

/-- What was read from the front of a text, with the rest of the text: what can be read in it can
    be passed over, and no rest is left only where reading stopped inside the value. -/
structure Finished (p : Draft × Option (List Char)) : Prop where
  passable : p.1.Passable
  stopped : p.2 = none → ¬ p.1.Whole

theorem passable_of_leaf {d : Draft} (hmembers : d.members = []) (hchildren : d.children = []) :
    d.Passable :=
  passable_iff.mpr ⟨by simp [hmembers], by simp [hchildren]⟩

theorem finished_broken (why : SyntaxFault) : Finished (.broken why, none) :=
  ⟨passable_of_leaf rfl rfl, fun _ => not_whole_broken⟩

theorem finished_leaf {read : Except SyntaxFault (Draft × List Char)}
    (h : ∀ d rest, read = .ok (d, rest) → d.Passable) : Finished (leaf read) := by
  cases read with
  | error why => exact finished_broken why
  | ok p => exact ⟨h p.1 p.2 rfl, nofun⟩

/-- A word of the grammar is finished, and so is a beginning of it where reading stopped. -/
theorem finished_leafWord {letters : List Char} {value : Draft} (h : value.Passable)
    (cs : List Char) : Finished (leafWord letters value cs) := by
  refine finished_leaf fun d rest hread => ?_
  cases hword : word letters cs with
  | error _ => simp [hword, Except.map] at hread
  | ok _ =>
    simp only [hword, Except.map, Except.ok.injEq, Prod.mk.injEq] at hread
    exact hread.1 ▸ h

/-- A number has no members, whichever of its parts are there. Numbers are read in steps that hand
    on what has been read so far, and this is the last one. -/
theorem passable_exponentRest {negative : Bool} {s : Scale} {cs rest : List Char} {d : Draft}
    (h : exponentRest negative s cs = .ok (d, rest)) : d.Passable := by
  unfold exponentRest at h
  simp only at h
  split at h
  · cases h
  split at h
  · cases h
  split at h
  · obtain ⟨f, -, h⟩ := except_bind_eq_ok.mp h
    cases h
    exact passable_of_leaf rfl rfl
  · -- the two matches on the sign
    split at h
    all_goals
      split at h
      · cases h
      · cases h
        exact passable_of_leaf rfl rfl

/-- A number has no members, also when it is read from its fraction on. A fraction may be followed
    by an exponent, for which the lemma above is used. -/
theorem passable_numberRest {negative : Bool} {s : Scale} {cs rest : List Char} {d : Draft}
    (h : numberRest negative s cs = .ok (d, rest)) : d.Passable := by
  unfold numberRest at h
  split at h
  · split at h
    · cases h
    split at h
    · cases h
    · simp only at h
      split at h
      · exact passable_exponentRest h
      · exact passable_exponentRest h
      · obtain ⟨f, -, h⟩ := except_bind_eq_ok.mp h
        cases h
        exact passable_of_leaf rfl rfl
  · exact passable_exponentRest h
  · exact passable_exponentRest h
  · split at h
    · obtain ⟨f, -, h⟩ := except_bind_eq_ok.mp h
      cases h
      exact passable_of_leaf rfl rfl
    split at h
    · cases h
      exact passable_of_leaf rfl rfl
    split at h
    all_goals
      cases h
      exact passable_of_leaf rfl rfl

/-- A number has no members when it is read from its first digit on. A draft without members has no
    key that could be written twice. -/
theorem passable_number {negative : Bool} {cs rest : List Char} {d : Draft}
    (h : number negative cs = .ok (d, rest)) : d.Passable := by
  unfold number at h
  split at h
  · cases h
  · split at h
    · split at h
      · cases h
      · exact passable_numberRest h
    · exact passable_numberRest h
  · split at h
    · exact passable_numberRest h
    · cases h

/-- Items that were read, as the array they belong to. -/
def Finished.Items (p : List Draft × Ending × Option (List Char)) : Prop :=
  Finished (.array p.1 p.2.1, p.2.2)

/-- Members that were read, as the object they belong to. -/
def Finished.Members (p : List (Member Draft) × Ending × Option (List Char)) : Prop :=
  Finished (.object p.1 p.2.1, p.2.2)

theorem Finished.items_broken (why : SyntaxFault) : Finished.Items ([], .broken why, none) :=
  ⟨passable_of_leaf rfl rfl, fun _ => by simp⟩

theorem Finished.members_broken {ending : Ending} (h : ending ≠ .closed) :
    Finished.Members ([], ending, none) :=
  ⟨passable_of_leaf rfl rfl, fun _ hwhole => h (whole_object.mp hwhole).1⟩

/-- An item that was read goes before the others. -/
theorem Finished.Items.cons {d : Draft} {ds : List Draft} {ending : Ending}
    {rest : Option (List Char)} (hd : d.Passable) (h : Finished.Items (ds, ending, rest)) :
    Finished.Items (d :: ds, ending, rest) := by
  refine ⟨passable_iff.mpr ⟨nofun, List.forall_mem_cons.mpr ⟨hd, (passable_iff.mp h.passable).2⟩⟩,
    fun hnone hwhole => h.stopped hnone ?_⟩
  rw [whole_array] at hwhole ⊢
  exact ⟨hwhole.1, fun d hmem => hwhole.2 d (List.mem_cons_of_mem _ hmem)⟩

theorem Finished.Items.unread {d : Draft} (h : Finished (d, none)) :
    Finished.Items ([d], .closed, none) where
  passable := passable_iff.mpr ⟨nofun, List.forall_mem_singleton.mpr h.passable⟩
  stopped _ hwhole := h.stopped rfl ((whole_array.mp hwhole).2 d List.mem_cons_self)

theorem Finished.Members.unread {m : Member Draft} (h : Finished (m.value, none)) :
    Finished.Members ([m], .closed, none) where
  passable := passable_iff.mpr ⟨List.forall_mem_singleton.mpr fun hwhole =>
    absurd hwhole (h.stopped rfl), List.forall_mem_singleton.mpr h.passable⟩
  stopped _ hwhole := h.stopped rfl ((whole_object.mp hwhole).2 m List.mem_cons_self)

/-- A member that was read goes before the others. -/
theorem Finished.Members.cons {m : Member Draft} {ms : List (Member Draft)} {ending : Ending}
    {rest : Option (List Char)} (hm : m.value.Whole → m.impassable = none)
    (hpass : m.value.Passable) (h : Finished.Members (ms, ending, rest)) :
    Finished.Members (m :: ms, ending, rest) := by
  have hms := passable_iff.mp h.passable
  refine ⟨passable_iff.mpr ⟨List.forall_mem_cons.mpr ⟨hm, hms.1⟩,
    List.forall_mem_cons.mpr ⟨hpass, hms.2⟩⟩, fun hnone hwhole => h.stopped hnone ?_⟩
  rw [whole_object] at hwhole ⊢
  exact ⟨hwhole.1, fun m hmem => hwhole.2 m (List.mem_cons_of_mem _ hmem)⟩

mutual

/-- All drafts of texts are finished, from whichever point of the grammar they are read. By
    induction on the fuel, which bounds the length of the rest. The items and members of a container
    use it in turn. -/
theorem finished_readValue (fuel : Nat) (cs : List Char) : Finished (readValue fuel cs) := by
  -- Along the functions that read: the fuel is that of the text, so it is not what stops them, and
  -- running out of it is a broken draft as well.
  match fuel with
  | 0 => exact finished_broken _
  | fuel + 1 =>
    rw [readValue]
    split
    · exact finished_broken _
    · rename_i c cs _
      split
      · exact finished_leafWord (passable_of_leaf rfl rfl) cs
      split
      · exact finished_leafWord (passable_of_leaf rfl rfl) cs
      split
      · exact finished_leafWord (passable_of_leaf rfl rfl) cs
      split
      · exact finished_leaf fun _ _ => passable_number
      split
      · exact finished_leaf fun _ _ => passable_number
      split
      · refine finished_leaf fun d rest h => ?_
        cases hs : stringRest (cs.length + 1) [] cs with
        | error why => simp [hs, Except.map] at h
        | ok p =>
          simp only [hs, Except.map, Except.ok.injEq, Prod.mk.injEq] at h
          exact h.1 ▸ passable_of_leaf rfl rfl
      split
      · exact finished_readItems fuel true cs
      split
      · exact finished_readMembers fuel true cs
      · exact finished_broken _

theorem finished_readItems (fuel : Nat) (first : Bool) (cs : List Char) :
    Finished.Items (readItems fuel first cs) := by
  match fuel with
  | 0 => exact .items_broken _
  | fuel + 1 =>
    rw [readItems]
    split
    · exact .items_broken _
    split
    · exact ⟨passable_of_leaf rfl rfl, nofun⟩
    split
    · exact finished_readItem fuel _
    split
    · split
      · exact .items_broken _
      split
      · exact .items_broken _
      · exact finished_readItem fuel _
    · exact .items_broken _

theorem finished_readItem (fuel : Nat) (cs : List Char) :
    Finished.Items (readItem fuel cs) := by
  match fuel with
  | 0 => exact .items_broken _
  | fuel + 1 =>
    have hvalue := finished_readValue fuel cs
    rw [readItem]
    split
    · rename_i d h
      rw [h] at hvalue
      exact .unread hvalue
    · rename_i d rest h
      rw [h] at hvalue
      exact .cons hvalue.passable (finished_readItems fuel false rest)

theorem finished_readMembers (fuel : Nat) (first : Bool) (cs : List Char) :
    Finished.Members (readMembers fuel first cs) := by
  match fuel with
  | 0 => exact .members_broken nofun
  | fuel + 1 =>
    rw [readMembers]
    split
    · exact .members_broken nofun
    split
    · exact ⟨passable_of_leaf rfl rfl, nofun⟩
    split
    · split
      · exact finished_readMember fuel _
      · exact .members_broken nofun
    split
    · split
      · exact .members_broken nofun
      split
      · exact finished_readMember fuel _
      split
      · exact .members_broken nofun
      · exact .members_broken nofun
    · exact .members_broken nofun

theorem finished_readMember (fuel : Nat) (cs : List Char) :
    Finished.Members (readMember fuel cs) := by
  match fuel with
  | 0 => exact .members_broken nofun
  | fuel + 1 =>
    rw [readMember]
    -- Whatever cannot be read leaves the members broken at that point. So each branch is closed by
    -- the lemma for broken members, until a value was read.
    split
    · exact .members_broken nofun
    · rename_i key rest _
      split
      · exact .members_broken nofun
      split
      · rename_i c cs _ _
        have hvalue := finished_readValue fuel cs
        split
        · rename_i d rest h
          rw [h] at hvalue
          exact .cons (fun _ => rfl) hvalue.passable (finished_readMembers fuel false rest)
        · rename_i d h
          rw [h] at hvalue
          split
          · exact .unread hvalue
          · exact .cons (fun hwhole => absurd hwhole (hvalue.stopped rfl)) hvalue.passable
              (finished_readMembers fuel false _)
      · exact .members_broken nofun

end

end Json.Draft

/-! ## Texts and their values -/

namespace Json

variable {text : String} {v : Value}

/-- Nothing but blanks follows the first value of the text. A reader stops behind the first value,
    and does not look at the rest. -/
def Ends (text : String) : Prop := Draft.skipBlank ((Draft.read text.toList).2.getD []) = []

/-- Whether a text ends with its first value is decided by reading it once. -/
instance decidableEnds (text : String) : Decidable (Ends text) :=
  inferInstanceAs (Decidable (Draft.skipBlank ((Draft.read text.toList).2.getD []) = []))

/-- A text has a value if its draft has one, and only blanks follow. The draft is complete before
    the end of the text is looked at, so both conditions are about the text alone. -/
theorem parse_eq_ok :
    parse text = .ok v ↔ (Draft.ofText text).toValue depthLimit = .ok v ∧ Ends text := by
  simp only [parse, except_bind_eq_ok, Ends, Draft.ofText]
  constructor
  · rintro ⟨v', hv, h⟩
    split at h
    · cases h
      exact ⟨hv, List.isEmpty_iff.mp ‹_›⟩
    · cases h
  · rintro ⟨hv, hends⟩
    exact ⟨v, hv, by rw [hends]; rfl⟩

/-- The value of a text in which no object repeats a key has the draft of the text. -/
theorem ofValue_of_parse (hkeys : (Draft.ofText text).Distinct) (h : parse text = .ok v) :
    Draft.ofValue v = Draft.ofText text :=
  Draft.ofValue_toValue depthLimit _ (parse_eq_ok.mp h).1 hkeys
    (Draft.finished_readValue _ _).passable

theorem height_of_parse (h : parse text = .ok v) : (Draft.ofText text).height ≤ depthLimit :=
  ((Draft.exists_toValue_iff depthLimit _).mp ⟨v, (parse_eq_ok.mp h).1⟩).2

theorem exists_parse (hdepth : (Draft.ofText text).height ≤ depthLimit)
    (hwhole : (Draft.ofText text).Whole) (hends : Ends text) : ∃ v, parse text = .ok v := by
  obtain ⟨v, hv⟩ := (Draft.exists_toValue_iff depthLimit _).mpr ⟨hwhole, hdepth⟩
  exact ⟨v, parse_eq_ok.mpr ⟨hv, hends⟩⟩

end Json

namespace Reader

open Json (Draft)

variable {α : Type} {read : Reader α} {text : String} {x : α}

/-- What a steady reader reads from the value of a text, it reads from the text. -/
theorem ofText_of_ofValue (hread : Steady read) (hkeys : (Draft.ofText text).Distinct)
    {v : Json.Value} (hv : Json.parse text = .ok v) (h : ofValue read v = .ok x) :
    ofText read text = .ok x := by
  obtain ⟨-, hreads⟩ := hread.reads h (.of_whole (Draft.whole_ofValue v))
  rw [Json.ofValue_of_parse hkeys hv] at hreads
  exact hreads _ (Json.height_of_parse hv)

/-- What a steady reader reads from a text, it reads from the value of the text, which there is
    under the two provisos. -/
theorem exists_ofValue (hread : Steady read)
    (hdepth : (Draft.ofText text).height ≤ Json.depthLimit)
    (hkeys : (Draft.ofText text).Distinct) (hlegible : (Draft.ofText text).Legible)
    (hends : Json.Ends text) (h : ofText read text = .ok x) :
    ∃ v, Json.parse text = .ok v ∧ ofValue read v = .ok x := by
  obtain ⟨hwhole, hreads⟩ := hread.reads h ⟨hlegible, nofun⟩
  obtain ⟨v, hv⟩ := Json.exists_parse hdepth hwhole hends
  refine ⟨v, hv, ?_⟩
  rw [ofValue, Json.ofValue_of_parse hkeys hv]
  exact hreads _ (Nat.le_refl _)

end Reader

/-! ## Designs -/

namespace Design

open Json (Draft)

variable {isPattern : String → Bool}

/-- A text is a design if a document can be read from it and loaded. -/
theorem ofText_eq_ok {text : String} {d : Design} :
    ofText text isPattern = .ok d ↔
      ∃ doc, Reader.ofText Reader.document text = .ok doc ∧ load doc isPattern = .ok d := by
  rw [ofText, except_bind_eq_ok]
  simp only [mapError_eq_ok]

/-- A value is a design if a document can be read from it and loaded. -/
theorem ofValue_eq_ok {v : Json.Value} {d : Design} :
    ofValue v isPattern = .ok d ↔
      ∃ doc, Reader.ofValue Reader.document v = .ok doc ∧ load doc isPattern = .ok d := by
  rw [ofValue, except_bind_eq_ok]
  simp only [mapError_eq_ok]

/-- A text that ends with its first value, in which no object repeats a key and all that is passed
    over could be read, is a design if and only if its value is one, and it is the same design. Each
    condition is about something that a value no longer shows. What a pattern is does not matter, as
    both sides ask the same. -/
theorem ofText_iff_ofValue (text : String) (hdepth : (Draft.ofText text).height ≤ Json.depthLimit)
    (hkeys : (Draft.ofText text).Distinct) (hlegible : (Draft.ofText text).Legible)
    (hends : Json.Ends text) (d : Design) :
    ofText text isPattern = .ok d ↔
      ∃ v, Json.parse text = .ok v ∧ ofValue v isPattern = .ok d := by
  simp only [ofText_eq_ok, ofValue_eq_ok]
  constructor
  · rintro ⟨doc, hdoc, hload⟩
    obtain ⟨v, hv, hread⟩ :=
      Reader.exists_ofValue Reader.steady_document hdepth hkeys hlegible hends hdoc
    exact ⟨v, hv, doc, hread, hload⟩
  · rintro ⟨v, hv, doc, hdoc, hload⟩
    exact ⟨doc, Reader.ofText_of_ofValue Reader.steady_document hkeys hv hdoc, hload⟩

/-- A text of a cup with a note, which a type has no field for. -/
def cupText : String :=
  " \x7b\"types\": [\x7b\"id\": \"Cup\", \"attribute\": \x7b\"type\": \"string\"\x7d, " ++
    "\"note\": [\"big\"]\x7d]\x7d\n"

/-- The text of the cup ends with its value, and the note is an array of a string: it is read as its
    value is. -/
theorem ofText_iff_ofValue_cup : (Draft.ofText cupText).height ≤ Json.depthLimit ∧
    (Draft.ofText cupText).Distinct ∧ (Draft.ofText cupText).Legible ∧ Json.Ends cupText ∧
      ∃ d, ofText cupText = .ok d ∧ ∃ v, Json.parse cupText = .ok v ∧ ofValue v = .ok d := by
  have hdepth : (Draft.ofText cupText).height ≤ Json.depthLimit := by decide +kernel
  have hkeys : (Draft.ofText cupText).Distinct := by decide +kernel
  have hlegible : (Draft.ofText cupText).Legible := by decide +kernel
  have hends : Json.Ends cupText := by decide +kernel
  obtain ⟨d, hd⟩ : ∃ d, ofText cupText = .ok d := by decide +kernel
  exact ⟨hdepth, hkeys, hlegible, hends, d, hd,
    (ofText_iff_ofValue cupText hdepth hkeys hlegible hends d).mp hd⟩

/-- What follows the first value of a text is not looked at, although it is no JSON. -/
theorem ofText_reads_only_first : (Draft.ofText "\x7b\x7d x").height ≤ Json.depthLimit ∧
    (Draft.ofText "\x7b\x7d x").Distinct ∧ (∃ d, ofText "\x7b\x7d x" = .ok d) ∧
      ¬ ∃ v, Json.parse "\x7b\x7d x" = .ok v := by
  refine ⟨by decide +kernel, by decide +kernel, by decide +kernel, by decide +kernel⟩

/-- The text of a cup with a note that can be passed over, but cannot be read. -/
def scribbledText : String :=
  "\x7b\"types\": [\x7b\"id\": \"Cup\", \"attribute\": \x7b\"type\": \"string\"\x7d, " ++
    "\"note\": \"\\udc00\"\x7d]\x7d"

theorem ofText_passes_over : Json.Ends scribbledText ∧ (Draft.ofText scribbledText).Distinct ∧
    (∃ d, ofText scribbledText = .ok d) ∧ ¬ ∃ v, Json.parse scribbledText = .ok v := by
  refine ⟨by decide +kernel, by decide +kernel, by decide +kernel, by decide +kernel⟩

end Design
end Shapewright
