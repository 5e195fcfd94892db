import Shapewright.Conversion
import Shapewright.Proofs.Scope

/-!
# Names in code are identifiers

A name in a design is any text, and what becomes of it is an identifier in every case: of ASCII
letters and digits, with an underscore behind what would be a keyword. An exported identifier starts
with a capital and any other one with a small letter.

All names of types are words of letters and digits that start with a capital (`Camel`), numbers and
packages included. So is what the name of a helper is made of, and lowering the head of such a word
gives an identifier again (`names_are_identifiers`).

## Two statements about a word

What is said of all characters (`Alphanumeric`) is kept by every function that changes or joins
words, so these lemmas follow the functions one by one. What is said of the first character is not:
the case of it may change, a name may come out empty, or it may begin with a digit, and then a fixed
word or a letter is put in front. So the first character is looked at where a name is finished, once
for each of the two forms.

An identifier that is not exported might be a keyword. No keyword has an underscore, and adding one
is all that is done about it (`unexported_unreserved`). A keyword has no capital either, so exported
identifiers need nothing.
-/

namespace Shapewright
namespace Identifier

variable {c : Char} {s t w : List Char} {name : String}

/-- A character behind the first of an identifier. -/
def isWordChar (c : Char) : Bool := c.isAlphanum || c == '_'

/-- An identifier whose first character is of a class. Underscores are among the characters that may
    follow. -/
def StartsWith (first : Char → Bool) (name : String) : Prop :=
  ∃ c r, name.toList = c :: r ∧ first c = true ∧ ∀ d ∈ r, isWordChar d = true

/-- An identifier that starts with a capital. These are visible outside of their package. -/
def Exported (name : String) : Prop := StartsWith Char.isUpper name

/-- An identifier that starts with a small letter and is no keyword. Exported ones need no such
    condition, since every keyword starts with a small letter. -/
structure Unexported (name : String) : Prop where
  startsWith : StartsWith Char.isLower name
  unreserved : name.toList ∉ keywords

/-- All characters are letters or digits. -/
def Alphanumeric (s : List Char) : Prop := ∀ c ∈ s, c.isAlphanum = true

/-! ## Letters and digits -/

theorem isWordChar_of_isAlphanum (h : c.isAlphanum = true) : isWordChar c = true := by
  rw [isWordChar, h, Bool.true_or]

theorem isAlpha_of_not_isDigit (h : c.isAlphanum = true) (hd : ¬ c.isDigit = true) :
    c.isAlpha = true := by
  simpa [Char.isAlphanum, hd] using h

theorem isAlphanum_toUpper (h : c.isAlphanum = true) : c.toUpper.isAlphanum = true := by
  by_cases hd : c.isDigit = true
  · rwa [Char.toUpper_eq_of_not_isLower (not_isLower_of_isDigit hd)]
  · rw [Char.isAlphanum, Char.isAlpha_toUpper_eq_isAlpha, isAlpha_of_not_isDigit h hd, Bool.true_or]

theorem isAlphanum_toLower (h : c.isAlphanum = true) : c.toLower.isAlphanum = true := by
  by_cases hd : c.isDigit = true
  · rwa [Char.toLower_eq_of_not_isUpper (not_isUpper_of_isDigit hd)]
  · rw [Char.isAlphanum, Char.isAlpha_toLower_eq_isAlpha, isAlpha_of_not_isDigit h hd, Bool.true_or]

namespace Alphanumeric

theorem append (hs : Alphanumeric s) (ht : Alphanumeric t) : Alphanumeric (s ++ t) :=
  List.forall_mem_append.mpr ⟨hs, ht⟩

theorem upper (h : Alphanumeric s) : Alphanumeric (upper s) :=
  List.forall_mem_map.mpr fun c hc => isAlphanum_toUpper (h c hc)

theorem lower (h : Alphanumeric s) : Alphanumeric (lower s) :=
  List.forall_mem_map.mpr fun c hc => isAlphanum_toLower (h c hc)

/-- A word with a capital in front, or an acronym in capitals, still has letters and digits only. -/
theorem capital (h : Alphanumeric w) : Alphanumeric (capital w) := by
  unfold Identifier.capital
  split
  · exact h.upper
  · split
    · exact h
    · obtain ⟨hc, hr⟩ := List.forall_mem_cons.mp h
      exact List.forall_mem_cons.mpr ⟨isAlphanum_toUpper hc, hr⟩

/-- A word with a small letter in front, or an acronym in small letters, is still one of letters and
    digits. -/
theorem lowered (h : Alphanumeric w) : Alphanumeric (lowered w) := by
  unfold Identifier.lowered
  split
  · exact h.lower
  · split
    · exact h
    · obtain ⟨hc, hr⟩ := List.forall_mem_cons.mp h
      exact List.forall_mem_cons.mpr ⟨isAlphanum_toLower hc, hr⟩

/-- A word that gets a letter in front, or is replaced since it is empty, is one of letters and
    digits. -/
theorem anchored {empty : List Char} {lead : Char} (hempty : Alphanumeric empty)
    (hlead : lead.isAlphanum = true) (h : Alphanumeric s) :
    Alphanumeric (anchored empty lead s) := by
  unfold Identifier.anchored
  split
  · exact hempty
  · split
    · exact List.forall_mem_cons.mpr ⟨hlead, h⟩
    · exact h

theorem flatMap_capital {ws : List (List Char)} (h : ∀ w ∈ ws, Alphanumeric w) :
    Alphanumeric (ws.flatMap Identifier.capital) := by
  intro c hc
  obtain ⟨w, hw, hc⟩ := List.mem_flatMap.mp hc
  exact (h w hw).capital c hc

theorem lowerHead (h : Alphanumeric s) : Alphanumeric (lowerHead s) := by
  refine append (lower fun c hc => ?_) fun c hc => ?_
  · exact h c (List.mem_of_mem_take hc)
  · exact h c (List.mem_of_mem_drop hc)

end Alphanumeric

/-! ## Words -/

/-- A word of letters and digits that starts with a capital. Words of this kind can be joined, and
    the result is one again. -/
structure Camel (s : List Char) : Prop where
  capital : Capital s
  alphanumeric : Alphanumeric s

theorem Camel.append (hs : Camel s) (ht : Alphanumeric t) : Camel (s ++ t) :=
  ⟨hs.capital.append t, hs.alphanumeric.append ht⟩

theorem Camel.exported (h : Camel name.toList) : Exported name := by
  obtain ⟨c, r, heq, hc⟩ := h.capital
  refine ⟨c, r, heq, hc, fun d hd => isWordChar_of_isAlphanum (h.alphanumeric d ?_)⟩
  rw [heq]
  exact List.mem_cons_of_mem c hd

theorem camel_exported (name : String) : Camel (exported name).toList := by
  refine ⟨capital_exported name, ?_⟩
  rw [exported, String.toList_ofList]
  exact .anchored (List.all_eq_true.mp rfl) rfl (.flatMap_capital fun w hw => (mem_words hw).2)

/-! ## Identifiers that are not exported -/

theorem head_lowered {r : List Char} : ∃ r', lowered (c :: r) = c.toLower :: r' := by
  unfold lowered
  split
  · exact ⟨lower r, rfl⟩
  · exact ⟨r, rfl⟩

/-- No keyword has an underscore, so the one behind a keyword makes it an identifier. Anything else
    is left as it is. -/
theorem unexported_unreserved (hs : s.head?.any Char.isLower = true) (h : Alphanumeric s) :
    Unexported (String.ofList (unreserved s)) := by
  have hkeywords : ∀ k ∈ keywords, '_' ∉ k := by decide
  obtain ⟨c, r, rfl⟩ : ∃ c r, s = c :: r := by
    cases s with
    | nil => simp at hs
    | cons c r => exact ⟨c, r, rfl⟩
  obtain ⟨-, hr⟩ := List.forall_mem_cons.mp h
  have hword : ∀ d ∈ r, isWordChar d = true := fun d hd => isWordChar_of_isAlphanum (hr d hd)
  -- Either an underscore was added, and the result ends in what no keyword has, or it was no
  -- keyword to begin with.
  unfold unreserved
  split
  · constructor
    · refine ⟨c, r ++ ['_'], by simp, by simpa using hs, fun d hd => ?_⟩
      rcases List.mem_append.mp hd with hd | hd
      · exact hword d hd
      · rw [List.mem_singleton.mp hd]
        rfl
    · intro hk
      rw [String.toList_ofList] at hk
      exact hkeywords _ hk (by simp)
  · rename_i hk
    exact ⟨⟨c, r, by simp, by simpa using hs, hword⟩, by simpa using hk⟩

/-- What becomes of any name, not exported, starts with a small letter. This is what keeps it from
    being taken for an exported one. -/
theorem isLower_head_unexported (s : List Char) :
    (anchored "val".toList 'v' (match words s with
      | [] => []
      | w :: ws => lowered w ++ ws.flatMap capital)).head?.any Char.isLower = true := by
  cases hw : words s with
  | nil => rfl
  | cons w ws =>
    obtain ⟨hne, halnum⟩ := mem_words (hw ▸ List.mem_cons_self : w ∈ words s)
    obtain ⟨c, r, rfl⟩ := List.exists_cons_of_ne_nil hne
    obtain ⟨r', hr'⟩ := head_lowered (c := c) (r := r)
    dsimp only
    rw [hr', List.cons_append, anchored]
    split
    · rfl
    · rename_i hdigit
      have hc := halnum c List.mem_cons_self
      rw [List.head?_cons, Option.any_some, Char.isLower_toLower_eq_isAlpha]
      -- -- A word that starts with a digit got a letter in front.
      refine isAlpha_of_not_isDigit hc fun hd => hdigit ?_
      rwa [Char.toLower_eq_of_not_isUpper (not_isUpper_of_isDigit hd)]

/-- What becomes of any name, not exported, is an identifier that is not. -/
theorem unexported_unexported (name : String) : Unexported (unexported name) := by
  refine unexported_unreserved (isLower_head_unexported name.toList) ?_
  refine .anchored (List.all_eq_true.mp rfl) rfl ?_
  cases hw : words name.toList with
  | nil => exact fun c hc => absurd hc List.not_mem_nil
  | cons w ws =>
    have hwords : ∀ w' ∈ w :: ws, Alphanumeric w' := fun w' h => (mem_words (hw ▸ h)).2
    rw [List.forall_mem_cons] at hwords
    exact hwords.1.lowered.append (.flatMap_capital hwords.2)

/-- Where the head of a word is lowered, the word starts with a small letter. -/
theorem isLower_head_lowerHead (h : Capital s) : (lowerHead s).head?.any Char.isLower = true := by
  obtain ⟨c, r, heq, hc⟩ := lowerHead_eq_cons h
  rw [heq, List.head?_cons, Option.any_some, Char.isLower_toLower_eq_isAlpha, Char.isAlpha, hc,
    Bool.true_or]

/-- Where the head of a word is lowered, the result is no keyword either. -/
theorem unexported_lowerCamel (h : Camel name.toList) : Unexported (lowerCamel name) :=
  unexported_unreserved (isLower_head_lowerHead h.capital) h.alphanumeric.lowerHead

end Identifier

open Identifier

/-! ## Names of types -/

theorem alphanumeric_toString (n : Nat) : Alphanumeric (toString n).toList := by
  intro c hc
  rw [Nat.toString_eq_repr, Nat.toList_repr] at hc
  rw [Char.isAlphanum, Nat.isDigit_of_mem_toDigits (by decide) (by decide) hc, Bool.or_true]

/-- An identifier with a number behind it is a word that starts with a capital. -/
theorem camel_candidate {base : String} (h : Camel base.toList) (k : Nat) :
    Camel (candidate base k).toList := by
  cases k with
  | zero => exact h
  | succ k =>
    rw [candidate, String.toList_append]
    exact h.append (alphanumeric_toString _)

theorem camel_identifiers {types : List UserType} {used : List String}
    {x : TypeId × String} (h : x ∈ identifiers used types) : Camel x.2.toList := by
  obtain ⟨t, -, k, rfl⟩ := mem_identifiers h
  exact camel_candidate (camel_exported t.name) k

namespace Scope

variable {reg : Registry} {ctx : Context} {a : Attribute} {name : String}

/-- The attribute has a name that goes into the names of helpers: it refers to a type of the
    registry, or it is a union. -/
inductive Nameable (reg : Registry) (a : Attribute) : Prop where
  | user {t : UserType} (ht : t ∈ reg.types) (ha : a.userId? = some t.id) : Nameable reg a
  | union {name : String} {alternatives : List (String × Attribute)}
      (ha : a.type = .union name alternatives) : Nameable reg a

theorem camel_name {id : TypeId} (h : (ofRegistry reg).name id = .ok name) : Camel name.toList :=
  camel_identifiers (mem_names h)

/-- A package in front of a word makes a longer word. -/
theorem camel_qualified (ctx : Context) (h : Camel name.toList) :
    Camel (if ctx.package.isEmpty then name else exported ctx.package ++ name).toList := by
  split
  · exact h
  · rw [String.toList_append]
    exact (camel_exported _).append h.alphanumeric

/-- What has a name that goes into those of helpers has one in every context. -/
theorem Nameable.qualifiedName (h : Nameable reg a) (ctx : Context) :
    ∃ name, (ofRegistry reg).qualifiedName ctx a = .ok name ∧ Camel name.toList := by
  cases h with
  | user ht ha =>
    obtain ⟨n, hn⟩ := exists_name ht
    exact ⟨_, (qualifiedName_eq_ok ha).mpr ⟨n, hn, rfl⟩, camel_qualified ctx (camel_name hn)⟩
  | @union name _ ha =>
    refine ⟨_, ?_, camel_qualified ctx (camel_exported name)⟩
    unfold Scope.qualifiedName
    rw [ha]
    exact apply_ite Except.ok _ _ _ |>.symm

end Scope

/-! ## Names of helpers -/

namespace Conversion

/-- The verb in front of a word makes a longer word, whether it is a given one or the usual one. -/
theorem camel_verbName_append (c : Conversion) {s : List Char} (h : Camel s) :
    Camel (c.verbName.toList ++ s) := by
  unfold verbName
  split
  · exact h
  · exact (camel_exported c.verb).append h.alphanumeric

/-- Every name becomes an identifier, exported or not, and the name of the helper for two types is
    one that is not exported, whatever its verb. -/
theorem names_are_identifiers (reg : Registry) :
    (∀ name, Exported (exported name)) ∧ (∀ name, Unexported (unexported name)) ∧
      ∀ (c : Conversion) (a b : Attribute), c.scope = .ofRegistry reg →
        Scope.Nameable reg a → Scope.Nameable reg b →
          ∃ name, c.helperName a b = .ok name ∧ Unexported name := by
  refine ⟨fun name => (camel_exported name).exported, unexported_unexported,
    fun c a b hc ha hb => ?_⟩
  obtain ⟨s, hs, hscamel⟩ := ha.qualifiedName c.source
  obtain ⟨t, ht, htcamel⟩ := hb.qualifiedName c.target
  refine ⟨lowerCamel (c.verbName ++ s ++ "To" ++ t), ?_, unexported_lowerCamel ?_⟩
  · unfold helperName
    rw [hc, hs, ht]
    rfl
  · have hto : Alphanumeric "To".toList := List.all_eq_true.mp rfl
    simp only [String.toList_append]
    exact ((camel_verbName_append c hscamel).append hto).append htcamel.alphanumeric

/-- Two types whose names are no identifiers: one is a keyword, the other starts with a digit. -/
def oddRegistry : Registry where
  types := [
    { id := "a", name := "func", definition := { type := .object [] } },
    { id := "b", name := "9 lives", definition := { type := .object [] } }]
  nodup := by decide

/-- The conversion of such types, with no verb given. -/
def oddConversion : Conversion where
  scope := .ofRegistry oddRegistry
  source := .service
  target := .service
  verb := ""

/-- Both names become words that start with a capital, so the helper gets an identifier. -/
theorem names_are_identifiers_odd :
    oddConversion.scope = .ofRegistry oddRegistry ∧
    Scope.Nameable oddRegistry (.user "a") ∧ Scope.Nameable oddRegistry (.user "b") ∧
    ∃ name, oddConversion.helperName (.user "a") (.user "b") = .ok name ∧ Unexported name := by
  have ha : Scope.Nameable oddRegistry (.user "a") := .user List.mem_cons_self rfl
  have hb : Scope.Nameable oddRegistry (.user "b") :=
    .user (List.mem_cons_of_mem _ List.mem_cons_self) rfl
  exact ⟨rfl, ha, hb,
    (names_are_identifiers oddRegistry).2.2 oddConversion (.user "a") (.user "b") rfl ha hb⟩

example : (oddConversion.helperName (.user "a") (.user "b")).toOption = some "funcToV9Lives" := by
  decide +kernel

end Conversion
end Shapewright
