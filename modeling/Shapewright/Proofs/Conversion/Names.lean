import Shapewright.Proofs.Conversion.Nesting
import Shapewright.Proofs.Scope

/-!
# Names of helpers

The name of a helper is the verb, the name of the source type, `To` and the name of the target type,
and its head is lowered. The two types cannot always be read back: a `To` may stand in the names
themselves, and where there is no verb, the head of the source was lowered. There is no other way
for two pairs of types to come to one name (`helperName_eq_iff`).

## What a shared name means

The search for helpers goes by names alone. Where two pairs share one, the pair that is met second
gets no helper of its own, and its calls go to that of the first. `cross_shares_helper` shows a
request where this happens: the types `X` and `XToY` on the source side, and `YToZ` and `Z` on the
other. Nothing in the design forbids such names, so the theorem cannot be that names tell pairs
apart. It says exactly when they do, and the other theorems on requests take that as a hypothesis.

## From strings to types

`Identifier` settles which strings are equal, and `Scope` says that different types have different
identifiers. What is added here is how the two meet: packages and the verb stand in front of the
identifiers, so what looks like the head of a type may be that of a verb (`SameHead`), and the two
types are known by their names only if the registry has them (`Known`).

`Confused` names the two ways, one constructor for each. It is not symmetric: in `shifted` it is the
first pair whose target has the `To` in it.
-/

namespace Shapewright
namespace Conversion

open Identifier

variable {c : Conversion} {p q : Pair} {s s' t t' v : String}

/-- The names of the two types, with the packages of their sides. Helpers are named after these. -/
structure Names (c : Conversion) (p : Pair) (s t : String) : Prop where
  source : c.scope.qualifiedName c.source p.1 = .ok s
  target : c.scope.qualifiedName c.target p.2 = .ok t

/-- Names of sources that look the same at the head of the name of a helper. Behind a verb every
    letter stands as it is. -/
def SameHead (verb s s' : String) : Prop :=
  s = s' ∨ verb = "" ∧ (s'.toList = tamed s.toList ∨ s.toList = tamed s'.toList)

/-- How two pairs of types come to one name though they are different. Both constructors give the
    names by which this can be seen. -/
inductive Confused (c : Conversion) (p q : Pair) : Prop where
  /-- No verb stands in front, and the sources differ in the case of their first letters. -/
  | recased {s s' t : String} (hp : c.Names p s t) (hq : c.Names q s' t)
      (hs : SameHead c.verb s s') (hne : s ≠ s') : Confused c p q
  /-- A `To` of the source of one pair is the one in front of the target of the other. -/
  | shifted {s t s' t' m : String} (hp : c.Names p s t) (hq : c.Names q s' t')
      (hs : SameHead c.verb (s ++ "To" ++ m) s') (ht : t = m ++ "To" ++ t') : Confused c p q

/-! ## Heads -/

theorem capital_verbName (h : c.verb ≠ "") : Capital c.verbName.toList := by
  unfold verbName
  rw [if_neg (by simpa using h)]
  exact capital_exported c.verb

theorem capital_head (hs : Capital s.toList) : Capital (c.verbName.toList ++ s.toList) := by
  by_cases h : c.verb = ""
  · rw [verbName, if_pos (by simpa using h)]
    exact hs
  · exact (capital_verbName h).append _

/-- Sources look the same just where the heads of the helpers' names do. How far lowering reaches
    into the source depends on the prefix. -/
theorem sameHead_iff (hs : Capital s.toList) (hs' : Capital s'.toList) :
    SameHead c.verb s s' ↔
      lowerHead (c.verbName.toList ++ s.toList) = lowerHead (c.verbName.toList ++ s'.toList) := by
  unfold SameHead
  by_cases h : c.verb = ""
  · have hverb : c.verbName.toList = [] := by
      rw [verbName, if_pos (by simpa using h)]
      rfl
    rw [hverb, List.nil_append, List.nil_append, lowerHead_eq_iff hs hs', String.toList_inj]
    simp only [h, true_and]
  · rw [lowerHead_append_inj (capital_verbName h) hs hs', String.toList_inj]
    simp only [h, false_and, or_false]

/-! ## The name of a helper -/

theorem toList_separated (s t : String) :
    (s ++ "To" ++ t).toList = s.toList ++ 'T' :: 'o' :: t.toList := by
  simp [String.toList_append]

theorem eq_separated_iff {m : String} :
    s = m ++ "To" ++ t ↔ s.toList = m.toList ++ 'T' :: 'o' :: t.toList := by
  rw [← toList_separated, String.toList_inj]

theorem toList_surjective : Function.Surjective String.toList :=
  fun text => ⟨String.ofList text, String.toList_ofList⟩

/-- Types of the registry have names on either side, so their helper has one. -/
theorem Known.exists_names {reg : Registry} (hc : c.scope = .ofRegistry reg) (hp : Known reg p) :
    ∃ s t, c.Names p s t := by
  obtain ⟨⟨a, ha, hsource⟩, b, hb, htarget⟩ := hp
  obtain ⟨s, hs⟩ := Scope.exists_qualifiedName c.source ha hsource
  obtain ⟨t, ht⟩ := Scope.exists_qualifiedName c.target hb htarget
  exact ⟨s, t, hc ▸ hs, hc ▸ ht⟩

theorem Names.capital {reg : Registry} (h : c.Names p s t) (hc : c.scope = .ofRegistry reg)
    (hp : Known reg p) : Capital s.toList := by
  obtain ⟨a, -, ha⟩ := hp.source
  exact Scope.capital_qualifiedName ha (hc ▸ h.source)

/-- Pairs of the same names refer to the same types. Here identifiers are read back as types. -/
theorem Names.alike {reg : Registry} (h : c.Names p s t) (h' : c.Names q s t)
    (hc : c.scope = .ofRegistry reg) (hp : Known reg p) (hq : Known reg q) : Alike p q := by
  obtain ⟨⟨a, -, ha⟩, b, -, hb⟩ := hp
  obtain ⟨⟨a', -, ha'⟩, b', -, hb'⟩ := hq
  have hsource : a.id = a'.id :=
    Scope.qualifiedName_injective ha ha' (hc ▸ h.source) (hc ▸ h'.source)
  have htarget : b.id = b'.id :=
    Scope.qualifiedName_injective hb hb' (hc ▸ h.target) (hc ▸ h'.target)
  exact ⟨⟨a.id, ha, hsource ▸ ha'⟩, ⟨b.id, hb, htarget ▸ hb'⟩⟩

/-- The name of a helper, as a list of characters. It is no keyword, so nothing is added to it. The
    pieces are known by their characters from here on, so two names can be compared from the
    front. -/
theorem Names.helperName (h : c.Names p s t) (hs : Capital s.toList) :
    c.helperName p.1 p.2 = .ok (String.ofList
      (lowerHead (c.verbName.toList ++ s.toList) ++ 'T' :: 'o' :: t.toList)) := by
  unfold Conversion.helperName
  rw [h.source, h.target]
  have htext : (c.verbName ++ s ++ "To" ++ t).toList =
      (c.verbName.toList ++ s.toList) ++ 'T' :: 'o' :: t.toList := by
    rw [toList_separated, String.toList_append]
  show Except.ok (lowerCamel (c.verbName ++ s ++ "To" ++ t)) = _
  rw [lowerCamel, htext, lowerCamelChars_append (capital_head hs)]

/-- A head that goes on behind a `To` is the head of a longer name. -/
theorem sameHead_separated_iff {m : String} (hs : Capital s.toList) (hs' : Capital s'.toList) :
    SameHead c.verb (s ++ "To" ++ m) s' ↔ lowerHead (c.verbName.toList ++ s'.toList) =
      lowerHead (c.verbName.toList ++ s.toList) ++ 'T' :: 'o' :: m.toList := by
  have hlonger : Capital (s ++ "To" ++ m).toList := toList_separated s m ▸ hs.append _
  rw [sameHead_iff hlonger hs', toList_separated, ← List.append_assoc,
    lowerHead_append (capital_head hs), eq_comm]

/-- Names of helpers are compared by their heads and by where the `To` between the types is. The
    second and third case are those in which one of the types has a `To` in its own name. -/
theorem Names.sameName_iff (hp : c.Names p s t) (hq : c.Names q s' t')
    (hs : Capital s.toList) (hs' : Capital s'.toList) :
    c.helperName p.1 p.2 = c.helperName q.1 q.2 ↔
      (SameHead c.verb s s' ∧ t = t') ∨
      (∃ m, SameHead c.verb (s ++ "To" ++ m) s' ∧ t = m ++ "To" ++ t') ∨
        ∃ m, SameHead c.verb (s' ++ "To" ++ m) s ∧ t' = m ++ "To" ++ t := by
  rw [hp.helperName hs, hq.helperName hs', Except.ok.injEq, String.ofList_inj,
    append_separator_eq_iff, sameHead_iff hs hs', String.toList_inj]
  simp only [sameHead_separated_iff hs hs', sameHead_separated_iff hs' hs, eq_separated_iff]
  exact or_congr Iff.rfl (or_congr toList_surjective.exists toList_surjective.exists)

/-- Confused pairs do share a name. -/
theorem Confused.helperName_eq {reg : Registry} (h : c.Confused p q)
    (hc : c.scope = .ofRegistry reg) (hp : Known reg p) (hq : Known reg q) :
    c.helperName p.1 p.2 = c.helperName q.1 q.2 := by
  cases h with
  | recased hn hn' hs =>
    exact (hn.sameName_iff hn' (hn.capital hc hp) (hn'.capital hc hq)).mpr (Or.inl ⟨hs, rfl⟩)
  | shifted hn hn' hs ht =>
    exact (hn.sameName_iff hn' (hn.capital hc hp) (hn'.capital hc hq)).mpr
      (Or.inr (Or.inl ⟨_, hs, ht⟩))

/-- There is no other way to come to one name. The three cases are those of where a join can be
    cut. -/
theorem alike_or_confused {reg : Registry} (hc : c.scope = .ofRegistry reg) (hp : Known reg p)
    (hq : Known reg q) (h : c.helperName p.1 p.2 = c.helperName q.1 q.2) :
    Alike p q ∨ c.Confused p q ∨ c.Confused q p := by
  obtain ⟨s, t, hn⟩ := hp.exists_names hc
  obtain ⟨s', t', hn'⟩ := hq.exists_names hc
  rcases (hn.sameName_iff hn' (hn.capital hc hp) (hn'.capital hc hq)).mp h with
    ⟨hs, rfl⟩ | ⟨m, hs, ht⟩ | ⟨m, hs, ht⟩
  · -- The targets are the same, so the pairs differ in their sources or not at all.
    by_cases heq : s = s'
    · subst heq
      exact Or.inl (hn.alike hn' hc hp hq)
    · exact Or.inr (Or.inl (.recased hn hn' hs heq))
  · exact Or.inr (Or.inl (.shifted hn hn' hs ht))
  · exact Or.inr (Or.inr (.shifted hn' hn hs ht))

/-- Helpers of pairs of known types have names, and two pairs have the same one exactly if they are
    of the same types or are confused. Names are parts that are joined without a mark, so pairs are
    confused where one text can be cut in two places into the names of types. -/
theorem helperName_eq_iff (c : Conversion) (p q : Pair) (hc : c.scope = .ofRegistry c.registry)
    (hp : Known c.registry p) (hq : Known c.registry q) :
    (∃ name, c.helperName p.1 p.2 = .ok name) ∧
      (c.helperName p.1 p.2 = c.helperName q.1 q.2 ↔
        Alike p q ∨ c.Confused p q ∨ c.Confused q p) := by
  constructor
  · obtain ⟨s, t, hn⟩ := hp.exists_names hc
    exact ⟨_, hn.helperName (hn.capital hc hp)⟩
  · constructor
    · exact alike_or_confused hc hp hq
    · intro h
      rcases h with h | h | h
      · exact h.helperName_eq c
      · exact h.helperName_eq hc hp hq
      · exact (h.helperName_eq hc hq hp).symm

/-! ## Two pairs that share a helper -/

/-- A type of objects without fields. -/
def emptyType (id : TypeId) : UserType where
  id
  name := id
  definition := { type := .object [] }

/-- Two of the types have the separator in their names. -/
def crossRegistry : Registry where
  types := [emptyType "X", emptyType "XToY", emptyType "Z", emptyType "YToZ"]
  nodup := by decide

def crossConversion : Conversion where
  scope := .ofRegistry crossRegistry
  source := .service
  target := .service

/-- The names of the types can be cut at either `To`, so the pairs share a name and are confused.
    Both names are `transformXToYToZ`. -/
theorem helperName_eq_iff_cross :
    crossConversion.scope = .ofRegistry crossConversion.registry ∧
    Known crossConversion.registry (.user "X", .user "YToZ") ∧
    Known crossConversion.registry (.user "XToY", .user "Z") ∧
    (∃ name, crossConversion.helperName (.user "X") (.user "YToZ") = .ok name) ∧
    (crossConversion.helperName (.user "X") (.user "YToZ") =
        crossConversion.helperName (.user "XToY") (.user "Z") ↔
      Alike (.user "X", .user "YToZ") (.user "XToY", .user "Z") ∨
      crossConversion.Confused (.user "X", .user "YToZ") (.user "XToY", .user "Z") ∨
      crossConversion.Confused (.user "XToY", .user "Z") (.user "X", .user "YToZ")) := by
  have known : ∀ i ∈ ["X", "XToY", "Z", "YToZ"],
      ∃ t ∈ crossRegistry.types, (Attribute.user i).userId? = some t.id :=
    fun i hi => ⟨emptyType i, List.mem_map_of_mem (f := emptyType) hi, rfl⟩
  have hp : Known crossConversion.registry (.user "X", .user "YToZ") :=
    ⟨known "X" (by simp), known "YToZ" (by simp)⟩
  have hq : Known crossConversion.registry (.user "XToY", .user "Z") :=
    ⟨known "XToY" (by simp), known "Z" (by simp)⟩
  exact ⟨rfl, hp, hq, helperName_eq_iff crossConversion (.user "X", .user "YToZ")
    (.user "XToY", .user "Z") rfl hp hq⟩

/-- Objects with two fields, whose types come to one name. -/
def crossRequest : Pair :=
  ({ type := .object [("p", .user "X"), ("q", .user "XToY")] },
    { type := .object [("p", .user "YToZ"), ("q", .user "Z")] })

theorem member_cross {name : String} {a b : Attribute}
    (hm : (⟨name, a, b⟩ : FieldMatch) ∈
      ([⟨"p", .user "X", .user "YToZ"⟩, ⟨"q", .user "XToY", .user "Z"⟩] : List FieldMatch)) :
    crossConversion.Member crossRequest ⟨a, b, false⟩ := by
  have hmatch : matchFields ⟨crossRequest.1, [("p", .user "X"), ("q", .user "XToY")]⟩
      ⟨crossRequest.2, [("p", .user "YToZ"), ("q", .user "Z")]⟩ =
        [⟨"p", .user "X", .user "YToZ"⟩, ⟨"q", .user "XToY", .user "Z"⟩] := rfl
  rw [← hmatch] at hm
  exact Member.field (c := crossConversion) (a := crossRequest.1) (b := crossRequest.2) rfl rfl hm

/-- One request calls one helper for two pairs of different types. The name is met at the first
    pair, and the second is taken to be the same. -/
theorem cross_shares_helper :
    crossConversion.Nested crossRequest (.user "X", .user "YToZ") ∧
    crossConversion.Nested crossRequest (.user "XToY", .user "Z") ∧
    crossConversion.Delegates (.user "X", .user "YToZ") "transformXToYToZ" ∧
    crossConversion.Delegates (.user "XToY", .user "Z") "transformXToYToZ" ∧
    ¬ Alike (.user "X", .user "YToZ") (.user "XToY", .user "Z") := by
  have compatible : ∀ p : Pair, (∃ u, (crossRegistry.compatible p.1 p.2 {}).Yields u) →
      (crossConversion.registry.compatible p.1 p.2 {}).Yields () := fun _ ⟨⟨⟩, h⟩ => h
  -- All comparisons succeed, so each pair is converted as it is.
  have hrequest := compatible crossRequest (by decide +kernel)
  refine ⟨?_, ?_, ⟨callsHelper_yields_true.mpr ⟨rfl, rfl, rfl, ?_⟩, rfl⟩,
    ⟨callsHelper_yields_true.mpr ⟨rfl, rfl, rfl, ?_⟩, rfl⟩, ?_⟩
  · exact (nested_iff_of_compatible hrequest).mpr ⟨false, member_cross List.mem_cons_self⟩
  · exact (nested_iff_of_compatible hrequest).mpr
      ⟨false, member_cross (List.mem_cons_of_mem _ List.mem_cons_self)⟩
  · exact compatible (.user "X", .user "YToZ") (by decide +kernel)
  · exact compatible (.user "XToY", .user "Z") (by decide +kernel)
  · intro h
    obtain ⟨⟨i, hi, hi'⟩, -⟩ := h
    cases hi
    exact absurd (Option.some.inj hi' : "XToY" = "X") (by decide)

end Conversion
end Shapewright
