import Mathlib.Data.List.Nodup
import Shapewright.Proofs.Identifier
import Shapewright.Proofs.Positions

/-!
# Identifiers of types

The types of a registry have different identifiers, whatever their names are, and each starts with a
capital. A package in front of an identifier changes neither.

Names of types are texts of the design and may be anything: two of them can have the same words in
them, or none at all. Identifiers are given out in the order of the types, and one that is taken
gets the first number behind it that makes it new. So a type's identifier depends on those before
it, and the facts here are about the whole list (`nodup_identifiers`), from which those about single
types follow (`Scope.name_injective`).

## The search for a number

The search tries one candidate more than names are taken. By the pigeonhole principle one of them is
free (`exists_find?_candidate`), so the default of the search is never taken and the number is the
least one that will do (`freshIdentifier_eq`). The lemma is stated of any injective sequence of
candidates, since parameters and temporaries are numbered in the same way elsewhere.

What goes with an identifier, the suffix for a view and the package, is in this module as well. Both
are identifiers in their own right, so that the lemmas on heads apply to the whole.
-/

namespace Shapewright

open Identifier

variable {used : List String} {base name : String} {types : List UserType} {reg : Registry}

/-! ## Fresh identifiers -/

/-- Numbers are read back from behind the base, as decimals are. -/
theorem numbered_injective (base : String) :
    Function.Injective fun k : Nat => base ++ toString (k + 2) := by
  intro i j h
  have htext : (toString (i + 2)).toList = (toString (j + 2)).toList := by
    have := congrArg String.toList h
    rw [String.toList_append, String.toList_append] at this
    exact List.append_cancel_left this
  have hdigits : Nat.toDigits 10 (i + 2) = Nat.toDigits 10 (j + 2) := by
    simpa only [Nat.toString_eq_repr, Nat.toList_repr] using htext
  have hnumber := congrArg (fun digits => Nat.ofDigitChars 10 digits 0) hdigits
  simpa using hnumber

/-- One more candidate is tried than names are taken, so one is free, and the first one is found.
    All before it are taken, so the number says how many there are. -/
theorem exists_find?_candidate {candidate : Nat → String} (hc : Function.Injective candidate)
    (used : List String) :
    ∃ k, ((List.range (used.length + 1)).map candidate).find? (fun name => !used.contains name) =
        some (candidate k) ∧
      candidate k ∉ used ∧ ∀ i < k, candidate i ∈ used := by
  rw [List.find?_map]
  cases hfind : (List.range (used.length + 1)).find? ((fun name => !used.contains name) ∘ candidate)
    with
  | some k =>
    obtain ⟨hfree, -, htaken⟩ := List.find?_range_eq_some.mp hfind
    exact ⟨k, rfl, by simpa using hfree, fun i hi => by simpa using htaken i hi⟩
  | none =>
    -- Otherwise all candidates are taken, and they are more than there are names.
    have hsub : (List.range (used.length + 1)).map candidate ⊆ used := by
      intro name hname
      obtain ⟨i, hi, rfl⟩ := List.mem_map.mp hname
      simpa using List.find?_eq_none.mp hfind i hi
    have hnodup := (List.nodup_range (n := used.length + 1)).map hc
    have hle := hnodup.length_le_of_subset hsub
    rw [List.length_map, List.length_range] at hle
    omega

theorem find?_candidate_not_mem {candidate : Nat → String} (hc : Function.Injective candidate)
    (used : List String) (fallback : String) :
    ((((List.range (used.length + 1)).map candidate).find? fun name =>
      !used.contains name).getD fallback) ∉ used := by
  obtain ⟨k, hfind, hfree, -⟩ := exists_find?_candidate hc used
  rw [hfind]
  exact hfree

/-- What is tried for a type one after the other: its natural identifier, then that with a number
    behind it. -/
def candidate (base : String) : Nat → String
  | 0 => base
  | k + 1 => base ++ toString (k + 2)

/-- A fresh identifier is the first candidate that is not taken. The candidates are the name itself
    and the name with a number, from two on. -/
theorem freshIdentifier_eq (used : List String) (base : String) :
    ∃ k, freshIdentifier used base = candidate base k ∧
      candidate base k ∉ used ∧ ∀ i < k, candidate base i ∈ used := by
  unfold freshIdentifier
  split
  · rename_i hbase
    obtain ⟨k, hfind, hfree, htaken⟩ := exists_find?_candidate (numbered_injective base) used
    refine ⟨k + 1, congrArg (Option.getD · base) hfind, hfree, fun i hi => ?_⟩
    cases i with
    | zero => exact List.contains_iff_mem.mp hbase
    | succ i => exact htaken i (Nat.lt_of_succ_lt_succ hi)
  · rename_i hbase
    rw [List.contains_iff_mem] at hbase
    exact ⟨0, rfl, hbase, fun i hi => absurd hi (Nat.not_lt_zero i)⟩

theorem freshIdentifier_not_mem (used : List String) (base : String) :
    freshIdentifier used base ∉ used := by
  obtain ⟨k, hk, hfree, -⟩ := freshIdentifier_eq used base
  rwa [hk]

theorem capital_candidate (h : Capital base.toList) (k : Nat) :
    Capital (candidate base k).toList := by
  cases k with
  | zero => exact h
  | succ k =>
    rw [candidate, String.toList_append]
    exact h.append _

/-! ## The identifiers of a registry -/

theorem map_fst_identifiers (used : List String) (types : List UserType) :
    (identifiers used types).map Prod.fst = types.map (·.id) := by
  induction types generalizing used with
  | nil => rfl
  | cons t rest ih => rw [identifiers, List.map_cons, List.map_cons, ih]

/-- Identifiers are all different, and none of them was taken before. The second half is what the
    induction needs: what comes later avoids what was given out. -/
theorem nodup_identifiers (used : List String) (types : List UserType) :
    ((identifiers used types).map Prod.snd).Nodup ∧
      ∀ x ∈ identifiers used types, x.2 ∉ used := by
  induction types generalizing used with
  | nil => simp [identifiers]
  | cons t rest ih =>
    rw [identifiers]
    obtain ⟨hnodup, hfresh⟩ := ih (freshIdentifier used (exported t.name) :: used)
    constructor
    · rw [List.map_cons, List.nodup_cons]
      refine ⟨fun h => ?_, hnodup⟩
      obtain ⟨x, hx, heq⟩ := List.mem_map.mp h
      exact hfresh x hx (heq ▸ List.mem_cons_self)
    · refine List.forall_mem_cons.mpr ⟨freshIdentifier_not_mem used _, fun x hx h => ?_⟩
      exact hfresh x hx (List.mem_cons_of_mem _ h)

theorem capital_exported (name : String) : Capital (exported name).toList := by
  rw [exported, String.toList_ofList]
  exact capital_exportedChars _

theorem exported_ne_empty (name : String) : exported name ≠ "" := by
  obtain ⟨c, r, h, -⟩ := capital_exported name
  intro hempty
  rw [hempty] at h
  cases h

/-- What a view adds to a name is empty for the default view only. -/
theorem viewSuffix_eq_empty {view : String} : viewSuffix view = "" ↔ view = defaultView := by
  unfold viewSuffix
  split
  · simp [*]
  · exact iff_of_false (exported_ne_empty view) ‹_›

theorem viewSuffix_of_ne {view : String} (hd : view ≠ defaultView) :
    viewSuffix view = exported view := by
  rw [viewSuffix, if_neg hd]

/-- Of two texts with one beginning, the longer beginning has more of it. The rest tells how
    much. -/
theorem append_eq_append_cases {a b s t : String} (h : a ++ s = b ++ t) (hne : a ≠ b) :
    (∃ more, more ≠ "" ∧ b = a ++ more ∧ s = more ++ t) ∨
      ∃ more, more ≠ "" ∧ a = b ++ more ∧ t = more ++ s := by
  have longer : ∀ {a b s t : String} {more : List Char}, a ≠ b →
      b.toList = a.toList ++ more → s.toList = more ++ t.toList →
      ∃ more, more ≠ "" ∧ b = a ++ more ∧ s = more ++ t := by
    intro a b s t more hne hb hs
    have hbegin : b = a ++ String.ofList more := by
      rw [← String.toList_inj, hb, String.toList_append, String.toList_ofList]
    refine ⟨String.ofList more, fun hempty => hne ?_, hbegin, ?_⟩
    · rw [hbegin, hempty, String.append_empty]
    · rw [← String.toList_inj, hs, String.toList_append, String.toList_ofList]
  have hchars := congrArg String.toList h
  rw [String.toList_append, String.toList_append] at hchars
  rcases List.append_eq_append_iff.mp hchars with ⟨more, hb, hs⟩ | ⟨more, ha, ht⟩
  · exact .inl (longer hne hb hs)
  · exact .inr (longer hne.symm ha ht)

/-- Each identifier is one of the candidates for its type. Which one depends on the types before
    it. -/
theorem mem_identifiers {x : TypeId × String} (h : x ∈ identifiers used types) :
    ∃ t ∈ types, ∃ k, x = (t.id, candidate (exported t.name) k) := by
  induction types generalizing used with
  | nil => exact absurd h List.not_mem_nil
  | cons t rest ih =>
    rw [identifiers, List.mem_cons] at h
    rcases h with rfl | h
    · obtain ⟨k, hk, -⟩ := freshIdentifier_eq used (exported t.name)
      exact ⟨t, List.mem_cons_self, k, by rw [hk]⟩
    · obtain ⟨u, hu, hx⟩ := ih h
      exact ⟨u, List.mem_cons_of_mem t hu, hx⟩

theorem capital_identifiers {x : TypeId × String} (h : x ∈ identifiers used types) :
    Capital x.2.toList := by
  obtain ⟨t, -, k, rfl⟩ := mem_identifiers h
  exact capital_candidate (capital_exported t.name) k

namespace Scope

/-- Every type of the registry has an identifier. -/
theorem exists_name {t : UserType} (h : t ∈ reg.types) :
    ∃ name, (ofRegistry reg).name t.id = .ok name := by
  have hkey : t.id ∈ (identifiers [] reg.types).map Prod.fst := by
    rw [map_fst_identifiers]
    exact List.mem_map_of_mem h
  obtain ⟨name, hname⟩ := Ordered.exists_get? hkey
  refine ⟨name, ?_⟩
  rw [Scope.name, ofRegistry, hname]

theorem mem_names {s : Scope} {id : TypeId} (h : s.name id = .ok name) : (id, name) ∈ s.names := by
  unfold Scope.name at h
  split at h
  · rename_i n hn
    cases h
    exact Ordered.mem_of_get? hn
  · cases h

/-- Two types of a registry never share an identifier, so that the identifier is as good as the
    type. -/
theorem name_injective {i j : TypeId} (hi : (ofRegistry reg).name i = .ok name)
    (hj : (ofRegistry reg).name j = .ok name) : i = j := by
  have hnodup : ((identifiers [] reg.types).map Prod.snd).Nodup := (nodup_identifiers [] _).1
  have heq : (i, name) = (j, name) :=
    List.inj_on_of_nodup_map hnodup (mem_names hi) (mem_names hj) rfl
  exact congrArg Prod.fst heq

/-! ## Names with packages -/

section

variable {ctx : Context} {a b : Attribute} {id i j : TypeId}

theorem qualifiedName_eq_ok {s : Scope} (ha : a.userId? = some id) :
    s.qualifiedName ctx a = .ok name ↔ ∃ n, s.name id = .ok n ∧
      name = if ctx.package.isEmpty then n else exported ctx.package ++ n := by
  unfold qualifiedName
  rw [Attribute.type_of_userId? ha]
  simp only [except_bind_eq_ok]
  refine exists_congr fun n => and_congr_right fun _ => ?_
  split
  · rw [Except.ok.injEq, eq_comm]
  · rw [Except.ok.injEq, eq_comm]

theorem exists_qualifiedName (ctx : Context) {t : UserType} (ht : t ∈ reg.types)
    (ha : a.userId? = some t.id) :
    ∃ name, (ofRegistry reg).qualifiedName ctx a = .ok name := by
  obtain ⟨n, hn⟩ := exists_name ht
  exact ⟨_, (qualifiedName_eq_ok ha).mpr ⟨n, hn, rfl⟩⟩

theorem capital_qualifiedName (ha : a.userId? = some id)
    (h : (ofRegistry reg).qualifiedName ctx a = .ok name) : Capital name.toList := by
  obtain ⟨n, hn, rfl⟩ := (qualifiedName_eq_ok ha).mp h
  split
  · exact capital_identifiers (mem_names hn)
  · rw [String.toList_append]
    exact (capital_exported _).append _

/-- Two types of a registry never share a name, with whatever package. The identifiers of a scope
    are unique, and the package is that of the context. -/
theorem qualifiedName_injective (ha : a.userId? = some i) (hb : b.userId? = some j)
    (h : (ofRegistry reg).qualifiedName ctx a = .ok name)
    (h' : (ofRegistry reg).qualifiedName ctx b = .ok name) : i = j := by
  obtain ⟨n, hn, rfl⟩ := (qualifiedName_eq_ok ha).mp h
  obtain ⟨n', hn', heq⟩ := (qualifiedName_eq_ok hb).mp h'
  have hsame : n = n' := by
    split at heq
    · exact heq
    · exact String.append_right_inj _ |>.mp heq
  exact name_injective hn (hsame ▸ hn')

/-! ## References to structures -/

/-- A reference to a structure has the name of the type in its type. Only objects are pointed to.
    Collections with a name need no pointer. -/
theorem typeRef_user_eq_ok {s : Scope} {k : Kind} {type : TypeRef}
    (hk : s.registry.kind (.user id) = .ok k) (hs : k = .object ∨ k = .array ∨ k = .map) :
    s.typeRef ctx (.user id) = .ok type ↔ ∃ n, s.name id = .ok n ∧
      type = if k = .object then .pointer (ctx.qualify n) else ctx.qualify n := by
  rw [Attribute.user] at hk ⊢
  rw [typeRef, userRef]
  simp only [except_bind_eq_ok]
  refine exists_congr fun n => and_congr_right fun _ => ?_
  rw [Attribute.user, hk]
  rcases hs with rfl | rfl | rfl
  · simp [eq_comm]
  · simp [eq_comm]
  · simp [eq_comm]

/-- References to two structures are never of one type. Aliases of primitives are left out, as their
    type is that of the primitive. -/
theorem typeRef_user_injective {k l : Kind} {type : TypeRef}
    (hk : reg.kind (.user i) = .ok k) (hs : k = .object ∨ k = .array ∨ k = .map)
    (hl : reg.kind (.user j) = .ok l) (ht : l = .object ∨ l = .array ∨ l = .map)
    (h : (ofRegistry reg).typeRef ctx (.user i) = .ok type)
    (h' : (ofRegistry reg).typeRef ctx (.user j) = .ok type) : i = j := by
  obtain ⟨n, hn, rfl⟩ := (typeRef_user_eq_ok hk hs).mp h
  obtain ⟨m, hm, hsame⟩ := (typeRef_user_eq_ok hl ht).mp h'
  have hname : n = m := by
    split at hsame
    · split at hsame
      · simpa [Context.qualify, TypeRef.qualified] using hsame
      · cases hsame
    · split at hsame
      · cases hsame
      · simpa [Context.qualify, TypeRef.qualified] using hsame
  exact name_injective hn (hname ▸ hm)

/-! ## Named objects -/

theorem isNamedObject_eq_true {s : Scope} : s.isNamedObject a = .ok true ↔
    a.userId?.isSome ∧ s.registry.kind a = .ok .object := by
  unfold isNamedObject
  cases a.userId? with
  | none => simp
  | some id =>
    simp only [except_bind_eq_ok, Option.isSome_some, true_and, Except.ok.injEq, decide_eq_true_eq]
    constructor
    · rintro ⟨k, hk, rfl⟩
      exact hk
    · exact fun h => ⟨_, h, rfl⟩

end

end Scope
end Shapewright
