import Mathlib.Order.WellFounded
import Shapewright.Proofs.Resolution

/-!
# Where references lead

A reference to a known type leads on to the definition of the type, which may be a reference in its
turn. Such a chain comes to an attribute that is no reference, or to a reference to a type that is
not there, or it goes on without end.

## Hops that are enough

Resolution counts hops and gives up after as many as there are types. It never does so too early: a
chain that ends visits no type twice, so the hops last for it, however long it is
(`resolve_iff_chain`). And where it gives up, the type that it names is met again on the way.

The invariant for this keeps the types on the way so far, up to the first one that is on a round
(`Inside`). They are all different, so there are no more of them than types, and a resolution whose
hops are used up has come to a round before.

## Three fates

The fates are told of the chain alone, without hops: `EndsAt`, `Dangles` and `Endless`. Since a
reference leads to one definition, no chain has two of them, and since resolution always finds one,
every chain has one. That is how the equivalences come about: each outcome implies its fate, and the
others are excluded.
-/

namespace Shapewright
namespace Registry

open Relation

variable {reg : Registry} {a b x r : Attribute} {i j id : TypeId} {t : UserType} {d : Defect}

/-! ## Chains -/

/-- The second attribute is the definition of the type that the first refers to. References inside
    of an attribute do not count, only the attribute itself. -/
def Refers (reg : Registry) (a b : Attribute) : Prop :=
  ∃ id t, a.userId? = some id ∧ reg.find? id = some t ∧ b = t.definition

theorem not_refers {b : Attribute} (h : a.userId? = none) : ¬ reg.Refers a b := by
  rintro ⟨id, t, hid, -, -⟩
  rw [h] at hid
  cases hid

/-- A reference to a type that is not there leads nowhere. -/
theorem not_refers_of_unknown (ha : a.userId? = some id) (h : reg.find? id = none) :
    ¬ reg.Refers a b := by
  rintro ⟨j, t, hj, ht, -⟩
  obtain rfl := Option.some.inj (ha.symm.trans hj)
  rw [h] at ht
  cases ht

theorem refers_rightUnique (reg : Registry) : Relator.RightUnique reg.Refers := by
  rintro a _ _ ⟨i, t, hi, ht, rfl⟩ ⟨j, u, hj, hu, rfl⟩
  obtain rfl := Option.some.inj (hi.symm.trans hj)
  obtain rfl := Option.some.inj (ht.symm.trans hu)
  rfl

/-- Resolution that finds something finds it from the next definition on as well. -/
theorem resolveWithin_of_refers {hops : Nat} {b : Attribute}
    (hr : reg.resolveWithin hops a = .ok r) (h : reg.Refers a b) :
    ∃ n, reg.resolveWithin n b = .ok r := by
  obtain ⟨id, t, hid, ht, rfl⟩ := h
  unfold resolveWithin at hr
  rw [Attribute.type_of_userId? hid] at hr
  simp only [ht] at hr
  cases hops with
  | zero => cases hr
  | succ n => exact ⟨n, hr⟩

/-- A chain of references that ends does so at what the attribute stands for. -/
theorem eq_of_refers {hops : Nat} (hr : reg.resolveWithin hops a = .ok r)
    (hx : ReflTransGen reg.Refers a x) (hend : x.userId? = none) : x = r := by
  induction hx using ReflTransGen.head_induction_on generalizing hops with
  | refl =>
    rw [resolveWithin_of_userId?_eq_none hend] at hr
    exact Except.ok.inj hr
  | head hab _ ih =>
    obtain ⟨n, hn⟩ := resolveWithin_of_refers hr hab
    exact ih hn

/-- The chain of references from the first attribute comes to the second, which is none. There is at
    most one such attribute, since each reference leads to one definition. -/
def EndsAt (reg : Registry) (a r : Attribute) : Prop :=
  ReflTransGen reg.Refers a r ∧ r.userId? = none

/-- The chain of references comes to a reference to a type that is not there. The identity is the
    one that an error names. -/
def Dangles (reg : Registry) (a : Attribute) (id : TypeId) : Prop :=
  ∃ x, ReflTransGen reg.Refers a x ∧ x.userId? = some id ∧ reg.find? id = none

/-- The chain of references goes on without end. In a finite registry such a chain comes back to
    where it has been. -/
def Endless (reg : Registry) (a : Attribute) : Prop :=
  ∃ chain : Nat → Attribute, chain 0 = a ∧ ∀ n, reg.Refers (chain n) (chain (n + 1))

/-- The references in the definitions of types lead from the type back to it. A type that is an
    alias of itself is the shortest case. -/
def ComesRound (reg : Registry) (id : TypeId) : Prop := TransGen reg.Leads id id

theorem endless_iff : reg.Endless a ↔ ¬ Acc (fun y x => reg.Refers x y) a := by
  rw [Endless, not_acc_iff_exists_descending_chain]

/-! ## No chain has two fates -/

/-- A chain of references stops in one place only. -/
theorem eq_of_stops (hx : ReflTransGen reg.Refers a x) (hb : ReflTransGen reg.Refers a b)
    (hxs : ∀ z, ¬ reg.Refers x z) (hbs : ∀ z, ¬ reg.Refers b z) : x = b := by
  rcases ReflTransGen.total_of_right_unique reg.refers_rightUnique hx hb with h | h
  · rcases h.cases_head with h | ⟨z, hz, -⟩
    · exact h
    · exact absurd hz (hxs z)
  · rcases h.cases_head with h | ⟨z, hz, -⟩
    · exact h.symm
    · exact absurd hz (hbs z)

/-- A chain that stops somewhere is not endless. -/
theorem not_endless_of_stops (hx : ReflTransGen reg.Refers a x) (hxs : ∀ z, ¬ reg.Refers x z) :
    ¬ reg.Endless a := by
  rw [endless_iff, not_not]
  induction hx using ReflTransGen.head_induction_on with
  | refl => exact Acc.intro _ fun y hy => absurd hy (hxs y)
  | head hab _ ih => exact Acc.intro _ fun y hy => reg.refers_rightUnique hab hy ▸ ih

theorem EndsAt.unique (h : reg.EndsAt a r) (h' : reg.EndsAt a x) : r = x :=
  eq_of_stops h.1 h'.1 (fun _ => not_refers h.2) fun _ => not_refers h'.2

theorem EndsAt.not_endless (h : reg.EndsAt a r) : ¬ reg.Endless a :=
  not_endless_of_stops h.1 fun _ => not_refers h.2

theorem Dangles.not_endless (h : reg.Dangles a id) : ¬ reg.Endless a := by
  obtain ⟨x, hx, hid, hf⟩ := h
  exact not_endless_of_stops hx fun _ => not_refers_of_unknown hid hf

/-- A chain comes to one missing type only. -/
theorem Dangles.unique (h : reg.Dangles a i) (h' : reg.Dangles a j) : i = j := by
  obtain ⟨x, hx, hi, hf⟩ := h
  obtain ⟨y, hy, hj, hg⟩ := h'
  obtain rfl := eq_of_stops hx hy (fun _ => not_refers_of_unknown hi hf)
    fun _ => not_refers_of_unknown hj hg
  exact Option.some.inj (hi.symm.trans hj)

/-- A chain that ends at an attribute comes to no missing type. -/
theorem EndsAt.not_dangles (h : reg.EndsAt a r) : ¬ reg.Dangles a id := by
  rintro ⟨x, hx, hid, hf⟩
  obtain rfl := eq_of_stops h.1 hx (fun _ => not_refers h.2)
    fun _ => not_refers_of_unknown hid hf
  rw [h.2] at hid
  cases hid

/-! ## Rounds -/

/-- Whatever a round leads to is on a round as well. -/
theorem ComesRound.leads (h : reg.ComesRound i) (hij : reg.Leads i j) : reg.ComesRound j := by
  obtain ⟨k, hik, hki⟩ := TransGen.head'_iff.mp h
  -- A definition is one attribute, so it refers to one type.
  obtain rfl : k = j := by
    obtain ⟨t, ht, hk⟩ := hik
    obtain ⟨u, hu, hj⟩ := hij
    obtain rfl := Option.some.inj (ht.symm.trans hu)
    exact Option.some.inj (hk.symm.trans hj)
  exact TransGen.tail' hki hij

/-- Where chains of attributes end, those of the types that they refer to do. -/
theorem acc_leads (h : Acc (fun y x => reg.Refers x y) a) (ha : a.userId? = some i) :
    Acc (fun j i => reg.Leads i j) i := by
  induction h generalizing i with
  | intro a _ ih =>
    refine Acc.intro _ fun j hj => ?_
    obtain ⟨t, ht, hd⟩ := hj
    exact ih t.definition ⟨i, t, ha, ht, rfl⟩ hd

/-- A reference that leads to a round leads on without end. -/
theorem endless_of_comesRound (ha : a.userId? = some i) (hi : ReflTransGen reg.Leads i j)
    (hj : reg.ComesRound j) : reg.Endless a :=
  endless_iff.mpr fun h => not_transGen_self_of_acc (acc_of_reaches (acc_leads h ha) hi) hj

/-! ## What resolution finds -/

theorem resolveWithin_of_unknown {hops : Nat} (ha : a.userId? = some id)
    (h : reg.find? id = none) : reg.resolveWithin hops a = .error (.unknownType id) := by
  unfold resolveWithin
  rw [Attribute.type_of_userId? ha]
  simp only [h]

theorem resolveWithin_zero (ha : a.userId? = some id) (ht : reg.find? id = some t) :
    reg.resolveWithin 0 a = .error (.defect (.circularAlias id)) := by
  unfold resolveWithin
  rw [Attribute.type_of_userId? ha]
  simp only [ht]

/-- Resolution does not give up in front of a type that is missing. -/
theorem exists_find?_of_defect {hops : Nat}
    (h : reg.resolveWithin hops (.user i) = .error (.defect d)) : ∃ t, reg.find? i = some t := by
  cases hf : reg.find? i with
  | none =>
    rw [resolveWithin_of_unknown rfl hf] at h
    cases h
  | some t => exact ⟨t, rfl⟩

/-- What resolution finds is at the end of the chain, whether it is an attribute or a type that is
    missing. -/
theorem stops_of_resolveWithin (reg : Registry) : ∀ (hops : Nat) (a : Attribute),
    (∀ r, reg.resolveWithin hops a = .ok r → reg.EndsAt a r) ∧
      ∀ id, reg.resolveWithin hops a = .error (.unknownType id) → reg.Dangles a id := by
  intro hops a
  cases ha : a.userId? with
  | none =>
    rw [resolveWithin_of_userId?_eq_none ha]
    refine ⟨fun r hr => ?_, nofun⟩
    cases hr
    exact ⟨.refl, ha⟩
  | some i =>
    cases hf : reg.find? i with
    | none =>
      rw [resolveWithin_of_unknown ha hf]
      refine ⟨nofun, fun id hid => ?_⟩
      cases hid
      exact ⟨a, .refl, ha, hf⟩
    | some t =>
      -- Here the chain goes on. Without hops nothing is found, neither an end nor a missing type.
      cases hops with
      | zero =>
        rw [resolveWithin_zero ha hf]
        exact ⟨nofun, nofun⟩
      | succ hops =>
        have hat : reg.Refers a t.definition := ⟨i, t, ha, hf, rfl⟩
        have ih := stops_of_resolveWithin reg hops t.definition
        rw [resolveWithin_succ ha hf]
        refine ⟨fun r hr => ?_, fun id hid => ?_⟩
        · obtain ⟨hchain, hend⟩ := ih.1 r hr
          exact ⟨.head hat hchain, hend⟩
        · obtain ⟨x, hchain, hend⟩ := ih.2 id hid
          exact ⟨x, .head hat hchain, hend⟩

/-- Resolution that gives up behind more types than there are has gone round: the type that it names
    leads back to itself. -/
theorem comesRound_of_resolveWithin {root : TypeId} : ∀ {hops : Nat} {i : TypeId}
    {around : List TypeId},
    reg.ComesRound i ∨ (Inside reg.Leads (reg.types.map (·.id)) root i around ∧
      reg.size < hops + around.length) →
    reg.resolveWithin hops (.user i) = .error (.defect d) →
      ∃ j, d = .circularAlias j ∧ ReflTransGen reg.Leads i j ∧ reg.ComesRound j := by
  intro hops
  induction hops with
  | zero =>
    intro i around hi h
    obtain ⟨t, ht⟩ := exists_find?_of_defect h
    rw [resolveWithin_zero rfl ht] at h
    cases h
    refine ⟨i, rfl, .refl, hi.resolve_right fun ⟨hinside, hlt⟩ => ?_⟩
    -- The types around are all different, so there are no more of them than types.
    have hle := hinside.nodup.length_le_of_subset hinside.subset
    rw [List.length_map] at hle
    rw [Registry.size] at hlt
    omega
  | succ hops ih =>
    intro i around hi h
    obtain ⟨t, ht⟩ := exists_find?_of_defect h
    rw [resolveWithin_succ rfl ht] at h
    cases hd : t.definition.userId? with
    | none =>
      rw [resolveWithin_of_userId?_eq_none hd] at h
      cases h
    | some j =>
      rw [resolveWithin_user hd] at h
      have hij : reg.Leads i j := ⟨t, ht, hd⟩
      obtain ⟨u, hu⟩ := exists_find?_of_defect h
      obtain ⟨hmem, rfl⟩ := mem_types_of_find? hu
      have hj : reg.ComesRound u.id ∨
          (Inside reg.Leads (reg.types.map (·.id)) root u.id (u.id :: around) ∧
            reg.size < hops + (u.id :: around).length) := by
        by_cases hround : reg.ComesRound u.id
        · exact .inl hround
        · obtain ⟨hinside, hlt⟩ := hi.resolve_left fun h => hround (h.leads hij)
          refine .inr ⟨hinside.push hij (List.mem_map_of_mem hmem) hround, ?_⟩
          rw [List.length_cons]
          omega
      obtain ⟨k, rfl, hjk, hk⟩ := ih hj h
      exact ⟨k, rfl, .head hij hjk, hk⟩

/-- Resolution gives up in front of a round only. As many steps as there are types are enough for
    any chain that ends. -/
theorem comesRound_of_resolve (h : reg.resolve a = .error (.defect d)) :
    ∃ id, d = .circularAlias id ∧ reg.ComesRound id ∧ reg.Endless a := by
  unfold resolve at h
  cases ha : a.userId? with
  | none =>
    rw [resolveWithin_of_userId?_eq_none ha] at h
    cases h
  | some i =>
    rw [resolveWithin_user ha] at h
    obtain ⟨t, ht⟩ := exists_find?_of_defect h
    obtain ⟨hmem, rfl⟩ := mem_types_of_find? ht
    have hroot : t.id ∈ reg.types.map (·.id) := List.mem_map_of_mem hmem
    have hinside : Inside reg.Leads (reg.types.map (·.id)) t.id t.id [t.id] :=
      ⟨by simp, by simp, by simpa using hroot, by simp [ReflTransGen.refl], .refl⟩
    obtain ⟨id, hd, hlead, hround⟩ :=
      comesRound_of_resolveWithin (.inr ⟨hinside, Nat.lt_succ_self reg.size⟩) h
    exact ⟨id, hd, hround, endless_of_comesRound ha hlead hround⟩

/-- Resolution finds the attribute that the chain of references ends at, or the missing type that it
    comes to. It gives up exactly on a chain without end, and then names a type that is an alias of
    itself. -/
theorem resolve_iff_chain (reg : Registry) (a : Attribute) :
    (∀ r, reg.resolve a = .ok r ↔ reg.EndsAt a r) ∧
    (∀ id, reg.resolve a = .error (.unknownType id) ↔ reg.Dangles a id) ∧
    ((∃ d, reg.resolve a = .error (.defect d)) ↔ reg.Endless a) ∧
    (reg.Endless a ↔
      ∃ id, reg.resolve a = .error (.defect (.circularAlias id)) ∧ reg.ComesRound id) := by
  have hstops := stops_of_resolveWithin reg reg.size a
  -- The three outcomes exclude each other, as do the three ways that a chain can go. So each
  -- equivalence follows from one direction.
  cases ho : reg.resolve a with
  | ok r =>
    have hends := hstops.1 r ho
    have hiff : ∀ x, reg.EndsAt a x ↔ r = x := fun x => ⟨hends.unique, fun h => h ▸ hends⟩
    have hdangles : ∀ id, ¬ reg.Dangles a id := fun _ => hends.not_dangles
    simp [hiff, hdangles, hends.not_endless]
  | error f =>
    rcases resolveWithin_error ho with ⟨i, rfl⟩ | ⟨i, rfl⟩
    · have hdangles := hstops.2 i ho
      have hiff : ∀ id, reg.Dangles a id ↔ i = id :=
        fun _ => ⟨hdangles.unique, fun h => h ▸ hdangles⟩
      have hends : ∀ r, ¬ reg.EndsAt a r := fun _ h => h.not_dangles hdangles
      simp [hiff, hends, hdangles.not_endless]
    · obtain ⟨id, hid, hround, hendless⟩ := comesRound_of_resolve ho
      cases hid
      have hends : ∀ r, ¬ reg.EndsAt a r := fun _ h => h.not_endless hendless
      have hdangles : ∀ id, ¬ reg.Dangles a id := fun _ h => h.not_endless hendless
      simp [hends, hdangles, hendless, hround]

/-- A chain through all types of a registry. -/
def longestChain : Registry where
  types := [{ id := "a", definition := .user "b" }, { id := "b", definition := .user "c" },
    { id := "c", definition := { type := .primitive .string } }]
  nodup := by decide

example : longestChain.resolve (.user "a") = .ok { type := .primitive .string } := rfl

end Registry
end Shapewright
