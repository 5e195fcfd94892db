import Shapewright.Proofs.Scope
import Shapewright.Proofs.Validation.Safety

/-!
# The names of validators

The name of a validator is that of its type with the identifier of its view behind it. The default
view leaves nothing behind the name, nor does no view; two views can have one identifier; and the
identifier of a view can continue the name of one type to that of another. These are all the ways in
which two subjects get validators of one name: the validators of a type have different names exactly
if no two of their subjects are namesakes.

## How names can agree

A name is put together from two strings, that of the type and what stands behind it, and the seam is
not marked. Two such names agree if both parts agree, or if the first part of one is longer and the
other makes up for it behind the seam (`append_eq_append_cases`). The first case leaves the two ways
of `Namesakes` for one type, the second the way for two.

Names of types are different within a registry (`Scope.name_injective`), so subjects of two types
never agree in both parts. That is used only here and only in one direction: namesakes get the same
name in any scope.
-/

namespace Shapewright
namespace Validation

open Relation

/-- What the name of a validator has behind the name of the type. -/
def Subject.suffix (s : Subject) : String := (s.view.map viewSuffix).getD ""

/-- One name is made for both subjects. The name of a function is that of the type and that of the
    view, joined without a mark and without the default view. -/
inductive Namesakes (v : Validation) (s s' : Subject) : Prop
  /-- A type as a whole, and under its default view. -/
  | whole (ht : s.type = s'.type) (hs : s.view = none) (hs' : s'.view = some defaultView)
  /-- A type under two views with one identifier. -/
  | views {view view' : String} (ht : s.type = s'.type) (hs : s.view = some view)
      (hs' : s'.view = some view') (hd : view ≠ defaultView) (hd' : view' ≠ defaultView)
      (hne : view ≠ view') (he : Identifier.exported view = Identifier.exported view')
  /-- The view of the first starts with what the name of the second type has more. -/
  | types {name more view : String} (hn : v.scope.name s.type = .ok name)
      (hn' : v.scope.name s'.type = .ok (name ++ more)) (hne : more ≠ "") (hs : s.view = some view)
      (hd : view ≠ defaultView) (he : Identifier.exported view = more ++ s'.suffix)

/-- The subject has a validator among those of `root`. The root is one of them, if any is. -/
def Validated (v : Validation) (root s : Subject) : Prop :=
  ReflTransGen v.Delegates root s ∧ v.Needed s

variable {v : Validation} {s s' root : Subject} {name name' view view' : String}
  {listed : List (Subject × Func)}

/-! ## What stands behind the name of the type -/

theorem suffix_none (h : s.view = none) : s.suffix = "" := by
  rw [Subject.suffix, h]
  rfl

theorem suffix_default (h : s.view = some defaultView) : s.suffix = "" := by
  rw [Subject.suffix, h]
  rfl

theorem suffix_some (h : s.view = some view) (hd : view ≠ defaultView) :
    s.suffix = Identifier.exported view := by
  rw [Subject.suffix, h, Option.map_some, Option.getD_some, viewSuffix_of_ne hd]

/-- Nothing stands behind the name, or the identifier of a view. -/
theorem suffix_cases (s : Subject) : (s.suffix = "" ∧ (s.view = none ∨ s.view = some defaultView)) ∨
    ∃ view, s.view = some view ∧ view ≠ defaultView ∧ s.suffix = Identifier.exported view := by
  cases h : s.view with
  | none => exact .inl ⟨suffix_none h, .inl rfl⟩
  | some view =>
    by_cases hd : view = defaultView
    · subst hd
      exact .inl ⟨suffix_default h, .inr rfl⟩
    · exact .inr ⟨view, rfl, hd, suffix_some h hd⟩

/-- Two subjects of one type leave the same behind its name only as namesakes. The suffix is made of
    the view, and is empty for the default view and for none. -/
theorem namesakes_of_suffix_eq (ht : s.type = s'.type) (h : s.suffix = s'.suffix) :
    s = s' ∨ v.Namesakes s s' ∨ v.Namesakes s' s := by
  have same : ∀ {view}, s.view = view → s'.view = view → s = s' := by
    intro view hs hs'
    obtain ⟨type, view⟩ := s
    obtain ⟨type', view'⟩ := s'
    cases ht
    cases hs
    cases hs'
    rfl
  -- Each of the two has an empty suffix or one with the identifier of a view, which is not empty.
  rcases suffix_cases s with ⟨he, hv⟩ | ⟨view, hv, hd, he⟩ <;>
    rcases suffix_cases s' with ⟨he', hv'⟩ | ⟨view', hv', hd', he'⟩
  · rcases hv with hv | hv <;> rcases hv' with hv' | hv'
    · exact .inl (same hv hv')
    · exact .inr (.inl (.whole ht hv hv'))
    · exact .inr (.inr (.whole ht.symm hv' hv))
    · exact .inl (same hv hv')
  · exact absurd (he'.symm.trans (h.symm.trans he)) (exported_ne_empty view')
  · exact absurd (he.symm.trans (h.trans he')) (exported_ne_empty view)
  · by_cases hsame : view = view'
    · exact .inl (same hv (hsame ▸ hv'))
    · exact .inr (.inl (.views ht hv hv' hd hd' hsame (he.symm.trans (h.trans he'))))

/-! ## Namesakes -/

/-- A validator is named after its type, with the suffix behind. -/
theorem functionName_eq_ok : v.functionName s.type s.view = .ok name ↔
    ∃ typeName, v.scope.name s.type = .ok typeName ∧
      name = "Validate" ++ typeName ++ s.suffix := by
  unfold functionName
  rw [except_bind_eq_ok]
  refine exists_congr fun typeName => and_congr_right fun _ => ?_
  rw [except_pure_eq_ok, eq_comm]
  rfl

/-- What the longer of two names has more is taken from what stands behind the shorter one. -/
theorem namesakes_of_longer {more : String} (hn : v.scope.name s.type = .ok name)
    (hn' : v.scope.name s'.type = .ok (name ++ more)) (hne : more ≠ "")
    (h : s.suffix = more ++ s'.suffix) : v.Namesakes s s' := by
  rcases suffix_cases s with ⟨he, -⟩ | ⟨view, hv, hd, he⟩
  · rw [he] at h
    exact absurd (String.append_eq_empty_iff.mp h.symm).1 hne
  · exact .types hn hn' hne hv hd (he.symm.trans h)

/-- Namesakes have the same name. So they are what `functionName_eq_iff` has for its exceptions. -/
theorem Namesakes.append_eq (h : v.Namesakes s s') (hn : v.scope.name s.type = .ok name)
    (hn' : v.scope.name s'.type = .ok name') : name ++ s.suffix = name' ++ s'.suffix := by
  cases h with
  | whole ht hs hs' =>
    rw [ht, hn'] at hn
    cases hn
    rw [suffix_none hs, suffix_default hs']
  | views ht hs hs' hd hd' hne he =>
    rw [ht, hn'] at hn
    cases hn
    rw [suffix_some hs hd, suffix_some hs' hd', he]
  | types hm hm' hne hs hd he =>
    rw [hn] at hm
    rw [hn'] at hm'
    cases hm
    cases hm'
    rw [suffix_some hs hd, he, String.append_assoc]

/-- Namesakes are two subjects. -/
theorem Namesakes.ne (h : v.Namesakes s s') : s ≠ s' := by
  intro heq
  subst heq
  cases h with
  | whole ht hs hs' => simp [hs] at hs'
  | views ht hs hs' hd hd' hne he =>
    rw [hs] at hs'
    exact hne (Option.some.inj hs')
  | types hn hn' hne hs hd he =>
    rw [hn] at hn'
    exact hne (String.append_eq_left_iff.mp (Except.ok.inj hn').symm)

/-- Types of a registry have different names. So either the types are the same, or one has the
    longer name. -/
theorem functionName_eq_iff (hscope : v.scope = .ofRegistry v.registry)
    (h : v.functionName s.type s.view = .ok name)
    (h' : v.functionName s'.type s'.view = .ok name') :
    name = name' ↔ s = s' ∨ v.Namesakes s s' ∨ v.Namesakes s' s := by
  obtain ⟨n, hn, rfl⟩ := functionName_eq_ok.mp h
  obtain ⟨n', hn', rfl⟩ := functionName_eq_ok.mp h'
  rw [String.append_assoc, String.append_assoc, String.append_right_inj]
  constructor
  · intro heq
    by_cases ht : s.type = s'.type
    · rw [ht, hn'] at hn
      cases hn
      exact namesakes_of_suffix_eq ht (String.append_right_inj _ |>.mp heq)
    · have hne : n ≠ n' := by
        intro hsame
        rw [hscope] at hn hn'
        exact ht (Scope.name_injective hn (hsame ▸ hn'))
      -- The names of the types are different, so one of them is longer.
      rcases append_eq_append_cases heq hne with ⟨more, hmore, rfl, hs⟩ | ⟨more, hmore, rfl, hs⟩
      · exact .inr (.inl (namesakes_of_longer hn hn' hmore hs))
      · exact .inr (.inr (namesakes_of_longer hn' hn hmore hs))
  · intro hsame
    rcases hsame with rfl | h | h
    · rw [hn] at hn'
      cases hn'
      rfl
    · exact h.append_eq hn hn'
    · exact (h.append_eq hn' hn).symm

/-! ## The validators of a type -/

/-- The names of the validators that are listed are different exactly if no namesakes have
    validators. -/
theorem Listed.nodup_names (h : v.Listed root listed) (hscope : v.scope = .ofRegistry v.registry) :
    ((listed.map Prod.snd).map (·.name)).Nodup ↔
      ∀ s s', v.Validated root s → v.Validated root s' → ¬ v.Namesakes s s' := by
  have hname : ∀ x ∈ listed, v.functionName x.1.type x.1.view = .ok x.2.name := by
    intro x hx
    obtain ⟨checks, -, hf⟩ := h.built x hx
    exact (func_eq_ok hf).1
  -- The subjects of the list are different, so names come twice only where two subjects have one
  -- name.
  rw [List.map_map, List.nodup_map_iff_inj_on h.nodup.of_map]
  constructor
  · intro hinj s s' hs hs' hsame
    obtain ⟨x, hx, rfl⟩ := List.mem_map.mp ((h.mem_iff s).mpr hs)
    obtain ⟨y, hy, rfl⟩ := List.mem_map.mp ((h.mem_iff s').mpr hs')
    have hnames := (functionName_eq_iff hscope (hname x hx) (hname y hy)).mpr (.inr (.inl hsame))
    exact hsame.ne (congrArg Prod.fst (hinj x hx y hy hnames))
  · intro hno x hx y hy hnames
    have hvx := (h.mem_iff x.1).mp (List.mem_map_of_mem hx)
    have hvy := (h.mem_iff y.1).mp (List.mem_map_of_mem hy)
    rcases (functionName_eq_iff hscope (hname x hx) (hname y hy)).mp hnames with heq | hs | hs
    · exact List.inj_on_of_nodup_map h.nodup hx hy heq
    · exact absurd hs (hno _ _ hvx hvy)
    · exact absurd hs (hno _ _ hvy hvx)

/-- The validators of a type have different names exactly if no two of their subjects are namesakes.
    Subjects are namesakes in three ways: a type as a whole and under its default view, a type under
    two views with one identifier, and two types of which one has a name that goes on with what the
    view of the other starts with. -/
theorem compileAll_names (v : Validation) (hscope : v.scope = .ofRegistry v.registry) (id : TypeId)
    (view : Option String) (funcs : List Func) (h : (v.compileAll id view).Yields funcs) :
    ∃ root, v.subject id view = .ok root ∧ ((funcs.map (·.name)).Nodup ↔
      ∀ s s', v.Validated root s → v.Validated root s' → ¬ v.Namesakes s s') := by
  obtain ⟨root, listed, hroot, rfl, hl⟩ := (compileAll_listed v id view).2 funcs h
  exact ⟨root, hroot, hl.nodup_names hscope⟩

/-- Accounts that show the account that opened them under a view of its own. -/
def accountValidation : Validation where
  scope := .ofRegistry {
    types := [{
      id := "account", name := "Account", kind := .result
      definition := {
        type := .object [
          ("name", { type := .primitive .string, rules := { minLength := some 1 } }),
          ("opener", .user "account")] }
      views := [
        { name := "default", attributes := [.name "name", .tagged "opener" (some "tiny")] },
        { name := "tiny", attributes := [.name "name"] }] }] }
  context := .service

/-- The two validators of accounts, for the default view and for the tiny one, have different
    names. -/
theorem compileAll_names_accounts : ∃ funcs,
    accountValidation.scope = .ofRegistry accountValidation.registry ∧
    ((accountValidation.compileAll "account" (some "default")).Yields funcs ∧
      funcs.map (·.name) = ["ValidateAccount", "ValidateAccountTiny"]) ∧
    ∃ root, accountValidation.subject "account" (some "default") = .ok root ∧
      ((funcs.map (·.name)).Nodup ↔ ∀ s s', accountValidation.Validated root s →
        accountValidation.Validated root s' → ¬ accountValidation.Namesakes s s') := by
  obtain ⟨funcs, h⟩ : ∃ funcs, (accountValidation.compileAll "account" (some "default")).Yields
      funcs ∧ funcs.map (·.name) = ["ValidateAccount", "ValidateAccountTiny"] := by
    decide +kernel
  exact ⟨funcs, rfl, h, compileAll_names accountValidation rfl "account" (some "default") funcs h.1⟩

/-- Nodes that hold other nodes by name. -/
def nodeValidation : Validation where
  scope := .ofRegistry {
    types := [{
      id := "Node", name := "Node", kind := .result
      definition := {
        type := .object [
          ("name", { type := .primitive .string, rules := { minLength := some 1 } }),
          ("children", { type := .map { type := .primitive .string } (.user "Node") })] }
      views := [{ name := "default", attributes := [.name "name", .name "children"] }] }] }
  context := .service

/-- A node is validated under its default view, and the nodes that it holds as a whole: two
    functions of one name. -/
theorem compileAll_nodes_namesakes : ∃ funcs,
    (nodeValidation.compileAll "Node" (some "default")).Yields funcs ∧
    ¬ (funcs.map (·.name)).Nodup := by
  decide +kernel

end Validation
end Shapewright
