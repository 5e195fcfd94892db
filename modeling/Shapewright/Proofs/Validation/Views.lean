import Shapewright.Proofs.Validation.Straying

/-!
# Values seen under a view

A validator knows under which view it sees a value. The view gets lost in a field without a tag,
unless the field refers to a type with views or is an array in place of such references; and inside
a value without a view there are only values without one.

## Without a view

A validator of a type as a whole never meets a view, and neither do the validators that it calls.
Nothing can stray then, which makes the case without a view the simple one: in a sound registry the
validators are always built (`compileAll_none_failsOnly`).

## With a view

The view that a field is seen under is its tag, or else the default view if the field is, or in
place holds, a reference to a result (`nestedView_eq_some`). The elements of an array in place
inherit the view, and what a reference leads to is the business of another validator. So the places
inside such a field are easily listed (`inside_refers`), and no induction over the nesting is needed
for them.
-/

namespace Shapewright
namespace Validation

open Relation

variable {v : Validation} {y z : Place} {s : Subject} {a : Attribute} {name : String}
  {tag : Option String}

/-- A field of a value without a view has none. Otherwise the view is found for the field. So a walk
    that starts without a view stays without one, up to where a value is handed over. -/
theorem view_of_fieldPosition {required : List String} {p q : Position} {pointer : Bool}
    (h : v.fieldPosition required p name a tag = .ok (pointer, q)) :
    (p.view = none ∧ q.view = none) ∨ (p.view.isSome ∧ v.nestedView a tag = .ok q.view) := by
  unfold fieldPosition at h
  obtain ⟨_, -, h⟩ := except_bind_eq_ok.mp h
  dsimp only at h
  split at h
  · rename_i hp
    obtain ⟨view, hview, h⟩ := except_bind_eq_ok.mp h
    cases h
    exact .inr ⟨hp, hview⟩
  · rename_i hp
    cases h
    exact .inl ⟨by simpa using hp, rfl⟩

/-- Inside a value without a view there are only values without one. -/
theorem Inner.view_eq_none (h : v.Inner y z) (hy : y.position.view = none) :
    z.position.view = none := by
  cases h with
  | field ht hf hz =>
    rcases view_of_fieldPosition hz.2 with ⟨-, hz⟩ | ⟨hsome, -⟩
    · exact hz
    · simp [hy] at hsome
  | element ht => exact hy

theorem view_eq_none_of_inside (h : ReflTransGen v.Inner y z) (hy : y.position.view = none) :
    z.position.view = none := by
  induction h with
  | refl => exact hy
  | tail _ hinner ih => exact hinner.view_eq_none ih

/-- A subject without a view looks at values without views. -/
theorem view_eq_none_of_looks (hs : s.view = none) (h : v.Looks s z) : z.position.view = none := by
  obtain ⟨y, hy, hz⟩ := h
  refine view_eq_none_of_inside hz ?_
  cases hy with
  | field hd ht hf hy =>
    rcases view_of_fieldPosition hy.2 with ⟨-, hy⟩ | ⟨hsome, -⟩
    · exact hy
    · simp [argument, hs] at hsome
  | element hd ht => exact hs

/-- Without a view, values are handed over without one. -/
theorem view_eq_none_of_reached {root : Subject} (hroot : root.view = none)
    (h : ReflTransGen v.Delegates root s) : s.view = none := by
  induction h with
  | refl => exact hroot
  | tail _ hstep ih =>
    obtain ⟨z, hz, hover⟩ := hstep
    obtain ⟨-, -, -, hsubject⟩ := hover
    rw [view_eq_none_of_looks ih hz] at hsubject
    cases hsubject
    rfl

/-- The validators of a type without a view can always be built. -/
theorem compileAll_none_failsOnly {id : TypeId} {t : UserType} (hs : v.registry.Sound)
    (hscope : v.scope = .ofRegistry v.registry) (ht : v.registry.find? id = some t) :
    (v.compileAll id none).FailsOnly fun _ => False := by
  have hsubject : v.subject id none = .ok ⟨id, none⟩ := rfl
  refine (compileAll_failsOnly hs hscope (declared_of_subject hsubject) ht hsubject).mono ?_
  intro f hf
  obtain ⟨s, z, hreached, hz, hstray⟩ := hf
  have hview := view_eq_none_of_looks (view_eq_none_of_reached rfl hreached) hz
  simpa [hview] using hstray.isSome_view

/-- The attribute is a reference, or an array in place of references. -/
def Refers (a : Attribute) : Prop :=
  a.userId?.isSome ∨ ∃ elem, a.type = .array elem ∧ elem.userId?.isSome

/-- Inside a reference is nothing, inside an array of references are its elements. A place inside
    another is not followed through references, so it goes no deeper. -/
theorem inside_refers (ha : Refers y.attr) (h : ReflTransGen v.Inner y z) :
    z = y ∨ ∃ elem, y.attr.type = .array elem ∧ z = elementPlace y.position elem := by
  have leaf : ∀ {x w : Place}, x.attr.userId?.isSome → ¬ v.Inner x w := by
    intro x w hx hi
    simp [hi.kind.1] at hx
  rcases ha with hu | ⟨elem, ht, hu⟩
  · exact .inl ((within_leaf fun _ => leaf hu).mp ⟨y, List.mem_singleton_self y, h⟩)
  · rcases (within_singleton fun _ => inner_collection (.inl ht)).mp
      ⟨y, List.mem_singleton_self y, h⟩ with hz | hz
    · exact .inl hz
    · exact .inr ⟨elem, ht, (within_leaf fun _ => leaf hu).mp hz⟩

/-- If a field is seen under a view, that is the one of its tag, or the default view of what it
    refers to. -/
theorem nestedView_eq_some (h : v.nestedView a tag = .ok (some name)) :
    tag = some name ∨ tag = none ∧ name = defaultView ∧ Refers a := by
  unfold nestedView at h
  split at h
  · cases h
    exact .inl rfl
  · rename_i htag
    obtain ⟨elem, helem, h⟩ := except_bind_eq_ok.mp h
    dsimp only at h
    split at h
    · rename_i id hid
      obtain ⟨t, -, h⟩ := except_bind_eq_ok.mp h
      simp only [except_pure_eq_ok] at h
      split at h
      · cases h
      · cases h
        refine .inr ⟨by simpa using htag, rfl, ?_⟩
        -- The type that is asked for its kind is that of the attribute, or that of the elements
        -- where the attribute is an array in place.
        cases hu : a.userId? with
        | some i => exact .inl (by rw [hu]; rfl)
        | none =>
          cases elem with
          | none => simp [hu] at hid
          | some x =>
            obtain ⟨r, hr, hx⟩ := Registry.elem?_eq_some.mp helem
            rw [Registry.resolve_of_userId?_eq_none hu] at hr
            cases hr
            exact .inr ⟨x, hx, by simpa using Option.isSome_iff_exists.mpr ⟨id, hid⟩⟩
    · cases h

end Validation
end Shapewright
