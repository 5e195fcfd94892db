import Shapewright.Proofs.Conversion.Plans
import Shapewright.Proofs.Conversion.Variables
import Shapewright.Proofs.Loops

/-!
# Loops do not rebind what loops around them bind

A loop has variables of its own depth, and no variable belongs to two depths. So it is enough that
the depth of a site is the number of loops around its code, which each emitter keeps up: an array
and a map count one more for what is in their loop, everything else hands the depth on, and the body
of a helper starts anew.

## Names of a depth

The names come from two schemes that change with the depth, from letters to numbers, and not at the
same depth for indices as for the variables of maps. That no name belongs to two depths is shown
where the names are made (`loopVariables`). All that is needed here is that the loops of a nest have
consecutive depths (`Numbered`), and from this both parts of `Block.LoopsApart` follow.

## What is stored last

That the variables of a map are those of its depth is one thing; that code in place of an array does
not look like it had such variables is another. The last statement of an array's body stores what
the site of its elements stores, or no pair of variables at all. So the emitters keep up two things
together (`Site.Counts`): the numbers of loops, and which pair their code stores in the end. The
second is what a loop around the code is asked for, and only there.
-/

namespace Shapewright

open Conversion (loopIndex loopValue loopKey loopNewKey loopNewValue loopVariables loopScope)

/-! ## Loops of a depth -/

/-- The loop has the variables for a depth: over a map two more than it binds, over an array no
    more. -/
inductive Loop.IsAt (depth : Nat) (l : Loop) : Prop where
  | array (hb : l.binds = [loopIndex depth, loopValue depth]) (ht : l.temporaries ⊆ l.binds)
  | map (hb : l.binds = [loopKey depth, loopValue depth])
      (ht : l.temporaries = [loopNewKey depth, loopNewValue depth])

/-- The loops of the nest have the depths from the first one on. This is what the emitters keep up,
    and all that is said about names follows from it. -/
inductive Numbered : Nat → List Loop → Prop
  | nil (depth : Nat) : Numbered depth []
  | cons {depth : Nat} {l : Loop} {inner : List Loop} (hl : l.IsAt depth)
      (hinner : Numbered (depth + 1) inner) : Numbered depth (l :: inner)

/-- Inside of some loops, the loops of the block are numbered as they are nested. None has a
    variable of a loop around it, whether that is in the block or one of those around the block. -/
structure Block.LoopsApart (depth : Nat) (b : Block) : Prop where
  numbered : ∀ nest ∈ b.nests, Numbered depth nest
  apart : ∀ nest ∈ b.nests, nest.Pairwise fun outer inner =>
    (inner.binds ++ inner.temporaries).Disjoint (outer.binds ++ outer.temporaries)
  around : ∀ nest ∈ b.nests, ∀ l ∈ nest,
    (l.binds ++ l.temporaries).Disjoint (loopScope depth)

/-- The loop has no other variables than those of its depth. So to keep two loops apart it is enough
    to keep their depths apart. -/
theorem Loop.IsAt.subset {l : Loop} {depth : Nat} (h : l.IsAt depth) :
    l.binds ++ l.temporaries ⊆ loopVariables depth := by
  cases h with
  | array hb ht =>
    have hbinds : l.binds ⊆ loopVariables depth := by
      rw [hb]
      simp [List.cons_subset]
    exact List.append_subset.mpr ⟨hbinds, List.Subset.trans ht hbinds⟩
  | map hb ht =>
    rw [hb, ht]
    simp [List.cons_subset]

section

variable {depth : Nat} {nest : List Loop} {l : Loop} (h : Numbered depth nest)
include h

/-- No loop of the nest has a smaller depth than the first one. -/
theorem Numbered.depth_le (hl : l ∈ nest) : ∃ d ≥ depth, l.IsAt d := by
  induction h with
  | nil => exact absurd hl List.not_mem_nil
  | cons hat _ ih =>
    rcases List.mem_cons.mp hl with rfl | hl
    · exact ⟨_, Nat.le_refl _, hat⟩
    · obtain ⟨d, hd, hat⟩ := ih hl
      exact ⟨d, Nat.le_of_succ_le hd, hat⟩

/-- The loops of a nest have different depths, so no two of them have a variable in common. -/
theorem Numbered.apart : nest.Pairwise fun outer inner =>
    (inner.binds ++ inner.temporaries).Disjoint (outer.binds ++ outer.temporaries) := by
  induction h with
  | nil => exact .nil
  | cons hat hinner ih =>
    refine .cons (fun m hm x hx hx' => ?_) ih
    obtain ⟨d, hd, hm⟩ := hinner.depth_le hm
    have heq := Conversion.eq_of_mem_loopVariables (hm.subset hx) (hat.subset hx')
    omega

theorem Numbered.around (hl : l ∈ nest) :
    (l.binds ++ l.temporaries).Disjoint (loopScope depth) := by
  obtain ⟨d, hd, hat⟩ := h.depth_le hl
  exact fun x hx hscope => Conversion.loopScope_disjoint hscope hd (hat.subset hx)

end

theorem Block.loopsApart_of_numbered {depth : Nat} {b : Block}
    (h : ∀ nest ∈ b.nests, Numbered depth nest) : b.LoopsApart depth where
  numbered := h
  apart nest hn := (h nest hn).apart
  around nest hn _ hl := (h nest hn).around hl

/-- A loop in front of the nests in its body. -/
theorem numbered_range {depth : Nat} {key value : Option String} {whole : Expr} {body : Block}
    (hl : Loop.IsAt depth ⟨key, value, body⟩) (h : ∀ nest ∈ body.nests, Numbered (depth + 1) nest) :
    ∀ nest ∈ (Stmt.range key value whole body).nests, Numbered depth nest := by
  rw [Stmt.nests_range, List.forall_mem_cons]
  refine ⟨.cons hl (.nil _), fun nest hn => ?_⟩
  obtain ⟨inner, hinner, rfl⟩ := List.mem_map.mp hn
  exact .cons hl (h inner hinner)

/-! ## Code that counts loops -/

/-- The code counts the loops that are around it, and it does not end with storing a pair of
    variables. -/
structure Block.Counted (depth : Nat) (b : Block) : Prop where
  numbered : ∀ nest ∈ b.nests, Numbered depth nest
  unpaired : b.lastPair = []

/-- The code of a site counts the loops that are around it. It ends with storing a pair of variables
    only if the site consists of that pair. -/
structure Site.Counts (s : Site) (b : Block) : Prop where
  numbered : ∀ nest ∈ b.nests, Numbered s.depth nest
  stores : b.lastPair ⊆ (s.store s.value).pair

namespace Block.Counted

variable {depth : Nat} {a b : Block} {stmt : Stmt}

/-- An empty block has no loops and stores nothing. -/
theorem nil (depth : Nat) : Counted depth [] := ⟨nofun, rfl⟩

theorem single (hn : ∀ nest ∈ stmt.nests, Numbered depth nest) (hp : stmt.pair = []) :
    Counted depth [stmt] where
  numbered := by rwa [nests_cons, nests_nil, List.append_nil]
  unpaired := hp

/-- A check counts the loops that are in it. -/
theorem when {test : Expr} (h : ∀ nest ∈ b.nests, Numbered depth nest) :
    Counted depth [.when test b] :=
  single (by rwa [Stmt.nests_when]) rfl

/-- One block behind another counts loops if both do. -/
theorem append (ha : Counted depth a) (hb : Counted depth b) : Counted depth (a ++ b) where
  numbered := by
    rw [nests_append]
    exact List.forall_mem_append.mpr ⟨ha.numbered, hb.numbered⟩
  unpaired := by
    refine List.eq_nil_iff_forall_not_mem.mpr fun x hx => ?_
    rcases mem_lastPair_append hx with hx | hx
    · exact List.not_mem_nil (ha.unpaired ▸ hx)
    · exact List.not_mem_nil (hb.unpaired ▸ hx)

/-- Blocks in a row count loops if each of them does. -/
theorem flatMap {α : Type} {xs : List α} {g : α → Block} (h : ∀ x ∈ xs, Counted depth (g x)) :
    Counted depth (xs.flatMap g) := by
  induction xs with
  | nil => exact nil depth
  | cons x rest ih =>
    rw [List.forall_mem_cons] at h
    rw [List.flatMap_cons]
    exact h.1.append (ih h.2)

end Block.Counted

namespace Site

variable {s : Site} {b : Block} {e : Expr}

theorem store_counted (s : Site) (depth : Nat) (he : ∀ x, e ≠ .ident x) :
    Block.Counted depth [s.store e] :=
  .single (by simp [store]) (Stmt.pair_of_value he)

theorem store_make_counted (s : Site) (depth : Nat) (type : TypeRef) (size : Expr) :
    Block.Counted depth [s.store (.make type size)] :=
  s.store_counted depth nofun

/-- To store a new object is to store no pair of variables. -/
theorem store_allocate_counted (s : Site) (depth : Nat) (type : TypeRef)
    (fields : List (String × Expr)) : Block.Counted depth [s.store (.allocate type fields)] := by
  refine s.store_counted depth fun x => ?_
  unfold Expr.allocate
  split
  · exact nofun
  · exact nofun

theorem Counts.of_counted (h : Block.Counted s.depth b) : s.Counts b :=
  ⟨h.numbered, h.unpaired ▸ List.nil_subset _⟩

/-- Where the site is no pair of variables, its code does not end with storing one. -/
theorem Counts.counted (h : s.Counts b) (hs : (s.store s.value).pair = []) :
    Block.Counted s.depth b :=
  ⟨h.numbered, List.subset_nil.mp (hs ▸ h.stores)⟩

theorem counts_store_value (s : Site) : s.Counts [s.store s.value] :=
  ⟨by simp [store], List.Subset.refl _⟩

end Site

namespace Conversion

variable {c : Conversion} {emit : Emit} {s t : Site} {b : Block} {f : FieldSite} {depth : Nat}

/-! ## Primitives and fields -/

section Fields

variable (hf : ∀ e i, f.place ≠ .index e i)
include hf

theorem set_counted (depth : Nat) (e : Expr) : Block.Counted depth [.set f.place e] :=
  .single (by simp) (Stmt.pair_of_place hf)

/-- The code of a primitive field has no loops and stores in the field. -/
theorem primitiveFieldCode_counted (depth : Nat) (taken : List String) (result : Option Expr) :
    Block.Counted depth (primitiveFieldCode f taken result).after := by
  have present : ∀ {code : Block}, Block.Counted depth code →
      Block.Counted depth [f.ifPresent code] := fun h => .when h.numbered
  unfold primitiveFieldCode
  split
  · rename_i e
    have hstore : Block.Counted depth (storeConverted f taken e) := by
      unfold storeConverted
      split
      -- A temporary is no element of anything, so storing in it pairs up no variables of a loop.
      · have hheld : (Stmt.assign (.ident (temporary f.name taken)) e true).pair = [] :=
          Stmt.pair_of_place nofun
        exact (Block.Counted.single (by simp) hheld).append (set_counted hf depth _)
      · exact set_counted hf depth e
    split
    · exact .nil depth
    · dsimp only
      split
      · exact present hstore
      · exact hstore
  · split
    · split
      · exact .nil depth
      · exact present (set_counted hf depth _)
    · split
      · exact .nil depth
      · exact .nil depth

end Fields

/-- The code of a default has no loops and stores in the field. A default that is an array is
    written as a literal, and not built by a loop. -/
theorem laterDefault_counted (depth : Nat) (h : c.laterDefault f = .ok b) :
    Block.Counted depth b := by
  unfold laterDefault at h
  split at h
  · cases defaultField_shape h with
    | idle => exact .nil depth
    | held => exact .when (by simp)
    | stored => exact .when (by simp)
    | zero => exact .single (by simp) rfl
  · cases h
    exact .nil depth

/-- What is converted is no variable afterwards. -/
theorem converted?_ne_ident {x y : Attribute} {isPointer : Bool} {value e : Expr} {name : String}
    (h : c.converted? x y isPointer value = .ok (some e)) : e ≠ .ident name := by
  unfold converted? at h
  simp only [except_bind_eq_ok] at h
  obtain ⟨_, -, _, -, h⟩ := h
  rintro rfl
  split at h
  · cases h
  · cases h

/-- A primitive is stored as it is, or converted to something that is no variable. -/
theorem primitive_counts (h : (c.primitive s).Yields b) : s.Counts b := by
  unfold primitive at h
  simp only [Walk.yields_bind, Walk.yields_liftM, Walk.yields_pure] at h
  obtain ⟨result, hresult, rfl⟩ := h
  cases result with
  | none => exact s.counts_store_value
  | some e => exact .of_counted (s.store_counted _ fun _ => converted?_ne_ident hresult)

/-- The declaration of a variable has no loops. -/
theorem declaration_counted (depth : Nat) (h : (c.declaration s).Yields b) :
    Block.Counted depth b := by
  unfold declaration at h
  split at h
  · split at h
    · simp only [Walk.yields_bind, Walk.yields_liftM, Walk.yields_pure] at h
      obtain ⟨type, -, rfl⟩ := h
      exact .single (by simp) rfl
    · simp at h
  · rw [Walk.yields_pure] at h
    exact h ▸ .nil depth

/-! ## Nested code -/

/-- The emitter counts the loops around each site. The depth of a site is all that is known of what
    stands around it, and here it is shown to be right. -/
def CountsLoops (emit : Emit) : Prop := ∀ {t : Site} {b : Block}, (emit t).Yields b → t.Counts b

section

variable (he : CountsLoops emit)
include he

theorem nested_counts (h : (c.nested emit t).Yields b) : t.Counts b := by
  rcases nested_yields.mp h with ⟨-, name, -, rfl⟩ | ⟨-, h⟩
  · exact .of_counted (t.store_counted t.depth nofun)
  · exact he h

/-- What is converted behind the literal counts loops and stores in the field. The premise keeps the
    place apart from that of an element, which is what a loop stores in. -/
theorem laterValue_counted (hf : ∀ e i, f.place ≠ .index e i)
    (h : (c.laterValue emit depth f).Yields b) : Block.Counted depth b := by
  unfold laterValue at h
  split at h
  · rw [Walk.yields_pure] at h
    exact h ▸ .nil depth
  · obtain ⟨code, hcode, rfl⟩ := structuredField_yields.mp h
    have hcounts : (f.site depth).Counts code := nested_counts he hcode
    split
    · exact hcounts.counted (Stmt.pair_of_place hf)
    · exact .when hcounts.numbered

/-- The code of an object counts loops: all its pieces do, and each stores in a field. An object
    adds no loop of its own, so its pieces count from the depth of the object. -/
theorem object_counts (h : (c.object emit s).Yields b) : s.Counts b := by
  obtain ⟨v, w, fields, code, type, later, -, -, hfields, hcode, -, hlater, rfl⟩ := object_yields h
  have hplace : ∀ f ∈ fields, ∀ e i, f.place ≠ .index e i := by
    intro f hf e i
    obtain ⟨m, -, hm⟩ := forall₂_mem_right hfields hf
    rw [(fieldSite_describes hm).place]
    exact nofun
  have hafter : Block.Counted s.depth code.after := by
    obtain ⟨parts, -, hafter, hparts⟩ := primitiveFields_parts hcode
    rw [hafter]
    refine .flatMap fun part hpart => ?_
    obtain ⟨f, hf, result, -, rfl⟩ := forall₂_mem_right hparts hpart
    exact primitiveFieldCode_counted (hplace f (List.mem_of_mem_filter hf)) _ _ _
  have hlater : Block.Counted s.depth later := by
    obtain ⟨parts, rfl, hparts⟩ := laterFields_yields hlater
    refine .flatMap fun x hx => ?_
    obtain ⟨f, hf, hvalue, hdefault⟩ := forall₂_mem_right hparts hx
    exact (laterValue_counted he (hplace f hf) hvalue).append (laterDefault_counted _ hdefault)
  exact .of_counted ((s.store_allocate_counted _ _ _).append (hafter.append hlater))

/-! ## Arrays, maps and unions -/

/-- An array is one loop more for its elements, which are stored by an index. -/
theorem array_counts (h : (c.array emit s).Yields b) : s.Counts b := by
  obtain ⟨x, y, type, body, -, -, -, hbody, rfl⟩ := array_yields.mp h
  have hcounts : (s.element x y).Counts body := nested_counts he hbody
  have hat : Loop.IsAt s.depth ⟨some (loopIndex s.depth), some (loopValue s.depth), body⟩ :=
    .array rfl hcounts.stores
  exact .of_counted ((s.store_make_counted _ _ _).append
    (.single (numbered_range hat hcounts.numbered) rfl))

/-- A map is one loop more for its keys and elements. Its loop stores their pair in the end. The
    code inside is built one deeper, and all that stands between is the declaration of what the pair
    is made of. -/
theorem map_counts (h : (c.map emit s).Yields b) : s.Counts b := by
  obtain ⟨k, x, l, y, keyType, elemType, keyCode, elemCode, -, -, -, -, hkey, helem, rfl⟩ :=
    map_yields.mp h
  have hkeys : (s.key k l).Counts keyCode := nested_counts he hkey
  have helems : (s.entry x y).Counts elemCode := nested_counts he helem
  refine .of_counted ((s.store_make_counted _ _ _).append
    (.single (numbered_range (.map rfl ?_) ?_) rfl))
  -- -- The body of the loop ends with the pair of the two variables that it declares.
  · rw [Loop.temporaries, Block.lastPair_concat]
    rfl
  · rw [Block.nests_append, Block.nests_append]
    refine List.forall_mem_append.mpr ⟨List.forall_mem_append.mpr
      ⟨hkeys.numbered, helems.numbered⟩, ?_⟩
    simp

/-- A case of a switch has the loops of its alternative. It ends with no pair that a loop could
    see. -/
theorem alternative_numbered {v : UnionType} {index : Nat} {x y : Attribute}
    (h : (c.alternative emit s v index x y).Yields b) :
    ∀ nest ∈ b.nests, Numbered s.depth nest := by
  rcases alternative_yields.mp h with
    ⟨-, hcode⟩ | ⟨-, wrapper, -, ⟨-, -, rfl⟩ | ⟨-, code, hcode, rfl⟩⟩
  · have hcounts : (s.alternative x y).Counts b := nested_counts he hcode
    exact hcounts.numbered
  · simp
  · have hcounts : (s.wrapped x y).Counts code := he hcode
    rw [Block.nests_append]
    exact List.forall_mem_append.mpr ⟨hcounts.numbered, by simp⟩

/-- A switch has the loops of its cases and is no statement that stores a pair. -/
theorem union_counts (h : (c.union emit s).Yields b) : s.Counts b := by
  obtain ⟨u, v, declared, cases, -, hdeclared, hcases, rfl⟩ := union_yields h
  have hdeclared : Block.Counted s.depth declared := declaration_counted _ hdeclared
  refine .of_counted (hdeclared.append (.single (fun nest hn => ?_) rfl))
  rw [Stmt.nests, Block.mem_nests_cases] at hn
  obtain ⟨x, hx, hn⟩ := hn
  obtain ⟨q, -, index, hcode⟩ := forall₂_mem_right (cases_yields hcases) hx
  exact alternative_numbered he hcode nest hn

/-! ## Any site -/

/-- For every kind of value, loops are counted from the depth of the site. -/
theorem byKind_counts (h : (c.byKind emit s).Yields b) : s.Counts b := by
  obtain ⟨kind, target, -, -, ⟨-, -, rfl⟩ | ⟨-, h⟩⟩ := byKind_yields.mp h
  · exact s.counts_store_value
  · cases kind with
    | array => exact array_counts he h
    | map => exact map_counts he h
    | object => exact object_counts he h
    | union => exact union_counts he h
    | primitive _ => exact primitive_counts h

/-- The inside of a box is a field, so it is no pair of variables. To open one therefore leaves the
    depth as it is. -/
theorem attrVia_counts : CountsLoops (c.attrVia emit) := by
  intro t b h
  obtain ⟨inner, box, code, -, hcode, rfl, hbox⟩ := attrVia_yields h
  have hcounts := byKind_counts he hcode
  rcases hbox with ⟨rfl, rfl⟩ | ⟨why, hbox⟩
  · exact hcounts
  · cases unboxed_yields hbox with
    | target type =>
      have hinside := hcounts.counted (Stmt.pair_of_place nofun)
      exact .of_counted ((t.store_allocate_counted _ _ _).append hinside)
    | source => exact .of_counted (hcounts.counted (Stmt.pair_of_value nofun))

end

theorem attrWithin_counts (c : Conversion) : ∀ levels, CountsLoops (c.attrWithin levels)
  | 0 => fun h => absurd h Walk.yields_exhausted
  | levels + 1 => attrVia_counts (attrWithin_counts c levels)

/-- A helper starts with no loop around it, and what stands around its code is none. A call within a
    loop does not nest the loops of the function that is called: they are counted from zero
    again. -/
theorem helper_loopsApart {name : String} {x : HelperSite} {k : Helper}
    (h : (c.helper name x).Yields k) : Block.LoopsApart 0 k.body := by
  obtain ⟨param, result, code, -, -, hcode, rfl⟩ := helper_yields.mp h
  have hcounts : x.inner.Counts code := attrWithin_counts c _ hcode
  have hguard : Block.Counted 0 x.guard := by
    unfold HelperSite.guard
    split
    · exact .nil 0
    · exact .when (by simp [Stmt.nests])
  refine Block.loopsApart_of_numbered fun nest hn => ?_
  rw [Block.nests_append, Block.nests_append, List.mem_append, List.mem_append] at hn
  rcases hn with (hn | hn) | hn
  · exact hguard.numbered nest hn
  · exact hcounts.numbered nest hn
  · simp [Stmt.nests] at hn

end Conversion

namespace Plan

/-- In the code of a request and in its helpers, every loop has variables of its own: neither a loop
    around it nor a map that is being filled there has a variable of the same name. The code is as
    many loops deep as the plan says, and a helper is not in a loop. -/
theorem compile_loops_apart (scope : Scope) (a b : Attribute) (value place : String)
    (declare : Bool) (p p' : Plan) (out : Conversion.Compiled)
    (h : (compile scope a b value place declare).run.run p = some (.ok out, p')) :
    out.body.LoopsApart p.depth ∧ ∀ k ∈ out.helpers, k.body.LoopsApart 0 := by
  rw [tracks_compile] at h
  obtain ⟨⟨o, met'⟩, hrun, heq⟩ := Option.map_eq_some_iff.mp h
  cases heq
  obtain ⟨hbody, made, hmade, hhelpers⟩ := Conversion.compile_yields.mp hrun
  constructor
  · have hcounts := Conversion.attrWithin_counts _ _ hbody
    exact Block.loopsApart_of_numbered hcounts.numbered
  · intro k hk
    obtain ⟨found, -, hmadeOf⟩ := Conversion.collect_factors (p := (a, b)) hmade
    rw [hhelpers] at hk
    obtain ⟨x, -, hyields⟩ :=
      forall₂_mem_right hmadeOf ((Conversion.sorted_perm made).mem_iff.mp hk)
    exact Conversion.helper_loopsApart hyields

/-- Arrays and maps in turn, around leaves. -/
def tower : Nat → Attribute
  | 0 => .user "Leaf"
  | levels + 1 =>
    if levels % 2 = 0 then { type := .array (tower levels) }
    else { type := .map { type := .primitive .string } (tower levels) }

/-- An array of strings. -/
def tags : Attribute := { type := .array { type := .primitive .string } }

def leafRegistry : Registry where
  types := [{ id := "Leaf", name := "Leaf", definition := { type := .object [("tags", tags)] } }]
  nodup := by decide

/-- Inside of sixteen loops. Indices are numbered from the nineteenth loop on, and the variables of
    maps from the twenty-seventh. -/
def deepPlan : Plan where
  source := .service
  target := .service
  depth := 16

/-- Twelve loops in code that is inside of sixteen others. The depths run from sixteen to
    twenty-seven, so they cross both depths at which letters give way to numbers. -/
theorem compile_loops_apart_tower : ∃ out p',
    (compile (.ofRegistry leafRegistry) (tower 12) (tower 12) "v" "res" true).run.run deepPlan =
      some (.ok out, p') ∧
    out.body.LoopsApart deepPlan.depth ∧ ∀ k ∈ out.helpers, k.body.LoopsApart 0 := by
  have hyields : ((compile (.ofRegistry leafRegistry) (tower 12) (tower 12) "v" "res"
      true).run.run deepPlan).map (·.1.isOk) = some true := by decide +kernel
  obtain ⟨⟨o, p'⟩, hrun, hok⟩ := Option.map_eq_some_iff.mp hyields
  cases o with
  | error why => cases hok
  | ok out =>
    exact ⟨out, p', hrun, compile_loops_apart (.ofRegistry leafRegistry) (tower 12) (tower 12) "v"
      "res" true deepPlan p' out hrun⟩

example : ((compile (.ofRegistry leafRegistry) (tower 12) (tower 12) "v" "res" true).run.run
      deepPlan).bind (fun o => o.1.toOption.bind fun out =>
        out.body.nests.getLast?.map fun nest => nest.map (·.key)) =
    some (["keyq", "z", "keys", "i19", "keyu", "i21", "keyw", "i23", "keyy", "i25", "key26",
      "i27"].map some) := by
  decide +kernel

end Plan
end Shapewright
