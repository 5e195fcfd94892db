import Shapewright.Proofs.Guards
import Shapewright.Proofs.Validation.Demands

/-!
# The tests in a validator

A validator follows a pointer, selects a field of a value other than its argument, or calls the
validator of an object only inside a test that the value is there. The proof goes along with the
walk: whatever stands for a place can be written where the place is checked, and the walk adds a
test before it goes inside an object or behind a pointer.

## What is known

Each step of a piece of code is judged by the tests it stands in (`Block.steps`). A test for not
being nil makes its subject known inside, and an expression is safe if it follows and selects
nothing else (`Safe`). The argument needs no test, as a validator is called only with a value that
was tested.

So there are two halves. A caller is checked here: where it hands an object over it knows the object
not to be nil (`CallsAt`). The callee relies on that for its argument and for nothing more, so the
two meet at the calls (`Validation.Safety`).

## Constructors

`Safe` and `SafeBlock` have a lemma for each way of building an expression or a block. With them
`Builds.safe` follows the walk and names in each case only the test that has been added.
-/

namespace Shapewright
namespace Validation

section

variable (v : Validation)

/-- A call into the package that makes errors, or the one that counts characters. These take any
    values and follow none of them. -/
def IsReport (call : Call) : Prop :=
  (∃ func, call.1 = v.reporting.runtime ++ "." ++ func) ∨ call.1 = "utf8.RuneCountInString"

/-- The expression follows and selects only what is known not to be nil, apart from the argument.
    The only functions that it calls are those that make and merge errors. -/
structure Safe (known : List Expr) (e : Expr) : Prop where
  derefs : e.derefs ⊆ known
  selects : e.selects ⊆ .ident v.reporting.arg :: known
  calls : ∀ call ∈ e.calls, v.IsReport call

/-- The step follows and selects only what is known not to be nil, apart from the argument, and
    calls only validators that may be called there. -/
structure SafeStep (mayCall : List Expr → Call → Prop) (step : CodeStep) : Prop where
  derefs : step.stmt.derefs ⊆ step.known
  selects : step.stmt.selects ⊆ .ident v.reporting.arg :: step.known
  calls : ∀ call ∈ step.stmt.calls, v.IsReport call ∨ mayCall step.known call

/-- Every step of the code is safe, given what the tests around the code have shown. Which calls are
    allowed is left open, as it depends on the validators that there are. -/
def SafeBlock (mayCall : List Expr → Call → Prop) (known : List Expr) (code : Block) : Prop :=
  ∀ step ∈ code.steps known, v.SafeStep mayCall step

end

variable {v : Validation} {known known' : List Expr} {e test : Expr} {code more : Block}
  {mayCall : List Expr → Call → Prop}

/-! ## Expressions -/

namespace Safe

theorem mono (h : v.Safe known e) (hsub : known ⊆ known') : v.Safe known' e where
  derefs := List.Subset.trans h.derefs hsub
  selects := List.Subset.trans h.selects (List.cons_subset_cons _ hsub)
  calls := h.calls

/-- An expression without parts. -/
theorem atom (hd : e.derefs = []) (hs : e.selects = []) (hc : e.calls = []) : v.Safe known e where
  derefs := by rw [hd]; exact List.nil_subset _
  selects := by rw [hs]; exact List.nil_subset _
  calls := by simp [hc]

theorem ident (name : String) : v.Safe known (.ident name) :=
  atom (by rw [Expr.derefs]) (by rw [Expr.selects]) (by rw [Expr.calls])

theorem str (s : String) : v.Safe known (.str s) :=
  atom (by rw [Expr.derefs]) (by rw [Expr.selects]) (by rw [Expr.calls])

theorem int (i : Int) : v.Safe known (.int i) :=
  atom (by rw [Expr.derefs]) (by rw [Expr.selects]) (by rw [Expr.calls])

theorem lit (l : Literal) (type : TypeRef) : v.Safe known (.lit l type) :=
  atom (by rw [Expr.derefs]) (by rw [Expr.selects]) (by rw [Expr.calls])

theorem convert (h : v.Safe known e) (type : TypeRef) : v.Safe known (.convert type e) where
  derefs := by rw [Expr.derefs]; exact h.derefs
  selects := by rw [Expr.selects]; exact h.selects
  calls := by rw [Expr.calls]; exact h.calls

theorem len (h : v.Safe known e) : v.Safe known (.len e) where
  derefs := by rw [Expr.derefs]; exact h.derefs
  selects := by rw [Expr.selects]; exact h.selects
  calls := by rw [Expr.calls]; exact h.calls

theorem not (h : v.Safe known e) : v.Safe known (.not e) where
  derefs := by rw [Expr.derefs]; exact h.derefs
  selects := by rw [Expr.selects]; exact h.selects
  calls := by rw [Expr.calls]; exact h.calls

theorem binary {e' : Expr} (h : v.Safe known e) (h' : v.Safe known e') (op : BinaryOp) :
    v.Safe known (.binary op e e') where
  derefs := by rw [Expr.derefs]; exact List.append_subset.mpr ⟨h.derefs, h'.derefs⟩
  selects := by rw [Expr.selects]; exact List.append_subset.mpr ⟨h.selects, h'.selects⟩
  calls := by
    rw [Expr.calls]
    exact List.forall_mem_append.mpr ⟨h.calls, h'.calls⟩

theorem isNil (h : v.Safe known e) : v.Safe known e.isNil where
  derefs := by rw [Expr.derefs_isNil]; exact h.derefs
  selects := by rw [Expr.selects_isNil]; exact h.selects
  calls := by rw [Expr.calls_isNil]; exact h.calls

theorem notNil (h : v.Safe known e) : v.Safe known e.notNil where
  derefs := by rw [Expr.derefs_notNil]; exact h.derefs
  selects := by rw [Expr.selects_notNil]; exact h.selects
  calls := by rw [Expr.calls_notNil]; exact h.calls

theorem deref (h : v.Safe known e) (hk : e ∈ known) : v.Safe known (.deref e) where
  derefs := by rw [Expr.derefs]; exact List.cons_subset.mpr ⟨hk, h.derefs⟩
  selects := by rw [Expr.selects]; exact h.selects
  calls := by rw [Expr.calls]; exact h.calls

theorem field (h : v.Safe known e) (hk : e ∈ .ident v.reporting.arg :: known) (name : String) :
    v.Safe known (.field e name) where
  derefs := by rw [Expr.derefs]; exact h.derefs
  selects := by rw [Expr.selects]; exact List.cons_subset.mpr ⟨hk, h.selects⟩
  calls := by rw [Expr.calls]; exact h.calls

/-- A report may be called with arguments that may be written. Only reports are called in
    expressions. A validator is called in the head of a test. -/
theorem call {func : String} {args : List Expr} (hf : v.IsReport (func, args))
    (h : ∀ e ∈ args, v.Safe known e) : v.Safe known (.call func args) := by
  -- The arguments together, by induction on the list. That the call is a report is only needed for
  -- the call itself.
  have hargs : Expr.derefsAll args ⊆ known ∧
      Expr.selectsAll args ⊆ .ident v.reporting.arg :: known ∧
      ∀ call ∈ Expr.callsAll args, v.IsReport call := by
    clear hf
    induction args with
    | nil => simp [Expr.derefsAll, Expr.selectsAll, Expr.callsAll]
    | cons e rest ih =>
      rw [List.forall_mem_cons] at h
      obtain ⟨hd, hs, hc⟩ := ih h.2
      rw [Expr.derefsAll, Expr.selectsAll, Expr.callsAll]
      exact ⟨List.append_subset.mpr ⟨h.1.derefs, hd⟩, List.append_subset.mpr ⟨h.1.selects, hs⟩,
        List.forall_mem_append.mpr ⟨h.1.calls, hc⟩⟩
  refine ⟨?_, ?_, ?_⟩
  · rw [Expr.derefs]
    exact hargs.1
  · rw [Expr.selects]
    exact hargs.2.1
  · rw [Expr.calls]
    exact List.forall_mem_cons.mpr ⟨hf, hargs.2.2⟩

theorem report {func : String} {args : List Expr} (h : ∀ e ∈ args, v.Safe known e) :
    v.Safe known (v.report func args) :=
  call (.inl ⟨func, rfl⟩) h

theorem lengthBound (n : Nat) : v.Safe known (Validation.lengthBound n) := int _

theorem flag (limit : Limit) : v.Safe known limit.flag := by
  cases limit <;> exact ident _

theorem bound (x : Float) (p : Primitive) (native : TypeRef) :
    v.Safe known (Validation.bound x p native) := by
  unfold Validation.bound
  split <;> exact lit _ _

theorem lengthOf (h : v.Safe known e) (p : Primitive) :
    v.Safe known (Validation.lengthOf p e) := by
  cases p with
  | string => exact call (.inr rfl) (List.forall_mem_singleton.mpr h)
  | _ => exact h.len

theorem nativeValue (h : v.Safe known e) (p : Primitive) (type : TypeRef) :
    v.Safe known (v.nativeValue p type e) := by
  unfold Validation.nativeValue
  dsimp only
  split
  · exact h
  · exact h.convert _

end Safe

/-! ## Statements -/

namespace SafeBlock

theorem nil : v.SafeBlock mayCall known [] := by
  intro step h
  simp at h

/-- Steps one after the other know the same: a test that has ended proves nothing for what
    follows. -/
theorem append (h : v.SafeBlock mayCall known code) (h' : v.SafeBlock mayCall known more) :
    v.SafeBlock mayCall known (code ++ more) := by
  intro step hstep
  rw [Block.steps_append, List.mem_append] at hstep
  exact hstep.elim (h step) (h' step)

theorem of_forall (h : ∀ s ∈ code, v.SafeBlock mayCall known [s]) :
    v.SafeBlock mayCall known code := by
  induction code with
  | nil => exact nil
  | cons s rest ih =>
    rw [List.forall_mem_cons] at h
    exact append h.1 (ih h.2)

/-- To merge an error follows no pointer, whatever else the expression for the error does. The
    variable for errors is one that no value is written by. -/
theorem merge (h : v.Safe known e) : v.SafeBlock mayCall known [v.merge e] := by
  have hreport : v.Safe known (v.report "MergeErrors" [error, e]) :=
    .report (by simpa using ⟨Safe.ident "err", h⟩)
  have herror : v.Safe known error := .ident "err"
  intro step hstep
  rw [Validation.merge, Stmt.set, Block.steps_cons, Stmt.steps_assign, Block.steps_nil,
    List.append_nil, List.mem_singleton] at hstep
  subst hstep
  refine ⟨?_, ?_, fun call hcall => .inl ?_⟩
  · rw [Stmt.derefs]
    exact List.append_subset.mpr ⟨herror.derefs, hreport.derefs⟩
  · rw [Stmt.selects]
    exact List.append_subset.mpr ⟨herror.selects, hreport.selects⟩
  · rw [Stmt.calls] at hcall
    exact (List.forall_mem_append.mpr ⟨herror.calls, hreport.calls⟩) call hcall

/-- A test is a step of its own; what it proves is known inside. -/
theorem when (ht : v.Safe known test) (h : v.SafeBlock mayCall (test.proves ++ known) code) :
    v.SafeBlock mayCall known [.when test code] := by
  intro step hstep
  rw [Block.steps_cons, Stmt.steps_when, Block.steps_nil, List.append_nil, List.mem_cons] at hstep
  rcases hstep with rfl | hstep
  · refine ⟨ht.derefs, ht.selects, fun call hcall => .inl (ht.calls call ?_)⟩
    rw [Stmt.calls_when, Block.calls_nil, List.append_nil] at hcall
    exact hcall
  · exact h step hstep

theorem mergeWhen (ht : v.Safe known test) (h : v.Safe known e) :
    v.SafeBlock mayCall known [v.mergeWhen test e] :=
  when ht (merge (h.mono (List.subset_append_right _ _)))

/-- If the test is written its subject is known inside, and if it is not written nothing is
    gained. -/
theorem guarded {mayBeNil : Bool} {var : Expr} (hv : v.Safe known var)
    (h : v.SafeBlock mayCall (if mayBeNil then var :: known else known) code) :
    v.SafeBlock mayCall known (guarded mayBeNil var code) := by
  unfold Validation.guarded
  cases mayBeNil with
  | false => exact h
  | true =>
    split
    · rename_i hnil
      obtain rfl : code = [] := by simpa using hnil
      exact nil
    · exact when hv.notNil h

/-- A loop needs no test: there is nothing to go over in a nil slice or map. The body starts with
    what is known around it, and its own variable is not known to be there. -/
theorem loop {p : Position} {checks : Checks} (hv : v.Safe known p.var)
    (h : v.SafeBlock mayCall known checks.code) :
    v.SafeBlock mayCall known (p.loop checks).code := by
  show v.SafeBlock mayCall known (if checks.code.isEmpty then [] else _)
  split
  · exact nil
  · intro step hstep
    rw [Block.steps_cons, Stmt.steps_range, Block.steps_nil, List.append_nil,
      List.mem_cons] at hstep
    rcases hstep with rfl | hstep
    · refine ⟨hv.derefs, hv.selects, fun call hcall => .inl (hv.calls call ?_)⟩
      rw [Stmt.calls_range, Block.calls_nil, List.append_nil] at hcall
      exact hcall
    · exact h step hstep

theorem lengthCheck {limit : Limit} {len value : Expr} {path : String} {n : Nat}
    (hl : v.Safe known len) (hv : v.Safe known value) :
    v.SafeBlock mayCall known [v.lengthCheck limit len value path n] := by
  refine mergeWhen (hl.binary (.lengthBound n) _) (.report ?_)
  simp [Safe.str, hv, hl, Safe.lengthBound, Safe.flag]

/-- All checks of a primitive value are safe where the value may be written. They differ in what
    they compare, and all of them write the value once or twice. -/
theorem check {p : Primitive} {native : TypeRef} {value : Expr} {path : String}
    (h : v.Safe known value) (c : Constraint) :
    v.SafeBlock mayCall known [v.check p native value path c] := by
  cases c with
  | enum first others =>
    refine mergeWhen (.not ?_) (.report (by simp [Safe.str, h, anySlice, Safe.lit]))
    have hone : ∀ l, v.Safe known (.binary .eq value (.lit l native)) :=
      fun l => h.binary (.lit l native) .eq
    -- The test for the others is added to that for the first, one by one.
    have hall : ∀ (others : List Literal) (e : Expr), v.Safe known e →
        v.Safe known
          (others.foldl (fun e l => .binary .or e (.binary .eq value (.lit l native))) e) := by
      intro others
      induction others with
      | nil => exact fun e he => he
      | cons l rest ih => exact fun e he => ih _ (he.binary (hone l) .or)
    exact hall others _ (hone first)
  | format f => exact merge (.report (by simp [Safe.str, h, Safe.ident]))
  | pattern pattern => exact merge (.report (by simp [Safe.str, h]))
  | length limit n => exact lengthCheck (h.lengthOf p) h
  | bound limit x =>
    exact mergeWhen (h.binary (.bound x p native) _)
      (.report (by simp [Safe.str, h, Safe.bound, Safe.flag]))

theorem missingStmt {p : Position} {name : String} {a : Attribute}
    (h : v.Safe known (p.var.field (a.fieldName name))) :
    v.SafeBlock mayCall known [v.missingStmt p name a] :=
  mergeWhen h.isNil (.report (by simp [Safe.str]))

/-- A call of a validator is safe where the value may be written and the call may be made. Its
    result is a variable of its own. -/
theorem callCheck {name : String} {var : Expr} (hv : v.Safe known var)
    (hcall : mayCall known (name, [var])) :
    v.SafeBlock mayCall known [v.callCheck name var] := by
  have htest : v.Safe known (Expr.ident "err2").notNil := (Safe.ident "err2").notNil
  intro step hstep
  rw [Block.steps_cons, Block.steps_nil, List.append_nil, Validation.callCheck, Stmt.steps,
    Stmt.steps, List.mem_append, List.mem_singleton, List.mem_cons, List.mem_append] at hstep
  -- The call, the test of its result, and the two branches.
  rcases hstep with rfl | rfl | hstep | hstep
  · refine ⟨?_, ?_, fun call hc => ?_⟩
    · simpa [Stmt.derefs, Expr.derefs, Expr.derefsAll] using hv.derefs
    · simpa [Stmt.selects, Expr.selects, Expr.selectsAll] using hv.selects
    · simp only [Stmt.calls, Expr.calls, Expr.callsAll, List.nil_append, List.append_nil,
        List.mem_cons] at hc
      exact hc.elim (fun hc => .inr (hc ▸ hcall)) fun hc => .inl (hv.calls call hc)
  · refine ⟨htest.derefs, htest.selects, fun call hc => .inl ?_⟩
    simp only [Stmt.calls, Stmt.callsAll, List.append_nil] at hc
    exact htest.calls call hc
  · exact merge (.ident "err2") step hstep
  · rw [Stmt.stepsAll] at hstep
    simp at hstep

end SafeBlock

/-! ## The walk is safe -/

section

variable (v : Validation)

/-- A call of the validator of a subject that the place hands its value over to. Of an object the
    value is known not to be nil. -/
inductive CallsAt (isBuilt : Subject → Bool) (z : Place) (known : List Expr) : Call → Prop
  | intro {s : Subject} {name : String} (hs : v.HandsOver z s) (hb : isBuilt s = true)
      (hn : v.functionName s.type s.view = .ok name)
      (ho : v.registry.kind z.attr = .ok .object → z.position.var ∈ known) :
      CallsAt isBuilt z known (name, [z.position.var])

end

variable {isBuilt : Subject → Bool} {y z : Place} {ys : List Place} {s : Subject}
  {checks : Checks}

/-- A field of a value is written by selecting from what stands for the value. So it may be written
    where the value may be, with nothing followed but the value. -/
theorem HoldsField.var {required : List String} {p : Position} {f : ShownField}
    (h : v.HoldsField required p f y) :
    y.position.var = p.var.field (f.attr.fieldName f.name) := by
  obtain ⟨-, h⟩ := h
  unfold fieldPosition at h
  obtain ⟨pointer, -, h⟩ := except_bind_eq_ok.mp h
  split at h
  · obtain ⟨view, -, h⟩ := except_bind_eq_ok.mp h
    rw [except_pure_eq_ok, Prod.mk.injEq] at h
    rw [← h.2]
  · obtain ⟨view, -, h⟩ := except_bind_eq_ok.mp h
    rw [except_pure_eq_ok, Prod.mk.injEq] at h
    rw [← h.2]

/-- What stands for the fields of a value may be written where fields of the value may be
    selected. -/
theorem safe_fields {required : List String} {p : Position} {fs : List ShownField}
    {zs : List Place} (hp : v.Safe known p.var) (hk : p.var ∈ .ident v.reporting.arg :: known)
    (hz : List.Forall₂ (v.HoldsField required p) fs zs) :
    ∀ z ∈ zs, v.Safe known z.position.var := by
  intro z hzs
  obtain ⟨f, -, hf⟩ := forall₂_mem_right hz hzs
  rw [hf.var]
  exact hp.field hk _

/-- The checks for missing fields select the fields, and so need the object to be known. -/
theorem safe_missing {required : List String} {p : Position} {fields : List (String × Attribute)}
    (hp : v.Safe known p.var) (hk : p.var ∈ .ident v.reporting.arg :: known)
    (hm : v.missingChecks required p fields = .ok code) : v.SafeBlock mayCall known code := by
  refine .of_forall fun stmt hs => ?_
  obtain ⟨f, -, -, -, rfl⟩ := (mem_missingChecks hm).mp hs
  exact .missingStmt (hp.field hk _)

/-- Where the places may be written, so may their checks. What is known grows on the way down, so
    the statement is about whatever is known. -/
theorem Builds.safe (h : v.Builds isBuilt ys checks) (hv : ∀ y ∈ ys, v.Safe known y.position.var)
    (hcall : ∀ z, v.Within ys z → ∀ known call, v.CallsAt isBuilt z known call →
      mayCall known call) :
    v.SafeBlock mayCall known checks.code := by
  induction h generalizing known with
  | nil => exact .nil
  | cons _ _ ih ihs =>
    rw [List.forall_mem_cons] at hv
    refine (ih (by simpa using hv.1) fun z hz => ?_).append (ihs hv.2 fun z hz => ?_)
    · exact hcall z (within_cons.mpr (.inl hz))
    · exact hcall z (within_cons.mpr (.inr hz))
  | @primitive y p code hk hc =>
    have hvar := hv y (List.mem_singleton_self y)
    refine .guarded hvar (.of_forall fun stmt hs => ?_)
    obtain ⟨x, c, type, -, -, -, rfl⟩ := (mem_primitiveChecks hc).mp hs
    refine .check (Safe.nativeValue ?_ p type) c
    -- A pointer is followed only inside the test for it.
    unfold Place.value
    cases y.pointer with
    | true => exact (hvar.mono (List.subset_cons_self _ _)).deref List.mem_cons_self
    | false => exact hvar
  | union hk => exact .nil
  | left hs hb => exact .nil
  | @called y s name hs hb hn isObject ho =>
    have hvar := hv y (List.mem_singleton_self y)
    refine .guarded hvar (.callCheck (hvar.mono ?_) ?_)
    · cases isObject with
      | true => exact List.subset_cons_self _ _
      | false => exact List.Subset.refl _
    · refine hcall y ⟨y, List.mem_singleton_self y, .refl⟩ _ _ ⟨hs, hb, hn, fun hk => ?_⟩
      rw [ho.mpr hk]
      exact List.mem_cons_self
  | @object y fields missing zs checks ht hm hz _ ih =>
    -- Inside the test for an object its fields may be selected.
    have hvar := (hv y (List.mem_singleton_self y)).mono
      (List.subset_cons_self y.position.var known)
    have hmem : y.position.var ∈ Expr.ident v.reporting.arg :: y.position.var :: known := by simp
    refine .guarded (hv y (List.mem_singleton_self y)) (.append (safe_missing hvar hmem hm) ?_)
    refine ih (safe_fields hvar hmem hz) fun z hzs => hcall z ?_
    exact (within_singleton fun _ => inner_object ht hz).mpr (.inr hzs)
  | @collection y elem checks ht _ ih =>
    have hvar := hv y (List.mem_singleton_self y)
    refine .append (.of_forall fun stmt hs => ?_) (.loop hvar (ih ?_ fun z hz => hcall z ?_))
    · rw [lengthChecks_eq] at hs
      obtain ⟨l, -, rfl⟩ := List.mem_map.mp hs
      exact .lengthCheck hvar.len hvar
    · -- An element is a variable of the loop.
      intro z hz
      obtain rfl := List.mem_singleton.mp hz
      exact .ident _
    · exact (within_singleton fun _ => inner_collection ht).mpr (.inr hz)

/-- The body of a validator follows and selects what it has tested, and calls the validators of what
    its places hand over. -/
theorem BuildsBody.safe (h : v.BuildsBody isBuilt s checks) :
    v.SafeBlock (fun known call => ∃ z, v.Looks s z ∧ v.CallsAt isBuilt z known call) []
      checks.code := by
  cases h with
  | object hd ht hm hz h =>
    have hmem : (v.argument s).var ∈ Expr.ident v.reporting.arg :: [] := List.mem_cons_self
    refine .append (safe_missing (.ident _) hmem hm) (h.safe (safe_fields (.ident _) hmem hz) ?_)
    exact fun z hzs known call hcall =>
      (exists_looks fun _ => top_object hd ht hz).mpr ⟨z, hzs, hcall⟩
  | collection hd ht h =>
    refine .loop (.ident _) (h.safe ?_ ?_)
    · intro z hz
      obtain rfl := List.mem_singleton.mp hz
      exact .ident _
    · exact fun z hzs known call hcall =>
        (exists_looks fun _ => top_collection hd ht).mpr ⟨z, hzs, hcall⟩
  | plain => exact .nil

end Validation
end Shapewright
