import Shapewright.Conversion.Object
import Shapewright.Proofs.Scope

/-!
# The names of variables

The loops around a site have different variables at every depth, and none of them is called like a
variable that code has for other purposes. The variables for converted fields avoid those that a
site tells them to.

## Depths

A loop takes its names from its depth. Indices are the letters from `i` on, as long as there are
any, and after that an `i` with the depth behind it; the other variables are a word with a suffix,
which is nothing at depth zero, then a letter and from 26 on the depth. The two schemes change at
different depths, so the proofs that names are different have one case for each pair of regions.
That no letter is a digit, and no number empty, is what keeps the regions apart.

The parameter of a helper is called `v`, and `v` is also the index of the loop at depth thirteen.
This does no harm, since inside a loop values are those of the loop and the parameter is not
mentioned. But it is why `v` cannot be in the list of variables that loops keep clear of.
-/

namespace Shapewright
namespace Conversion

/-! ## Letters and numbers -/

theorem toNat_ofNat {n : Nat} (h : n < 0xd800) : (Char.ofNat n).toNat = n := by
  rw [Char.ofNat, dif_pos (Or.inl h)]
  rfl

theorem letterAfter_toList (first : Char) (shift : Nat) :
    (letterAfter first shift).toList = [Char.ofNat (first.toNat + shift)] :=
  String.toList_singleton _

theorem letterAfter_ne_empty (first : Char) (shift : Nat) : letterAfter first shift ≠ "" := by
  intro h
  have hlist := congrArg String.toList h
  rw [letterAfter_toList] at hlist
  simp at hlist

/-- Letters are counted on from the first one. Where the count stays within the characters,
    different shifts give different letters. -/
theorem letterAfter_inj {first : Char} {d e : Nat} (hd : first.toNat + d < 0xd800)
    (he : first.toNat + e < 0xd800) (h : letterAfter first d = letterAfter first e) : d = e := by
  have hlist := congrArg String.toList h
  rw [letterAfter_toList, letterAfter_toList, List.cons.injEq] at hlist
  have hnat := congrArg Char.toNat hlist.1
  rw [toNat_ofNat hd, toNat_ofNat he] at hnat
  omega

theorem toString_toList (n : Nat) : (toString n).toList = Nat.toDigits 10 n := by
  rw [Nat.toString_eq_repr, Nat.toList_repr]

theorem toString_ne_empty (n : Nat) : toString n ≠ "" := by
  intro h
  have hlist := congrArg String.toList h
  rw [toString_toList] at hlist
  have hpos : 0 < (Nat.toDigits 10 n).length := Nat.length_toDigits_pos
  simp [hlist] at hpos

/-- The digits of a number are no letter. Up to the last letter the suffix is one character, and
    after that a number. -/
theorem letterAfter_ne_toString {d : Nat} (h : d < 26) (n : Nat) :
    letterAfter 'a' d ≠ toString n := by
  intro heq
  have hlist := congrArg String.toList heq
  rw [letterAfter_toList, toString_toList] at hlist
  have hdigit : (Char.ofNat ('a'.toNat + d)).isDigit = true :=
    Nat.isDigit_of_mem_toDigits (by decide) (by decide) (hlist ▸ List.mem_singleton_self _)
  rw [Char.isDigit, Bool.and_eq_true, decide_eq_true_eq, decide_eq_true_eq] at hdigit
  have hnat : (Char.ofNat ('a'.toNat + d)).toNat ≤ '9'.toNat := hdigit.2
  rw [toNat_ofNat (by simp; omega)] at hnat
  simp at hnat
  omega

/-! ## The variables of loops -/

/-- A suffix is empty, a letter or a number. -/
theorem loopSuffix_cases (d : Nat) : (d = 0 ∧ loopSuffix d = "") ∨
    (d < 26 ∧ loopSuffix d = letterAfter 'a' d) ∨ loopSuffix d = toString d := by
  unfold loopSuffix
  split
  · exact Or.inl ⟨‹_›, rfl⟩
  · split
    · exact Or.inr (Or.inl ⟨‹_›, rfl⟩)
    · exact Or.inr (Or.inr rfl)

/-- Different depths have different suffixes. Nine cases, of which three compare like with like. The
    other six compare the empty suffix, a letter or a number with one of another sort. -/
theorem loopSuffix_injective : Function.Injective loopSuffix := by
  intro d e h
  rcases loopSuffix_cases d with ⟨rfl, hd⟩ | ⟨hlt, hd⟩ | hd <;>
    rcases loopSuffix_cases e with ⟨rfl, he⟩ | ⟨hlt', he⟩ | he <;>
      simp only [hd, he] at h
  · rfl
  · exact absurd h.symm (letterAfter_ne_empty 'a' e)
  · exact absurd h.symm (toString_ne_empty e)
  · exact absurd h (letterAfter_ne_empty 'a' d)
  · exact letterAfter_inj (by simp; omega) (by simp; omega) h
  · exact absurd h (letterAfter_ne_toString hlt e)
  · exact absurd h (toString_ne_empty d)
  · exact absurd h.symm (letterAfter_ne_toString hlt' d)
  · rw [Nat.toString_eq_repr, Nat.toString_eq_repr] at h
    exact Nat.repr_inj.mp h

/-- An index is a letter, or an `i` with a number. -/
theorem loopIndex_toList (d : Nat) : (d ≤ 17 ∧ loopIndex d = letterAfter 'i' d) ∨
    (17 < d ∧ (loopIndex d).toList = 'i' :: Nat.toDigits 10 d) := by
  unfold loopIndex
  split
  · exact Or.inl ⟨‹_›, rfl⟩
  · refine Or.inr ⟨by omega, ?_⟩
    rw [String.toList_append, toString_toList]
    rfl

/-- Different depths have different indices. An index is a letter as long as there are letters, and
    then one with a number. -/
theorem loopIndex_injective : Function.Injective loopIndex := by
  -- A letter stands alone, while an `i` with a number has at least two characters.
  have mixed : ∀ {d e : Nat}, loopIndex d = letterAfter 'i' d →
      (loopIndex e).toList = 'i' :: Nat.toDigits 10 e → loopIndex d ≠ loopIndex e := by
    intro d e hd he heq
    rw [← heq, hd, letterAfter_toList, List.cons.injEq] at he
    have hpos : 0 < (Nat.toDigits 10 e).length := Nat.length_toDigits_pos
    simp [← he.2] at hpos
  intro d e h
  rcases loopIndex_toList d with ⟨hd, hdl⟩ | ⟨hd, hdl⟩ <;>
    rcases loopIndex_toList e with ⟨he, hel⟩ | ⟨he, hel⟩
  · exact letterAfter_inj (by simp; omega) (by simp; omega) (hdl ▸ hel ▸ h)
  · exact absurd h (mixed hdl hel)
  · exact absurd h.symm (mixed hel hdl)
  · rw [h, hel, List.cons.injEq, ← toString_toList, ← toString_toList, String.toList_inj,
      Nat.toString_eq_repr, Nat.toString_eq_repr] at hdl
    exact (Nat.repr_inj.mp hdl.2).symm

/-- The words that the variables of a loop start with, but for its index. -/
def loopWords : List String := ["val", "key", "tk", "tv"]

theorem mem_loopVariables {x : String} {d : Nat} :
    x ∈ loopVariables d ↔ x = loopIndex d ∨ ∃ word ∈ loopWords, x = word ++ loopSuffix d := by
  simp [loopVariables, loopWords, loopValue, loopKey, loopNewKey, loopNewValue]

@[simp] theorem loopIndex_mem (d : Nat) : loopIndex d ∈ loopVariables d := by simp [loopVariables]

@[simp] theorem loopValue_mem (d : Nat) : loopValue d ∈ loopVariables d := by simp [loopVariables]

@[simp] theorem loopKey_mem (d : Nat) : loopKey d ∈ loopVariables d := by simp [loopVariables]

@[simp] theorem loopNewKey_mem (d : Nat) : loopNewKey d ∈ loopVariables d := by simp [loopVariables]

@[simp] theorem loopNewValue_mem (d : Nat) : loopNewValue d ∈ loopVariables d := by
  simp [loopVariables]

/-- Two words differ in their first two letters already. So a name with a suffix can be read in one
    way only. -/
theorem word_inj {word word' s s' : String} (hw : word ∈ loopWords) (hw' : word' ∈ loopWords)
    (h : word ++ s = word' ++ s') : word = word' ∧ s = s' := by
  have hlist := congrArg String.toList h
  rw [String.toList_append, String.toList_append] at hlist
  simp only [loopWords, List.mem_cons, List.not_mem_nil, or_false] at hw hw'
  rcases hw with rfl | rfl | rfl | rfl <;> rcases hw' with rfl | rfl | rfl | rfl <;>
    simp_all [String.toList_inj]

/-- An index is no word with a suffix. An index is one letter, or begins with an `i`, and no word is
    or does. -/
theorem word_ne_loopIndex {word : String} (hw : word ∈ loopWords) (s : String) (d : Nat) :
    word ++ s ≠ loopIndex d := by
  intro h
  have hlist := congrArg String.toList h
  rw [String.toList_append] at hlist
  simp only [loopWords, List.mem_cons, List.not_mem_nil, or_false] at hw
  rcases loopIndex_toList d with ⟨-, hd⟩ | ⟨-, hd⟩
  · rw [hd, letterAfter_toList] at hlist
    rcases hw with rfl | rfl | rfl | rfl <;> simp at hlist
  · rw [hd] at hlist
    rcases hw with rfl | rfl | rfl | rfl <;> simp at hlist

theorem word_ne_v {word : String} (hw : word ∈ loopWords) (s : String) : word ++ s ≠ "v" := by
  intro h
  have hlist := congrArg String.toList h
  rw [String.toList_append] at hlist
  simp only [loopWords, List.mem_cons, List.not_mem_nil, or_false] at hw
  rcases hw with rfl | rfl | rfl | rfl <;> simp at hlist

/-- A variable belongs to the loops of one depth only. -/
theorem eq_of_mem_loopVariables {x : String} {d e : Nat} (hd : x ∈ loopVariables d)
    (he : x ∈ loopVariables e) : d = e := by
  rcases mem_loopVariables.mp hd with rfl | ⟨word, hw, rfl⟩ <;>
    rcases mem_loopVariables.mp he with h | ⟨word', hw', h⟩
  · exact loopIndex_injective h
  · exact absurd h.symm (word_ne_loopIndex hw' _ d)
  · exact absurd h (word_ne_loopIndex hw _ e)
  · exact loopSuffix_injective (word_inj hw hw' h).2

/-- The five variables of a loop are different. -/
theorem loopVariables_nodup (d : Nat) : (loopVariables d).Nodup := by
  have hwords : (loopWords.map (· ++ loopSuffix d)).Nodup := by
    refine List.Nodup.map_on (fun w hw w' hw' h => (word_inj hw hw' h).1) ?_
    decide
  have heq : loopVariables d = loopIndex d :: loopWords.map (· ++ loopSuffix d) := rfl
  rw [heq, List.nodup_cons]
  refine ⟨fun h => ?_, hwords⟩
  obtain ⟨word, hw, heq⟩ := List.mem_map.mp h
  exact word_ne_loopIndex hw _ d heq

/-- The variables of a loop that are in use at one time differ. An index and the variables of a map
    never are, so the pairs of those are left out. -/
structure LoopDistinct (d : Nat) : Prop where
  index : loopIndex d ≠ loopValue d
  key : loopKey d ≠ loopValue d
  newKey : loopNewKey d ≠ loopKey d ∧ loopNewKey d ≠ loopValue d
  newValue : loopNewValue d ≠ loopKey d ∧ loopNewValue d ≠ loopValue d ∧
    loopNewValue d ≠ loopNewKey d

theorem loopDistinct (d : Nat) : LoopDistinct d := by
  have h := loopVariables_nodup d
  simp only [loopVariables, List.nodup_cons, List.mem_cons, List.not_mem_nil, or_false,
    not_or] at h
  obtain ⟨⟨hiv, -⟩, ⟨hvk, hvn, hve⟩, ⟨hkn, hke⟩, hne, -⟩ := h
  exact ⟨hiv, Ne.symm hvk, ⟨Ne.symm hkn, Ne.symm hvn⟩, Ne.symm hke, Ne.symm hve, Ne.symm hne⟩

/-- The variables that code has for other purposes than a loop. The parameter `v` of a helper is
    not among them: it is an index in the fourteenth loop. -/
def fixedVariables : List String := ["res", "actual", "conv", "tmp", "zero"]

/-- None of these is a variable of a loop, at whatever depth. The emitters choose these names
    without a look at the depth, so they have to be free at every one. -/
theorem fixed_not_mem_loopVariables {x : String} (hx : x ∈ fixedVariables) (d : Nat) :
    x ∉ loopVariables d := by
  intro h
  simp only [fixedVariables, List.mem_cons, List.not_mem_nil, or_false] at hx
  rcases mem_loopVariables.mp h with h | ⟨word, hw, h⟩
  · have hlist := congrArg String.toList h
    rcases loopIndex_toList d with ⟨-, hd⟩ | ⟨-, hd⟩
    · rw [hd, letterAfter_toList] at hlist
      rcases hx with rfl | rfl | rfl | rfl | rfl <;> simp at hlist
    · rw [hd] at hlist
      rcases hx with rfl | rfl | rfl | rfl | rfl <;> simp at hlist
  · have hlist := congrArg String.toList h
    rw [String.toList_append] at hlist
    simp only [loopWords, List.mem_cons, List.not_mem_nil, or_false] at hw
    rcases hx with rfl | rfl | rfl | rfl | rfl <;> rcases hw with rfl | rfl | rfl | rfl <;>
      simp at hlist

theorem mem_loopScope {x : String} {depth : Nat} :
    x ∈ loopScope depth ↔ ∃ d < depth, x ∈ loopVariables d := by
  simp [loopScope]

theorem mem_loopScope_succ {x : String} {d : Nat} (h : x ∈ loopVariables d) :
    x ∈ loopScope (d + 1) :=
  mem_loopScope.mpr ⟨d, Nat.lt_succ_self d, h⟩

/-- No loop rebinds a variable of a loop around it. -/
theorem loopScope_disjoint {x : String} {depth d : Nat} (h : x ∈ loopScope depth)
    (hd : depth ≤ d) : x ∉ loopVariables d := by
  intro hx
  obtain ⟨e, he, hxe⟩ := mem_loopScope.mp h
  have heq := eq_of_mem_loopVariables hx hxe
  omega

theorem loopScope_mono {d e : Nat} (h : d ≤ e) : loopScope d ⊆ loopScope e := by
  intro x hx
  obtain ⟨k, hk, hx⟩ := mem_loopScope.mp hx
  exact mem_loopScope.mpr ⟨k, by omega, hx⟩

/-! ## Variables for fields -/

/-- No variable for a field is called like one of those in `taken`. There is always a number that is
    free. -/
theorem temporary_not_mem (field : String) (taken : List String) :
    temporary field taken ∉ taken := by
  unfold temporary
  refine find?_candidate_not_mem (fun i j h => ?_) taken _
  have hlength := congrArg String.length h
  simp only [String.length_append, String.length_join, List.map_replicate,
    List.sum_replicate] at hlength
  simpa using hlength

end Conversion
end Shapewright
