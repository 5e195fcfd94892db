import Mathlib
import Shapewright.Identifier

/-!
# Identifiers and their heads

An exported identifier starts with a capital. Where its head is lowered, the identifier can be read
back, but for one thing: what was a run of capitals and what was a single capital in front of small
letters look the same (`ABFoo` and `AbFoo`). A word in front of the identifier takes that away.

## Why this is more than a detail

Names of helpers are made of the names of two types: a prefix, the source, a separator `To` and the
target, all with the head lowered. Whether two pairs of types can share such a name is a question on
strings alone, and it is answered here without any loss: by `lowerHead_eq_iff`, which says what can
be read back, and by `append_separator_eq_iff`, which says where a name can be cut in two ways. How
types come to share a helper follows from the two in `Proofs.Conversion.Names`.

## The head

The head is the run of capitals that an identifier starts with, but for the last of them if a small
letter comes next: that one opens the next word (`HTTPServer` gives `httpServer`). So the length of
the head depends on one letter behind it. Most lemmas are about this length: that it is at least one
and within the run, that only capitals are lowered, and that a separator behind an identifier leaves
its head alone (`headLength_append`), since `T` is a capital in front of a small letter.

All is proved of lists of characters. Strings come back in where identifiers are put together.
-/

namespace Shapewright
namespace Identifier

variable {c : Char} {s t v x y : List Char}

/-- The identifier starts with a capital. -/
def Capital (s : List Char) : Prop := ∃ c r, s = c :: r ∧ c.isUpper = true

theorem Capital.append (h : Capital s) (t : List Char) : Capital (s ++ t) := by
  obtain ⟨c, r, rfl, hc⟩ := h
  exact ⟨c, r ++ t, rfl, hc⟩

/-! ## Exported identifiers -/

/-- Words are not empty, and of letters and digits. Everything else separates words. A word may
    still start with a digit, which is seen to where words are joined. -/
theorem mem_words {w : List Char} (h : w ∈ words s) :
    w ≠ [] ∧ ∀ c ∈ w, c.isAlphanum = true := by
  -- The fold keeps the word that is being read at the front, which may still be empty.
  have hall : ∀ (s : List Char), ∀ w ∈ s.foldr (fun c ws =>
      if c.isAlphanum then (c :: ws.headD []) :: ws.tail else [] :: ws) [[]],
      ∀ c ∈ w, c.isAlphanum = true := by
    intro s
    induction s with
    | nil => simp
    | cons a s ih =>
      intro w hw
      rw [List.foldr_cons] at hw
      split at hw
      · rename_i ha
        rcases List.mem_cons.mp hw with rfl | hw
        · refine List.forall_mem_cons.mpr ⟨ha, ?_⟩
          -- The letter goes to the front of the word that is not finished.
          generalize hws : s.foldr _ [[]] = ws at ih
          cases ws with
          | nil => simp
          | cons w ws => exact ih w List.mem_cons_self
        · exact ih w (List.mem_of_mem_tail hw)
      · rcases List.mem_cons.mp hw with rfl | hw
        · simp
        · exact ih w hw
  obtain ⟨hw, hne⟩ := List.mem_filter.mp h
  exact ⟨by simpa using hne, hall s w hw⟩

theorem head_capital {r : List Char} : ∃ r', capital (c :: r) = c.toUpper :: r' := by
  unfold capital
  split
  · exact ⟨upper r, rfl⟩
  · exact ⟨r, rfl⟩

theorem not_isAlpha_of_isDigit (h : c.isDigit = true) : ¬ c.isAlpha = true := by
  simp only [Char.isDigit, Char.isAlpha, Char.isUpper, Char.isLower, UInt32.le_iff_toNat_le,
    ge_iff_le, Bool.or_eq_true, Bool.and_eq_true, decide_eq_true_eq] at h ⊢
  have : '9'.val.toNat = 57 := rfl
  have : 'A'.val.toNat = 65 := rfl
  have : 'a'.val.toNat = 97 := rfl
  omega

theorem not_isLower_of_isDigit (h : c.isDigit = true) : ¬ c.isLower = true :=
  fun hl => not_isAlpha_of_isDigit h (by rw [Char.isAlpha, hl, Bool.or_true])

theorem not_isUpper_of_isDigit (h : c.isDigit = true) : ¬ c.isUpper = true :=
  fun hu => not_isAlpha_of_isDigit h (by rw [Char.isAlpha, hu, Bool.true_or])

/-- What starts with a digit gets a letter in front, and what has no word at all is called `Val`. So
    an exported name is never empty. -/
theorem capital_exportedChars (s : List Char) : Capital (exportedChars s) := by
  unfold exportedChars
  cases hw : words s with
  | nil => exact ⟨'V', ['a', 'l'], rfl, rfl⟩
  | cons w ws =>
    obtain ⟨hne, halnum⟩ := mem_words (hw ▸ List.mem_cons_self : w ∈ words s)
    obtain ⟨c, r, rfl⟩ := List.exists_cons_of_ne_nil hne
    obtain ⟨r', hr'⟩ := head_capital (c := c) (r := r)
    rw [List.flatMap_cons, hr', List.cons_append, anchored]
    split
    · exact ⟨'V', _, rfl, rfl⟩
    · rename_i hdigit
      refine ⟨c.toUpper, _, rfl, ?_⟩
      have hc := halnum c List.mem_cons_self
      rw [Char.isUpper_toUpper_eq_isAlpha]
      by_cases hd : c.isDigit = true
      · rw [Char.toUpper_eq_of_not_isLower (not_isLower_of_isDigit hd)] at hdigit
        exact absurd hd hdigit
      · simpa [Char.isAlphanum, hd] using hc

/-! ## Lowering the head -/

theorem toUpper_toLower (hc : c.isUpper = true) : c.toLower.toUpper = c := by
  rw [Char.toUpper_toLower_eq_toUpper]
  exact Char.toUpper_eq_of_not_isLower (Char.not_isLower_of_isUpper hc)

theorem upper_lower (h : ∀ c ∈ s, c.isUpper = true) : upper (lower s) = s := by
  unfold upper lower
  rw [List.map_map]
  refine (List.map_congr_left fun c hc => ?_).trans s.map_id
  exact toUpper_toLower (h c hc)

/-- The capitals that lead an identifier are capitals. Stated by position, as the head is
    counted. -/
theorem isUpper_of_lt_run {i : Nat} (hi : i < (s.takeWhile Char.isUpper).length)
    (hc : s[i]? = some c) : c.isUpper = true := by
  obtain ⟨rest, hrest⟩ := List.takeWhile_prefix (p := Char.isUpper) (l := s)
  rw [← hrest, List.getElem?_append_left hi] at hc
  exact List.mem_takeWhile_imp (List.mem_of_getElem? hc)

theorem headLength_pos (s : List Char) : 0 < headLength s := by
  unfold headLength
  dsimp only
  split
  · rename_i h
    rw [Bool.and_eq_true, decide_eq_true_iff] at h
    omega
  · omega

/-- The first letter is lowered in any case. -/
theorem lowerHead_eq_cons (hs : Capital s) :
    ∃ (c : Char) (r : List Char), lowerHead s = c.toLower :: r ∧ c.isUpper = true := by
  obtain ⟨n, hn⟩ := Nat.exists_eq_succ_of_ne_zero (headLength_pos s).ne'
  obtain ⟨c, r, rfl, hc⟩ := hs
  rw [lowerHead, hn, List.take_succ_cons, lower, List.map_cons, List.cons_append]
  exact ⟨c, _, rfl, hc⟩

/-- No more is lowered than the run of capitals. -/
theorem headLength_le_run (hs : Capital s) :
    headLength s ≤ (s.takeWhile Char.isUpper).length := by
  obtain ⟨a, r, rfl, ha⟩ := hs
  have hpos : 0 < ((a :: r).takeWhile Char.isUpper).length := by simp [ha]
  unfold headLength
  dsimp only
  split
  · omega
  · omega

theorem headLength_le (hs : Capital s) : headLength s ≤ s.length :=
  (headLength_le_run hs).trans (List.takeWhile_prefix _).length_le

/-- Only capitals are lowered. -/
theorem isUpper_of_mem_take (hs : Capital s) (hc : c ∈ s.take (headLength s)) :
    c.isUpper = true := by
  obtain ⟨i, hi, hc⟩ := List.mem_take_iff_getElem.mp hc
  have hrun := headLength_le_run hs
  exact isUpper_of_lt_run (s := s) (i := i) (by omega) (hc ▸ List.getElem?_eq_getElem (by omega))

/-- What follows the capitals that are lowered is a small letter only where there is but one.
    Otherwise the last capital of a run belongs to the word that follows, and is left as it is. -/
theorem headLength_eq_one (h : (s.drop (headLength s)).head?.any Char.isLower = true) :
    headLength s = 1 := by
  unfold headLength at h ⊢
  dsimp only at h ⊢
  split at h
  · -- The last capital of the run is left, and it is not small.
    rename_i hrun
    rw [Bool.and_eq_true, decide_eq_true_iff] at hrun
    have hlt : (s.takeWhile Char.isUpper).length - 1 < (s.takeWhile Char.isUpper).length := by
      omega
    rw [List.head?_drop, Option.any_eq_true] at h
    obtain ⟨a, ha, hlower⟩ := h
    exact absurd hlower (Char.not_isLower_of_isUpper (isUpper_of_lt_run hlt ha))
  · rename_i hrun
    rw [if_neg hrun]
    by_cases hone : (s.takeWhile Char.isUpper).length > 1
    · rw [max_eq_left hone.le] at h
      exact absurd (by simpa [hone] using h) hrun
    · exact max_eq_right (by omega)

/-- A separator in front of what follows ends the head. If the identifier is all capitals, the run
    goes on for one letter, which is then left out again. -/
theorem headLength_append (hs : Capital s) (t : List Char) :
    headLength (s ++ 'T' :: 'o' :: t) = headLength s := by
  have hpos : 0 < s.length := by
    obtain ⟨c, r, rfl, -⟩ := hs
    exact Nat.succ_pos _
  by_cases hall : (s.takeWhile Char.isUpper).length = s.length
  · -- All of `s` are capitals, and the separator opens a word.
    have hrun : (s ++ 'T' :: 'o' :: t).takeWhile Char.isUpper = s ++ ['T'] := by
      rw [List.takeWhile_append, if_pos hall]
      rfl
    have hnext : (s ++ 'T' :: 'o' :: t).drop (s.length + 1) = 'o' :: t := by
      rw [List.drop_append, List.drop_eq_nil_of_le (Nat.le_succ _)]
      simp
    unfold headLength
    dsimp only
    rw [hrun, hall, List.length_append, List.length_singleton, hnext, List.drop_length]
    rw [if_pos (by simpa using hpos), if_neg (by simp)]
    omega
  -- The run of capitals ends inside `s`, so nothing behind `s` is looked at.
  · have hrun : (s ++ 'T' :: 'o' :: t).takeWhile Char.isUpper = s.takeWhile Char.isUpper := by
      rw [List.takeWhile_append, if_neg hall]
    have hlt : (s.takeWhile Char.isUpper).length < s.length :=
      lt_of_le_of_ne (List.takeWhile_prefix _).length_le hall
    unfold headLength
    rw [hrun]
    simp only [List.head?_drop, List.getElem?_append_left hlt]

theorem lowerHead_append (hs : Capital s) (t : List Char) :
    lowerHead (s ++ 'T' :: 'o' :: t) = lowerHead s ++ 'T' :: 'o' :: t := by
  have hle := headLength_le hs
  unfold lowerHead
  rw [headLength_append hs, List.take_append_of_le_length hle, List.drop_append_of_le_length hle,
    List.append_assoc]

/-- An identifier with the capitals at its head lowered, but for the first: `ABFoo` becomes `AbFoo`.
    It is the one other identifier that has the same head when lowered. -/
def tamed (s : List Char) : List Char :=
  match lowerHead s with
  | [] => []
  | c :: r => c.toUpper :: r

/-- Where there is but one capital to lower, there is nothing to tame. -/
theorem tamed_eq_self (hs : Capital s) (h : headLength s = 1) : tamed s = s := by
  obtain ⟨c, r, rfl, hc⟩ := hs
  unfold tamed lowerHead
  rw [h]
  simp [lower, toUpper_toLower hc]

/-- Where there are more, the second letter tells which of the two an identifier is. It is a capital
    in an identifier that was exported and a small letter in one that was tamed. -/
theorem tamed_eq_cons (hs : Capital s) (h : headLength s ≠ 1) :
    ∃ c d r r', s = c :: d :: r ∧ c.isUpper = true ∧ d.isUpper = true ∧
      tamed s = c :: d.toLower :: r' ∧ lowerHead s = c.toLower :: d.toLower :: r' := by
  have hpos := headLength_pos s
  have hle := headLength_le hs
  have hup := fun c => isUpper_of_mem_take (c := c) hs
  -- The head is one letter or at least two, and here it is not one.
  obtain ⟨n, hn⟩ : ∃ n, headLength s = n + 2 := ⟨headLength s - 2, by omega⟩
  rw [hn] at hle hup
  match s, hle with
  | c :: d :: r, _ =>
    have hc := hup c (by simp)
    have hd := hup d (by simp)
    have hlower : lowerHead (c :: d :: r) =
        c.toLower :: d.toLower :: (lower (r.take n) ++ r.drop n) := by
      unfold lowerHead
      rw [hn]
      rfl
    refine ⟨c, d, r, _, rfl, hc, hd, ?_, hlower⟩
    unfold tamed
    rw [hlower]
    dsimp only
    rw [toUpper_toLower hc]

/-- An identifier and its tamed form look the same once the head is lowered. That is why two names
    that differ in capitals only can become one name of a helper. -/
theorem lowerHead_tamed (hs : Capital s) : lowerHead (tamed s) = lowerHead s := by
  by_cases h : headLength s = 1
  · rw [tamed_eq_self hs h]
  · obtain ⟨c, d, r, r', -, hc, hd, htamed, hlower⟩ := tamed_eq_cons hs h
    have hsmall : d.toLower.isUpper = false := Char.isUpper_toLower_eq_false d
    have hone : headLength (c :: d.toLower :: r') = 1 := by
      unfold headLength
      simp [hc, hsmall]
    rw [htamed, hlower, lowerHead, hone]
    rfl

theorem length_lower_take (hs : Capital s) :
    (lower (s.take (headLength s))).length = headLength s := by
  rw [lower, List.length_map, List.length_take, min_eq_left (headLength_le hs)]

theorem getElem?_lowerHead_of_lt (hs : Capital s) {i : Nat} (hi : i < headLength s) :
    ∃ a : Char, a.isUpper = true ∧ (lowerHead s)[i]? = some a.toLower := by
  have hlt : i < s.length := hi.trans_le (headLength_le hs)
  refine ⟨s[i], isUpper_of_mem_take hs (List.mem_take_iff_getElem.mpr ⟨i, by omega, rfl⟩), ?_⟩
  rw [lowerHead, List.getElem?_append_left (by rwa [length_lower_take hs]), lower,
    List.getElem?_map, List.getElem?_take_of_lt hi, List.getElem?_eq_getElem hlt, Option.map_some]

theorem head?_drop_lowerHead (hs : Capital s) :
    (lowerHead s)[headLength s]? = (s.drop (headLength s)).head? := by
  rw [lowerHead, List.getElem?_append_right (by rw [length_lower_take hs]), length_lower_take hs,
    Nat.sub_self, List.head?_eq_getElem?]

/-- What can be read back of an identifier whose head was lowered: the identifier, or the one of
    which it is the tamed form. -/
theorem lowerHead_eq_iff (hx : Capital x) (hy : Capital y) :
    lowerHead x = lowerHead y ↔ x = y ∨ y = tamed x ∨ x = tamed y := by
  -- A shorter head ends in front of a small letter, so it is one capital.
  have shorter : ∀ {x y : List Char}, Capital x → Capital y → lowerHead x = lowerHead y →
      headLength y < headLength x → y = tamed x := by
    intro x y hx hy h hlt
    have hone : headLength y = 1 := by
      obtain ⟨a, ha, hsmall⟩ := getElem?_lowerHead_of_lt hx hlt
      rw [h, head?_drop_lowerHead hy] at hsmall
      refine headLength_eq_one ?_
      rw [hsmall, Option.any_some, Char.isLower_toLower_eq_isAlpha, Char.isAlpha, ha, Bool.true_or]
    rw [← tamed_eq_self hy hone, tamed, tamed, h]
  constructor
  · intro h
    rcases lt_trichotomy (headLength x) (headLength y) with hlt | heq | hlt
    · exact Or.inr (Or.inr (shorter hy hx h.symm hlt))
    · -- Heads of one length were all capitals, so they are the same.
      refine Or.inl ?_
      obtain ⟨htake, hdrop⟩ := List.append_inj h
        (by rw [length_lower_take hx, length_lower_take hy, heq])
      have htake := congrArg upper htake
      rw [upper_lower fun c => isUpper_of_mem_take hx, upper_lower fun c => isUpper_of_mem_take hy]
        at htake
      rw [← List.take_append_drop (headLength x) x, htake, hdrop, List.take_append_drop]
    · exact Or.inr (Or.inl (shorter hx hy h hlt))
  · intro h
    rcases h with rfl | rfl | rfl
    · rfl
    · exact (lowerHead_tamed hx).symm
    · exact lowerHead_tamed hy

/-- Behind another identifier none is tamed without a trace. The capital at its front stands in the
    middle of the whole, where only capitals could have been lowered. -/
theorem eq_of_append_eq_tamed (hv : Capital v) (hy : Capital y)
    (h : v ++ y = tamed (v ++ x)) : x = y := by
  have hvx : Capital (v ++ x) := hv.append x
  by_cases hone : headLength (v ++ x) = 1
  · rw [tamed_eq_self hvx hone] at h
    exact (List.append_cancel_left h).symm
  · -- The second letter is a capital of one and a small letter of the other.
    obtain ⟨c, d, r, r', hcons, -, hd, htamed, -⟩ := tamed_eq_cons hvx hone
    have hsmall : d.toLower.isUpper = false := Char.isUpper_toLower_eq_false d
    rw [htamed] at h
    obtain ⟨a, v, rfl, -⟩ := hv
    cases v with
    | nil =>
      obtain ⟨b, y, rfl, hb⟩ := hy
      obtain ⟨-, rfl, -⟩ : a = c ∧ b = d.toLower ∧ y = r' := by simpa using h
      simp [hsmall] at hb
    | cons b v =>
      obtain ⟨-, rfl, -⟩ : a = c ∧ b = d ∧ v ++ x = r := by simpa using hcons
      obtain ⟨-, hb, -⟩ : a = c ∧ b = b.toLower ∧ v ++ y = r' := by simpa using h
      rw [← hb, hd] at hsmall
      exact absurd hsmall (by decide)

/-- With an identifier in front, all can be read back. This is why a prefix helps. -/
theorem lowerHead_append_inj (hv : Capital v) (hx : Capital x) (hy : Capital y) :
    lowerHead (v ++ x) = lowerHead (v ++ y) ↔ x = y := by
  constructor
  · intro h
    rcases (lowerHead_eq_iff (hv.append x) (hv.append y)).mp h with h | h | h
    · exact List.append_cancel_left h
    · exact eq_of_append_eq_tamed hv hy h
    · exact (eq_of_append_eq_tamed hv hx h).symm
  · rintro rfl
    rfl

/-! ## Joining with a separator -/

/-- Two joins are equal if their parts are, or if the separator also occurs in a part: then the name
    can be cut in two places. -/
theorem append_separator_eq_iff :
    x ++ 'T' :: 'o' :: s = y ++ 'T' :: 'o' :: t ↔
      (x = y ∧ s = t) ∨ (∃ m, y = x ++ 'T' :: 'o' :: m ∧ s = m ++ 'T' :: 'o' :: t) ∨
        ∃ m, x = y ++ 'T' :: 'o' :: m ∧ t = m ++ 'T' :: 'o' :: s := by
  -- What one side has more in front of the separator starts with a separator itself.
  have more : ∀ {x y s t as : List Char}, y = x ++ as → 'T' :: 'o' :: s = as ++ 'T' :: 'o' :: t →
      (x = y ∧ s = t) ∨ ∃ m, y = x ++ 'T' :: 'o' :: m ∧ s = m ++ 'T' :: 'o' :: t := by
    rintro x y s t as rfl h
    match as with
    | [] => exact Or.inl (by simpa using h)
    -- The separator has two different letters, so two occurrences do not overlap.
    | [a] => simp at h
    | a :: b :: m =>
      obtain ⟨rfl, rfl, rfl⟩ : 'T' = a ∧ 'o' = b ∧ s = m ++ 'T' :: 'o' :: t := by simpa using h
      exact Or.inr ⟨m, rfl, rfl⟩
  constructor
  · intro h
    rcases List.append_eq_append_iff.mp h with ⟨as, hy, hs⟩ | ⟨as, hx, ht⟩
    · exact (more hy hs).imp id Or.inl
    · exact (more hx ht).imp (fun ⟨hxy, hst⟩ => ⟨hxy.symm, hst.symm⟩) Or.inr
  · intro h
    rcases h with ⟨rfl, rfl⟩ | ⟨m, rfl, rfl⟩ | ⟨m, rfl, rfl⟩
    · rfl
    · simp
    · simp

/-- No keyword has a capital, so the name that is joined is not reserved. -/
theorem lowerCamelChars_append (hs : Capital s) (t : List Char) :
    lowerCamelChars (s ++ 'T' :: 'o' :: t) = lowerHead s ++ 'T' :: 'o' :: t := by
  have hkeywords : ∀ k ∈ keywords, 'T' ∉ k := by decide
  rw [lowerCamelChars, lowerHead_append hs, unreserved, if_neg]
  intro h
  exact hkeywords _ (List.contains_iff_mem.mp h) (by simp)

end Identifier
end Shapewright
