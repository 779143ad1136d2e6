import Mathlib

/-!
# The order of a binary heap

A binary heap is an array in which no entry is smaller than the entry at its parent position.  Here
it is a function from all positions to keys, those behind the end of the array being the largest, so
that no bound has to be carried along.

An entry that may be out of order is moved up or down by exchanging it with its parent or with its
smaller child.  `UpOrder` and `DownOrder` are what holds in between; an exchange keeps them
(`UpOrder.swap`, `DownOrder.swap`), and when no exchange is due the keys form a heap again.
-/

namespace AsioStudy

namespace HeapOrder

variable {K : Type*} [LinearOrder K] {key key' : ℕ → K} {i j k : ℕ}

/-- The position above a position. -/
def parent (i : ℕ) : ℕ := (i - 1) / 2

/-- The position above a position is before it. -/
lemma parent_lt (h : 0 < i) : parent i < i := by
  unfold parent
  omega

/-- The positions below a position. -/
lemma parent_eq_iff (h : 0 < i) : parent i = k ↔ i = 2 * k + 1 ∨ i = 2 * k + 2 := by
  unfold parent
  omega

/-- No key is smaller than the one above it. -/
def IsHeap (key : ℕ → K) : Prop := ∀ i, 0 < i → key (parent i) ≤ key i

/-- The first key of a heap is a smallest one. -/
lemma IsHeap.zero_le (h : IsHeap key) (i : ℕ) : key 0 ≤ key i := by
  induction i using Nat.strong_induction_on with
  | _ i ih =>
    rcases Nat.eq_zero_or_pos i with rfl | hpos
    · exact le_rfl
    · exact (ih (parent i) (parent_lt hpos)).trans (h i hpos)

/-- All keys are in order, but the one at `k` may be smaller than the one above it. -/
structure UpOrder (key : ℕ → K) (k : ℕ) : Prop where
  other : ∀ i, 0 < i → i ≠ k → key (parent i) ≤ key i
  grand : ∀ i, 0 < i → parent i = k → 0 < k → key (parent k) ≤ key i

/-- All keys are in order, but the one at `k` may be larger than the ones below it. -/
structure DownOrder (key : ℕ → K) (k : ℕ) : Prop where
  other : ∀ i, 0 < i → parent i ≠ k → key (parent i) ≤ key i
  grand : ∀ i, 0 < i → parent i = k → 0 < k → key (parent k) ≤ key i

/-- The way up ends at the top, or when the key above is not larger. -/
lemma UpOrder.isHeap (h : UpOrder key k) (hk : 0 < k → key (parent k) ≤ key k) : IsHeap key := by
  intro i hi
  by_cases hik : i = k
  · rw [hik] at hi ⊢
    exact hk hi
  · exact h.other i hi hik

/-- The way down ends when no key below is smaller. -/
lemma DownOrder.isHeap (h : DownOrder key k)
    (hk : ∀ i, 0 < i → parent i = k → key k ≤ key i) : IsHeap key := by
  intro i hi
  by_cases hik : parent i = k
  · rw [hik]
    exact hk i hi hik
  · exact h.other i hi hik

omit [LinearOrder K] in
/-- A position that an exchange does not touch. -/
lemma comp_swap_of_ne (hi : k ≠ i) (hj : k ≠ j) : (key ∘ Equiv.swap i j) k = key k :=
  congrArg key (Equiv.swap_apply_of_ne_of_ne hi hj)

omit [LinearOrder K] in
/-- The first position of an exchange. -/
lemma comp_swap_left : (key ∘ Equiv.swap i j) i = key j := congrArg key (Equiv.swap_apply_left i j)

omit [LinearOrder K] in
/-- The second position of an exchange. -/
lemma comp_swap_right : (key ∘ Equiv.swap i j) j = key i :=
  congrArg key (Equiv.swap_apply_right i j)

/-- **One exchange on the way up.** -/
theorem UpOrder.swap (h : UpOrder key k) (hk : 0 < k) (hlt : key k < key (parent k)) :
    UpOrder (key ∘ Equiv.swap k (parent k)) (parent k) := by
  have hparent := parent_lt hk
  constructor
  · intro i hi hne
    have hi' := parent_lt hi
    by_cases hik : i = k
    · rw [hik, comp_swap_right, comp_swap_left]
      exact hlt.le
    · rw [comp_swap_of_ne hik hne]
      by_cases hchild : parent i = k
      · rw [hchild, comp_swap_left]
        exact h.grand i hi hchild hk
      · by_cases hsibling : parent i = parent k
        · rw [hsibling, comp_swap_right]
          exact hlt.le.trans (hsibling ▸ h.other i hi hik)
        · rw [comp_swap_of_ne hchild hsibling]
          exact h.other i hi hik
  · intro i hi hchild hpos
    have hgrand := parent_lt hpos
    have hle := h.other (parent k) hpos hparent.ne
    rw [comp_swap_of_ne (hgrand.trans hparent).ne hgrand.ne]
    by_cases hik : i = k
    · rw [hik, comp_swap_left]
      exact hle
    · have hne : i ≠ parent k := by
        have hi' := parent_lt hi
        rw [hchild] at hi'
        exact hi'.ne'
      rw [comp_swap_of_ne hik hne]
      exact hle.trans (hchild ▸ h.other i hi hik)

/-- **One exchange on the way down**, with the smaller one of the keys below. -/
theorem DownOrder.swap (h : DownOrder key k) (hj : 0 < j) (hparent : parent j = k)
    (hmin : ∀ i, 0 < i → parent i = k → key j ≤ key i) (hle : key j ≤ key k) :
    DownOrder (key ∘ Equiv.swap k j) j := by
  have hkj : k < j := hparent ▸ parent_lt hj
  constructor
  · intro i hi hne
    have hi' := parent_lt hi
    by_cases hij : i = j
    · rw [hij, hparent, comp_swap_left, comp_swap_right]
      exact hle
    · by_cases hchild : parent i = k
      · have hik : i ≠ k := by omega
        rw [hchild, comp_swap_left, comp_swap_of_ne hik hij]
        exact hmin i hi hchild
      · rw [comp_swap_of_ne hchild hne]
        by_cases hik : i = k
        · rw [hik] at hi ⊢
          rw [comp_swap_left]
          exact h.grand j hj hparent hi
        · rw [comp_swap_of_ne hik hij]
          exact h.other i hi hchild
  · intro i hi hchild _
    have hi' := parent_lt hi
    rw [hparent, comp_swap_left, comp_swap_of_ne (by omega) (by omega), ← hchild]
    exact h.other i hi (by omega)

/-- **An arbitrary new key** at one position of a heap has to go up or down. -/
theorem IsHeap.repair (h : IsHeap key) (hother : ∀ i, i ≠ k → key' i = key i) :
    (0 < k ∧ key' k < key' (parent k) → UpOrder key' k) ∧
      (¬ (0 < k ∧ key' k < key' (parent k)) → DownOrder key' k) := by
  have hgrand : ∀ i, 0 < i → parent i = k → 0 < k → key' (parent k) ≤ key' i := by
    intro i hi hchild hk
    have hi' := parent_lt hi
    rw [hother _ (parent_lt hk).ne, hother i (by omega)]
    exact (h k hk).trans (hchild ▸ h i hi)
  constructor
  · rintro ⟨hk, hlt⟩
    refine ⟨fun i hi hne => ?_, hgrand⟩
    by_cases hchild : parent i = k
    · rw [hchild]
      exact hlt.le.trans (hgrand i hi hchild hk)
    · rw [hother i hne, hother _ hchild]
      exact h i hi
  · intro hnot
    refine ⟨fun i hi hchild => ?_, hgrand⟩
    by_cases hik : i = k
    · rw [hik] at hi ⊢
      exact not_lt.mp fun hlt => hnot ⟨hi, hlt⟩
    · rw [hother i hik, hother _ hchild]
      exact h i hi

/-- A new key behind the end of a heap, where all keys are the largest. -/
lemma IsHeap.push [OrderTop K] (h : IsHeap key) (hother : ∀ i, i ≠ k → key' i = key i)
    (hend : ∀ i, k ≤ i → key i = ⊤) : UpOrder key' k := by
  have htop : ∀ i, 0 < i → parent i = k → key' i = ⊤ := by
    intro i hi hchild
    have hi' := parent_lt hi
    rw [hother i (by omega), hend i (by omega)]
  constructor
  · intro i hi hne
    by_cases hchild : parent i = k
    · rw [htop i hi hchild]
      exact le_top
    · rw [hother i hne, hother _ hchild]
      exact h i hi
  · intro i hi hchild _
    rw [htop i hi hchild]
    exact le_top

/-- A heap without its last key. -/
lemma IsHeap.pop [OrderTop K] (h : IsHeap key) (hother : ∀ i, i ≠ k → key' i = key i)
    (hlast : key' k = ⊤) (hend : ∀ i, k < i → key i = ⊤) : IsHeap key' := by
  intro i hi
  have hi' := parent_lt hi
  by_cases hik : i = k
  · rw [hik, hlast]
    exact le_top
  · by_cases hchild : parent i = k
    · rw [hother i hik, hend i (by omega)]
      exact le_top
    · rw [hother i hik, hother _ hchild]
      exact h i hi

end HeapOrder

end AsioStudy
