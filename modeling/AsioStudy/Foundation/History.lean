import Mathlib

/-!
# The recent part of a sequence, and common parts of two views of it

`lastN` is the part of a sequence that a bounded history keeps.  Two views of one sequence without
repetitions agree on what they have in common, in order and without loss or duplication
(`filter_mem_comm`).
-/

namespace AsioStudy

namespace History

variable {α : Type*}

/-- The last `n` entries of a list, or all of them if there are fewer. -/
def lastN (n : ℕ) (l : List α) : List α := l.drop (l.length - n)

/-- The recent part is a suffix. -/
lemma lastN_suffix (n : ℕ) (l : List α) : lastN n l <:+ l := List.drop_suffix _ l

/-- A short list is recent as a whole. -/
lemma lastN_of_length_le {n : ℕ} {l : List α} (h : l.length ≤ n) : lastN n l = l := by
  rw [lastN, Nat.sub_eq_zero_of_le h, List.drop_zero]

/-- The first entry of a list that is too long is not recent. -/
lemma lastN_cons_of_le {n : ℕ} {l : List α} (a : α) (h : n ≤ l.length) :
    lastN n (a :: l) = lastN n l := by
  rw [lastN, lastN, List.length_cons, Nat.succ_sub h, List.drop_succ_cons]

/-- A history that has forgotten its older part forgets nothing else when it grows. -/
lemma lastN_append_lastN (n : ℕ) (l l' : List α) :
    lastN n (lastN n l ++ l') = lastN n (l ++ l') := by
  simp only [lastN, List.length_append, List.length_drop, List.drop_append, List.drop_drop]
  congr 1
  · congr 1
    omega
  · congr 1
    omega

/-- A part of a list without repetitions consists of the entries that belong to it. -/
lemma filter_mem_of_sublist [DecidableEq α] {s l : List α} (hs : s.Sublist l) (hl : l.Nodup) :
    l.filter (· ∈ s) = s := by
  induction hs with
  | slnil => rfl
  | @cons s l a hs ih =>
    obtain ⟨ha, hl⟩ := List.nodup_cons.mp hl
    have hnot : a ∉ s := fun hmem => ha (hs.subset hmem)
    rw [List.filter_cons_of_neg (by simpa using hnot), ih hl]
  | @cons_cons s l a hs ih =>
    obtain ⟨ha, hl⟩ := List.nodup_cons.mp hl
    rw [List.filter_cons_of_pos (by simp)]
    congr 1
    -- the head occurs nowhere else, so that it does not matter for the other entries
    rw [← ih hl]
    refine List.filter_congr fun b hb => ?_
    have hba : b ≠ a := fun h => ha (h ▸ hb)
    rw [ih hl]
    simp [hba]

/-- Two parts of a list without repetitions have the same common entries in the same order. -/
lemma filter_mem_comm [DecidableEq α] {s t l : List α} (hs : s.Sublist l) (ht : t.Sublist l)
    (hl : l.Nodup) : s.filter (· ∈ t) = t.filter (· ∈ s) := by
  have hs' := filter_mem_of_sublist hs hl
  have ht' := filter_mem_of_sublist ht hl
  calc s.filter (· ∈ t) = (l.filter (· ∈ s)).filter (· ∈ t) := by rw [hs']
    _ = (l.filter (· ∈ t)).filter (· ∈ s) := List.filter_comm ..
    _ = t.filter (· ∈ s) := by rw [ht']

end History

end AsioStudy
