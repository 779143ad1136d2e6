import Mathlib

/-!
# Round robin

A counter that goes through the positions `0, …, n - 1` and then starts again.  Its `k`-th value is
`k % n` (`next_mod`), and in any number of consecutive values each position occurs about as often as
each other one (`count_positions_le`).

When some of the values are not used, the positions of the used ones are balanced up to the number
of the unused ones (`count_le_of_perm`).
-/

namespace AsioStudy

namespace RoundRobin

/-- The value of the counter after `i`. -/
def next (n i : ℕ) : ℕ := if i + 1 = n then 0 else i + 1

/-- The counter counts modulo `n`. -/
lemma next_mod {n : ℕ} (hn : 0 < n) (k : ℕ) : next n (k % n) = (k + 1) % n := by
  have hlt := Nat.mod_lt k hn
  unfold next
  rw [← Nat.mod_add_mod]
  split_ifs with hlast
  · rw [hlast, Nat.mod_self]
  · exact (Nat.mod_eq_of_lt (by omega)).symm

/-- The `m` values of the counter from the `a`-th one on. -/
def positions (n a m : ℕ) : List ℕ := (List.range m).map fun j => (a + j) % n

/-- One value more. -/
lemma positions_succ (n a m : ℕ) : positions n a (m + 1) = positions n a m ++ [(a + m) % n] := by
  rw [positions, List.range_succ, List.map_append]
  rfl

/-- The values are positions. -/
lemma lt_of_mem_positions {n a m i : ℕ} (hn : 0 < n) (h : i ∈ positions n a m) : i < n := by
  obtain ⟨j, -, rfl⟩ := List.mem_map.mp h
  exact Nat.mod_lt _ hn

/-- Counting begins anywhere: the value is `c` exactly when the number of steps is congruent to the
distance from the first value to `c`. -/
lemma add_mod_eq_iff {n : ℕ} (hn : 0 < n) {c : ℕ} (hc : c < n) (a j : ℕ) :
    (a + j) % n = c ↔ j ≡ c + (n - a % n) [MOD n] := by
  have hle : a % n ≤ n := (Nat.mod_lt a hn).le
  have hdistance : a + (c + (n - a % n)) ≡ c [MOD n] := by
    calc a + (c + (n - a % n)) ≡ a % n + (c + (n - a % n)) [MOD n] :=
          (Nat.mod_modEq a n).symm.add_right _
      _ = c + n := by omega
      _ ≡ c [MOD n] := Nat.add_modEq_right
  have hc' : c % n = c := Nat.mod_eq_of_lt hc
  constructor
  · intro h
    have hmod : a + j ≡ c [MOD n] := h.trans hc'.symm
    exact Nat.ModEq.add_left_cancel' a (hmod.trans hdistance.symm)
  · intro h
    have hmod : a + j ≡ c [MOD n] := (h.add_left a).trans hdistance
    exact Eq.trans hmod hc'

/-- How often a position occurs among `m` consecutive values. -/
lemma count_positions {n : ℕ} (hn : 0 < n) {c : ℕ} (hc : c < n) (a m : ℕ) :
    (positions n a m).count c =
      m / n + if (c + (n - a % n)) % n < m % n then 1 else 0 := by
  rw [← Nat.count_modEq_card m hn, positions, List.count, List.countP_map, Nat.count]
  refine List.countP_congr fun j _ => ?_
  simpa using add_mod_eq_iff hn hc a j

/-- Among consecutive values, no position occurs more than once more often than another one. -/
theorem count_positions_le {n : ℕ} (hn : 0 < n) {c d : ℕ} (hc : c < n) (hd : d < n) (a m : ℕ) :
    (positions n a m).count c ≤ (positions n a m).count d + 1 := by
  rw [count_positions hn hc, count_positions hn hd]
  split_ifs <;> omega

/-- **Balance.**  If consecutive values are either used or not used, then no position is used more
often than another one by more than one and the number of the values that are not used. -/
theorem count_le_of_perm {n : ℕ} (hn : 0 < n) {used unused : List ℕ} {a m : ℕ}
    (h : (used ++ unused).Perm (positions n a m)) {c d : ℕ} (hc : c < n) (hd : d < n) :
    used.count c ≤ used.count d + 1 + unused.length := by
  have hle := count_positions_le hn hc hd a m
  rw [← h.count_eq, ← h.count_eq, List.count_append, List.count_append] at hle
  have hunused : unused.count d ≤ unused.length := List.count_le_length
  omega

end RoundRobin

end AsioStudy
