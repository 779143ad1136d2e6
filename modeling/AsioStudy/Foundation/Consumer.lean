import Mathlib

/-!
# Sequences that are consumed from the front

A consumer offers pieces of what is left of a sequence of items and is told how many of the offered
items were taken.  `Consumer.Represents` is what its user relies on: a state stands for a sequence
and a position in it, what is offered are the next items, and consuming moves the position.
-/

namespace AsioStudy

/-- Something that offers items from the front of a sequence, in pieces and up to a number of
items, and is told how many of them were taken. -/
structure Consumer (σ α : Type*) where
  /-- Is nothing left? -/
  empty : σ → Bool
  /-- The next items, at most as many as wanted. -/
  prepare : σ → ℕ → List (List α)
  /-- So many of the next items were taken. -/
  consume : σ → ℕ → σ
  /-- How many items were taken in all. -/
  totalConsumed : σ → ℕ

namespace Consumer

variable {σ α : Type*}

/-- The state `s` stands for the items `xs`, of which the first `n` are taken, whenever
`Holds s xs n`. -/
structure Represents (c : Consumer σ α) (Holds : σ → List α → ℕ → Prop) : Prop where
  le_length : ∀ {s xs n}, Holds s xs n → n ≤ xs.length
  totalConsumed_eq : ∀ {s xs n}, Holds s xs n → c.totalConsumed s = n
  empty_iff : ∀ {s xs n}, Holds s xs n → (c.empty s = true ↔ n = xs.length)
  prepare_isPrefix : ∀ {s xs n} (m : ℕ), Holds s xs n → (c.prepare s m).flatten <+: xs.drop n
  length_prepare_le : ∀ {s xs n} (m : ℕ), Holds s xs n → (c.prepare s m).flatten.length ≤ m
  prepare_ne_nil : ∀ {s xs n m}, Holds s xs n → 0 < m → n < xs.length →
    (c.prepare s m).flatten ≠ []
  consume : ∀ {s xs n k}, Holds s xs n → n + k ≤ xs.length → Holds (c.consume s k) xs (n + k)

namespace Represents

variable {c : Consumer σ α} {Holds : σ → List α → ℕ → Prop} {s : σ} {xs : List α} {n k m : ℕ}

/-- What is taken of the offered items are the next items. -/
lemma take_prepare (h : c.Represents Holds) (hs : Holds s xs n)
    (hk : k ≤ (c.prepare s m).flatten.length) :
    (c.prepare s m).flatten.take k = (xs.drop n).take k := by
  obtain ⟨rest, hrest⟩ := h.prepare_isPrefix m hs
  rw [← hrest, List.take_append_of_le_length hk]

/-- No more is offered than is left. -/
lemma add_le_of_le_prepare (h : c.Represents Holds) (hs : Holds s xs n)
    (hk : k ≤ (c.prepare s m).flatten.length) : n + k ≤ xs.length := by
  have hpre := (h.prepare_isPrefix m hs).length_le
  have hle := h.le_length hs
  rw [List.length_drop] at hpre
  omega

/-- The items that were taken, together with those that are taken now. -/
lemma take_append_take_prepare (h : c.Represents Holds) (hs : Holds s xs n)
    (hk : k ≤ (c.prepare s m).flatten.length) :
    xs.take n ++ (c.prepare s m).flatten.take k = xs.take (n + k) := by
  rw [h.take_prepare hs hk, ← List.take_add]

end Represents

end Consumer

end AsioStudy
