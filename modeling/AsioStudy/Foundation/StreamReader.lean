import Mathlib

/-!
# Programs that read a stream

A program that reads a stream piece by piece turns a list of items into a value and the items that
it has not read, or it fails.  `Consumes p input a` says that `p` reads exactly `input`, whatever
follows, and yields `a`; its rules follow the structure of the program.
-/

namespace AsioStudy

namespace StreamReader

variable {β ε α γ : Type}

/-- A program that reads items of type `β` and may fail with an error of type `ε`. -/
abbrev Reader (β ε : Type) := StateT (List β) (Except ε)

/-- Read exactly `n` items; `eof` is the error when there are fewer. -/
def readVector (eof : ε) (n : ℕ) : Reader β ε (Vector β n) := fun items =>
  if h : n ≤ items.length then
    .ok (⟨(items.take n).toArray, by simpa using h⟩, items.drop n)
  else .error eof

/-- Read up to the first `stop`, which is read too but not yielded. -/
def readUpTo [DecidableEq β] (eof : ε) (stop : β) : Reader β ε (List β) := fun items =>
  match items.dropWhile (· ≠ stop) with
  | [] => .error eof
  | _ :: rest => .ok (items.takeWhile (· ≠ stop), rest)

/-- The program reads exactly the given items and yields the given value, and it leaves what
follows. -/
def Consumes (p : Reader β ε α) (input : List β) (a : α) : Prop :=
  ∀ rest, p (input ++ rest) = .ok (a, rest)

/-- A value is yielded without reading. -/
lemma consumes_pure (a : α) : Consumes (pure a : Reader β ε α) [] a := fun _ => rfl

/-- **Sequence rule.**  What two programs consume one after the other. -/
lemma Consumes.bind {p : Reader β ε α} {f : α → Reader β ε γ} {input input' : List β} {a : α}
    {c : γ} (hp : Consumes p input a) (hf : Consumes (f a) input' c) :
    Consumes (p >>= f) (input ++ input') c := by
  intro rest
  have hrun : (p >>= f) (input ++ input' ++ rest) =
      (p (input ++ input' ++ rest) >>= fun r => f r.1 r.2) := rfl
  rw [hrun, List.append_assoc, hp]
  exact hf rest

/-- Reading a fixed number of items consumes them. -/
lemma consumes_readVector (eof : ε) {n : ℕ} (v : Vector β n) :
    Consumes (readVector eof n) v.toList v := by
  intro rest
  have hlen : v.toList.length = n := by simp
  have hle : n ≤ (v.toList ++ rest).length := by
    rw [List.length_append, hlen]
    exact Nat.le_add_right _ _
  unfold readVector
  rw [dif_pos hle]
  have hdrop : (v.toList ++ rest).drop n = rest := List.drop_left' hlen
  have htake : (v.toList ++ rest).take n = v.toList := List.take_left' hlen
  congr 1
  refine Prod.ext ?_ hdrop
  apply Vector.toArray_inj.mp
  simp only [htake]
  exact Array.toArray_toList

/-- Reading up to a stop item consumes the items before it and the stop item. -/
lemma consumes_readUpTo [DecidableEq β] (eof : ε) {stop : β} {items : List β}
    (h : stop ∉ items) : Consumes (readUpTo eof stop) (items ++ [stop]) items := by
  intro rest
  have hne : ∀ x ∈ items, decide (x ≠ stop) = true := by
    intro x hx
    exact decide_eq_true fun heq => h (heq ▸ hx)
  have hsplit : items ++ [stop] ++ rest = items ++ stop :: rest := by simp
  have hdrop : (items ++ stop :: rest).dropWhile (· ≠ stop) = stop :: rest := by
    rw [List.dropWhile_append_of_pos hne]
    exact List.dropWhile_cons_of_neg (by simp)
  have htake : (items ++ stop :: rest).takeWhile (· ≠ stop) = items := by
    rw [List.takeWhile_append_of_pos hne, List.takeWhile_cons_of_neg (by simp), List.append_nil]
  unfold readUpTo
  rw [hsplit, hdrop, htake]

/-- What a program yields on an input that it consumes. -/
lemma Consumes.unique {p : Reader β ε α} {input rest rest' : List β} {a a' : α}
    (h : Consumes p input a) (hrun : p (input ++ rest) = .ok (a', rest')) :
    a' = a ∧ rest' = rest := by
  rw [h] at hrun
  cases hrun
  exact ⟨rfl, rfl⟩

end StreamReader

end AsioStudy
