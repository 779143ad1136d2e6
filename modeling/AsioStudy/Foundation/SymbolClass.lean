import Mathlib

/-!
# Languages of symbol classes and their first-symbol residuals

Grammars of byte protocols are written from three blocks: one symbol of a class (`oneOf P`), a
literal word (`word u`) and the Kleene star of such blocks.  For each of them this file says what
remains of a string of the language when its first symbol has been read.
-/

open Computability

namespace AsioStudy

namespace SymbolClass

variable {α : Type*}

/-- The one-symbol strings whose symbol satisfies `P`. -/
def oneOf (P : α → Prop) : Language α := {w | ∃ b, P b ∧ w = [b]}

/-- The language whose only member is the literal word `u`. -/
def word (u : List α) : Language α := {w | w = u}

variable {P : α → Prop} {L M : Language α}

/-- Membership of a string in the language of a literal word. -/
lemma mem_word {u w : List α} : w ∈ word u ↔ w = u := Iff.rfl

/-! ## The empty string -/

/-- A product contains the empty string when both factors do. -/
lemma nil_mem_mul : [] ∈ L * M ↔ [] ∈ L ∧ [] ∈ M := by
  rw [Language.mem_mul]
  constructor
  · rintro ⟨a, ha, b, hb, hab⟩
    obtain ⟨rfl, rfl⟩ := List.append_eq_nil_iff.mp hab
    exact ⟨ha, hb⟩
  · rintro ⟨ha, hb⟩
    exact ⟨[], ha, [], hb, rfl⟩

/-- No string of a symbol class is empty. -/
@[simp] lemma nil_notMem_oneOf : [] ∉ oneOf P := by
  rintro ⟨b, -, hb⟩
  cases hb

/-- A nonempty literal word is not the empty string. -/
@[simp] lemma nil_notMem_word_cons (a : α) (u : List α) : [] ∉ word (a :: u) :=
  fun h => List.cons_ne_nil a u (mem_word.mp h).symm

/-! ## Removing the first symbol -/

/-- The literal empty word is the unit of the product. -/
@[simp] lemma word_nil : word ([] : List α) = 1 := rfl

/-- After its first symbol, a string of `oneOf P * L` is a string of `L`. -/
lemma cons_mem_oneOf_mul {b : α} {w : List α} : b :: w ∈ oneOf P * L ↔ P b ∧ w ∈ L := by
  rw [Language.mem_mul]
  constructor
  · rintro ⟨u, ⟨a, ha, rfl⟩, v, hv, huv⟩
    obtain ⟨rfl, rfl⟩ := List.cons_eq_cons.mp huv
    exact ⟨ha, hv⟩
  · rintro ⟨hb, hw⟩
    exact ⟨[b], ⟨b, hb, rfl⟩, w, hw, rfl⟩

/-- After its first symbol, a literal word continues with the rest of the word. -/
lemma cons_mem_word_mul {a b : α} {u w : List α} :
    b :: w ∈ word (a :: u) * L ↔ b = a ∧ w ∈ word u * L := by
  simp only [Language.mem_mul, mem_word]
  constructor
  · rintro ⟨_, rfl, v, hv, huv⟩
    obtain ⟨rfl, rfl⟩ := List.cons_eq_cons.mp huv
    exact ⟨rfl, u, rfl, v, hv, rfl⟩
  · rintro ⟨rfl, _, rfl, v, hv, rfl⟩
    exact ⟨b :: _, rfl, v, hv, rfl⟩

/-- A starred factor is either absent or begins with one of its blocks. -/
lemma kstar_mul_eq : M∗ * L = L + M * (M∗ * L) := by
  conv_lhs => rw [← Language.one_add_self_mul_kstar_eq_kstar M]
  rw [add_mul, one_mul, mul_assoc]

/-- The first symbol of a string of `(oneOf P)∗ * L` belongs to the class or begins the string of
`L`. -/
lemma cons_mem_kstar_oneOf_mul {b : α} {w : List α} :
    b :: w ∈ (oneOf P)∗ * L ↔ (P b ∧ w ∈ (oneOf P)∗ * L) ∨ b :: w ∈ L := by
  conv_lhs => rw [kstar_mul_eq]
  rw [Language.mem_add, cons_mem_oneOf_mul, or_comm]

/-! ## Nonempty languages -/

/-- A product of nonempty languages is nonempty. -/
lemma exists_mem_mul (hL : ∃ w, w ∈ L) (hM : ∃ w, w ∈ M) : ∃ w, w ∈ L * M := by
  obtain ⟨u, hu⟩ := hL
  obtain ⟨v, hv⟩ := hM
  exact ⟨u ++ v, Language.append_mem_mul hu hv⟩

/-- A starred factor keeps a nonempty language nonempty. -/
lemma exists_mem_kstar_mul (hL : ∃ w, w ∈ L) : ∃ w, w ∈ M∗ * L :=
  exists_mem_mul ⟨[], Language.nil_mem_kstar M⟩ hL

/-- A literal word is a nonempty language. -/
lemma exists_mem_word (u : List α) : ∃ w, w ∈ word u := ⟨u, rfl⟩

/-- The language of an inhabited symbol class is nonempty. -/
lemma exists_mem_oneOf {b : α} (hb : P b) : ∃ w, w ∈ oneOf P := ⟨[b], b, hb, rfl⟩

end SymbolClass

end AsioStudy
