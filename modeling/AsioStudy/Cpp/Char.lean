import Mathlib

/-!
# Bytes and plain `char`

The programs handle text as arrays of `char`.  A byte is a `UInt8` here; `charToInt` is the
integer promotion of a plain `char`, which is signed on the platforms the programs are built for,
so that a byte above 127 becomes a negative `int`.
-/

namespace AsioStudy

/-- A byte string, `std::string` or a contiguous range of `char`. -/
abbrev Bytes := List UInt8

/-- The byte of an ASCII character literal. -/
def ch (c : Char) : UInt8 := c.toUInt8

/-- The bytes of a string literal of the source, which are all ASCII. -/
def bytes (s : String) : Bytes := s.toList.map ch

/-- Promotion of a plain (signed) `char` to `int`. -/
def charToInt (c : UInt8) : ℤ := if c.toNat < 128 then c.toNat else (c.toNat : ℤ) - 256

/-- Conversion of an `int` to `char`, `static_cast<char>(value)`. -/
def intToChar (value : ℤ) : UInt8 := UInt8.ofNat (value % 256).toNat

/-- A promoted ASCII byte keeps its value, any other byte becomes negative. -/
lemma charToInt_cases (c : UInt8) :
    (c.toNat < 128 ∧ charToInt c = c.toNat) ∨
      (128 ≤ c.toNat ∧ c.toNat < 256 ∧ charToInt c = c.toNat - 256) := by
  by_cases h : c.toNat < 128
  · exact Or.inl ⟨h, if_pos h⟩
  · exact Or.inr ⟨Nat.le_of_not_lt h, c.toNat_lt, if_neg h⟩

/-- Promotion is injective. -/
lemma charToInt_injective : Function.Injective charToInt := by
  intro a b h
  have ha := charToInt_cases a
  have hb := charToInt_cases b
  apply UInt8.toNat_inj.mp
  omega

end AsioStudy
