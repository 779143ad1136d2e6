import AsioStudy.Cpp.Char

/-!
# Integers in memory

The bytes of an integer as `memcpy` copies them on a little-endian host, and `htons`.  An integer
that is put together from its bytes, the most significant one first, is copied the other way round
(`memory32_ofBytes`); only one that went through `htons` is copied in network order
(`memory16_htons`).
-/

namespace AsioStudy

/-- The bytes of a `uint16_t` on a little-endian host. -/
def memory16 (value : UInt16) : Bytes := [value.toUInt8, (value >>> 8).toUInt8]

/-- The bytes of a `uint32_t` on a little-endian host. -/
def memory32 (value : UInt32) : Bytes :=
  [value.toUInt8, (value >>> 8).toUInt8, (value >>> 16).toUInt8, (value >>> 24).toUInt8]

/-- `htons` on a little-endian host. -/
def htons (value : UInt16) : UInt16 := (value <<< 8) ||| (value >>> 8)

/-- The integer with the given bytes, the most significant one first. -/
def ofBytes32 (a b c d : UInt8) : UInt32 :=
  (a.toUInt32 <<< 24) ||| (b.toUInt32 <<< 16) ||| (c.toUInt32 <<< 8) ||| d.toUInt32

/-- An integer that was converted with `htons` lies in memory in network order. -/
lemma memory16_htons (value : UInt16) :
    memory16 (htons value) = [((value >>> 8) &&& 0xFF).toUInt8, (value &&& 0xFF).toUInt8] := by
  have hlow : ∀ b : BitVec 16,
      ((b <<< 8) ||| (b >>> 8)).setWidth 8 = ((b >>> 8) &&& 0xFF#16).setWidth 8 := by
    intro b
    apply BitVec.eq_of_getLsbD_eq
    intro i hi
    interval_cases i <;> simp
  have hhigh : ∀ b : BitVec 16,
      (((b <<< 8) ||| (b >>> 8)) >>> 8).setWidth 8 = (b &&& 0xFF#16).setWidth 8 := by
    intro b
    apply BitVec.eq_of_getLsbD_eq
    intro i hi
    interval_cases i <;> simp
  have hfirst : (htons value).toUInt8 = ((value >>> 8) &&& 0xFF).toUInt8 :=
    UInt8.toBitVec_inj.mp (hlow value.toBitVec)
  have hsecond : (htons value >>> 8).toUInt8 = (value &&& 0xFF).toUInt8 :=
    UInt8.toBitVec_inj.mp (hhigh value.toBitVec)
  unfold memory16
  rw [hfirst, hsecond]

/-- Without such a conversion, the bytes lie in memory in the other order. -/
lemma memory32_ofBytes (a b c d : UInt8) : memory32 (ofBytes32 a b c d) = [d, c, b, a] := by
  have hvalue : ∀ a b c d : BitVec 8, ∀ word : BitVec 32,
      word = ((a.setWidth 32 <<< 24) ||| (b.setWidth 32 <<< 16) ||| (c.setWidth 32 <<< 8) |||
        d.setWidth 32) →
      word.setWidth 8 = d ∧ (word >>> 8).setWidth 8 = c ∧ (word >>> 16).setWidth 8 = b ∧
        (word >>> 24).setWidth 8 = a := by
    rintro a b c d word rfl
    refine ⟨?_, ?_, ?_, ?_⟩ <;>
    · apply BitVec.eq_of_getLsbD_eq
      intro i hi
      interval_cases i <;> simp
  obtain ⟨h0, h1, h2, h3⟩ := hvalue a.toBitVec b.toBitVec c.toBitVec d.toBitVec
    (ofBytes32 a b c d).toBitVec rfl
  have hd : (ofBytes32 a b c d).toUInt8 = d := UInt8.toBitVec_inj.mp h0
  have hc : (ofBytes32 a b c d >>> 8).toUInt8 = c := UInt8.toBitVec_inj.mp h1
  have hb : (ofBytes32 a b c d >>> 16).toUInt8 = b := UInt8.toBitVec_inj.mp h2
  have ha : (ofBytes32 a b c d >>> 24).toUInt8 = a := UInt8.toBitVec_inj.mp h3
  unfold memory32
  rw [hd, hc, hb, ha]

end AsioStudy
