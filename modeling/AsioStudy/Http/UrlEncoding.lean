import AsioStudy.Http.RequestHandler

/-!
# Encoded targets

A byte of a target can be written as a `%` with two hexadecimal digits, a space also as a plus sign,
and any byte other than the percent and the plus sign as itself.  `Spells e b` says that `e` is one
of the many ways to write the byte string `b`.

`urlDecodeInto_spells`: `url_decode` undoes every one of them, whatever its output held before.
-/

namespace AsioStudy

namespace Http

/-- `url_decode(in, out)` with the previous content of `out`, which is cleared first. -/
def urlDecodeInto (inp out : Bytes) : Bool × Bytes :=
  let out := clear out
  urlDecodeFrom inp out

/-- The handler, whose `out` is a new string, decodes in the same way. -/
lemma urlDecodeInto_eq (inp out : Bytes) : urlDecodeInto inp out = urlDecode inp := rfl

/-- The ways to write one byte. -/
inductive SpellsByte : Bytes → UInt8 → Prop where
  /-- The two digits of the byte in base sixteen, each of them in upper or lower case. -/
  | escape (high low b : UInt8) (hhigh : hexDigit? high = some (b.toNat / 16))
      (hlow : hexDigit? low = some (b.toNat % 16)) : SpellsByte [ch '%', high, low] b
  /-- A plus sign for a space. -/
  | plus : SpellsByte [ch '+'] (ch ' ')
  /-- The byte itself. -/
  | itself (b : UInt8) (hpercent : b ≠ ch '%') (hplus : b ≠ ch '+') : SpellsByte [b] b

/-- The ways to write a byte string: each of its bytes is written independently. -/
def Spells (e b : Bytes) : Prop :=
  ∃ spellings : List Bytes, List.Forall₂ SpellsByte spellings b ∧ e = spellings.flatten

/-- From two hexadecimal digits their number is extracted. -/
lemma extractHexInt_digits {high low : UInt8} {m n : ℕ} (hhigh : hexDigit? high = some m)
    (hlow : hexDigit? low = some n) : extractHexInt [high, low] = some ((16 * m + n : ℕ) : ℤ) := by
  have hhighDigit : IsHexDigit high := by
    rw [IsHexDigit, hhigh]
    rfl
  have hlowDigit : IsHexDigit low := by
    rw [IsHexDigit, hlow]
    rfl
  -- the second digit is no letter `x`, so that the first one is no part of a base
  have hx : ¬ (low = ch 'x' ∨ low = ch 'X') := by
    rintro (rfl | rfl)
    · exact absurd hlowDigit (by decide)
    · exact absurd hlowDigit (by decide)
  have hmagnitude : hexMagnitude [high, low] = some (16 * m + n) := by
    have hvalue : hexValue [high, low] = 16 * m + n := by
      simp only [hexValue, List.foldl_cons, List.foldl_nil, hhigh, hlow, Option.getD_some]
      omega
    simp [hexMagnitude, hx, hhigh, hlow, hvalue]
  obtain ⟨hspace, hminus, hplus⟩ := hhighDigit.not_blank
  have hlt := hexMagnitude_lt (s := [high, low]) le_rfl hmagnitude
  unfold extractHexInt
  rw [List.dropWhile_cons_of_neg (by simp [hspace])]
  simp only [if_neg hminus, if_neg hplus, hmagnitude, bind_pure_comp, Option.map_eq_map,
    Option.map_map, Option.map_some]
  rw [Option.filter_some, if_pos]
  rw [Bool.and_eq_true, decide_eq_true_iff, decide_eq_true_iff]
  omega

/-- A byte is the character of its number. -/
lemma intToChar_toNat (b : UInt8) : intToChar (b.toNat : ℤ) = b := by
  have hmod : ((b.toNat : ℤ) % 256).toNat = b.toNat := by
    have hlt := b.toNat_lt
    omega
  rw [intToChar, hmod, UInt8.ofNat_toNat]

/-- **One byte.**  The decoder writes the byte that is spelled and goes on behind the spelling. -/
lemma urlDecodeFrom_append_of_spellsByte {e : Bytes} {b : UInt8} (h : SpellsByte e b)
    (rest out : Bytes) : urlDecodeFrom (e ++ rest) out = urlDecodeFrom rest (out ++ [b]) := by
  cases h with
  | escape high low _ hhigh hlow =>
    have hnumber : 16 * (b.toNat / 16) + b.toNat % 16 = b.toNat := Nat.div_add_mod _ _
    have hvalue := extractHexInt_digits hhigh hlow
    rw [hnumber] at hvalue
    change urlDecodeFrom (ch '%' :: high :: low :: rest) out = _
    rw [urlDecodeFrom.eq_def]
    simp only [if_true, hvalue, intToChar_toNat]
  | plus =>
    have hne : ch '+' ≠ ch '%' := by decide
    change urlDecodeFrom (ch '+' :: rest) out = _
    rw [urlDecodeFrom.eq_def]
    simp only [if_neg hne, if_true]
  | itself _ hpercent hplus =>
    change urlDecodeFrom (b :: rest) out = _
    rw [urlDecodeFrom.eq_def]
    simp only [if_neg hpercent, if_neg hplus]

/-- The decoder appends what is spelled to its output. -/
lemma urlDecodeFrom_flatten {spellings : List Bytes} {b : Bytes}
    (h : List.Forall₂ SpellsByte spellings b) (out : Bytes) :
    urlDecodeFrom spellings.flatten out = (true, out ++ b) := by
  induction h generalizing out with
  | nil =>
    rw [List.flatten_nil, List.append_nil]
    rfl
  | cons hbyte _ ih =>
    rw [List.flatten_cons, urlDecodeFrom_append_of_spellsByte hbyte, ih, List.append_assoc]
    rfl

/-- **Every encoding is undone.**  From every way to write a byte string, `url_decode` recovers the
byte string, whatever was in its output before. -/
theorem urlDecodeInto_spells {e b : Bytes} (h : Spells e b) (out : Bytes) :
    urlDecodeInto e out = (true, b) := by
  obtain ⟨spellings, hspellings, rfl⟩ := h
  rw [urlDecodeInto_eq]
  exact urlDecodeFrom_flatten hspellings []

/-- A path with a space, written as a plus sign, and the byte 255 at its end, written with digits in
both cases. -/
theorem urlDecodeInto_spells_mixed :
    urlDecodeInto (bytes "/a+%fF") (bytes "old") = (true, bytes "/a " ++ [255]) := by
  have hspells : Spells (bytes "/a+%fF") (bytes "/a " ++ [255]) := by
    refine ⟨[bytes "/", bytes "a", bytes "+", bytes "%fF"], ?_, by decide⟩
    exact .cons (.itself _ (by decide) (by decide)) (.cons (.itself _ (by decide) (by decide))
      (.cons .plus (.cons (.escape _ _ _ (by decide) (by decide)) .nil)))
  exact urlDecodeInto_spells hspells (bytes "old")

end Http

end AsioStudy
