import AsioStudy.Cpp.Char

/-!
# Strings and number formats of the C++ library

The operations of `std::string`, `<cstring>`, `<cstdlib>` and the stream extractors that the
programs use, on byte strings: C strings, searching, decimal output and input, and the extraction of
a hexadecimal `int` from a stream.
-/

namespace AsioStudy

/-! ## C strings and overwriting -/

/-- The C string that starts at `s`: the bytes before the first NUL. -/
def cString (s : Bytes) : Bytes := s.takeWhile (· ≠ 0)

/-- Write `data` over the bytes of `buf` from the offset `pos` on. -/
def overwrite (buf : Bytes) (pos : ℕ) (data : Bytes) : Bytes :=
  buf.take pos ++ data ++ buf.drop (pos + data.length)

/-- `s.clear()`. -/
def clear (_s : Bytes) : Bytes := []

/-- A C string is a prefix of the bytes it starts at. -/
lemma cString_isPrefix (s : Bytes) : cString s <+: s := List.takeWhile_prefix _

/-- A string without NUL is read whole, whatever follows it. -/
lemma cString_append {s : Bytes} (hs : 0 ∉ s) (t : Bytes) :
    cString (s ++ t) = s ++ cString t := by
  have hne : ∀ b ∈ s, decide (b ≠ 0) = true := by
    intro b hb
    have hb0 : b ≠ 0 := fun h => hs (h ▸ hb)
    exact decide_eq_true hb0
  rw [cString, List.takeWhile_append_of_pos hne, cString]

/-- A string is a C string exactly if there is no NUL in it. -/
lemma cString_eq_self_iff {s : Bytes} : cString s = s ↔ 0 ∉ s := by
  rw [cString, List.takeWhile_eq_self_iff]
  constructor
  · intro h hmem
    exact of_decide_eq_true (h 0 hmem) rfl
  · intro h b hb
    refine decide_eq_true fun hzero => h ?_
    rwa [hzero] at hb

/-- A NUL ends a C string. -/
lemma cString_append_zero (s t : Bytes) : cString (s ++ 0 :: t) = cString s := by
  induction s with
  | nil => rfl
  | cons b s ih =>
    unfold cString at ih ⊢
    rw [List.cons_append, List.takeWhile_cons, List.takeWhile_cons, ih]

/-- NULs behind a string are not read. -/
lemma cString_append_replicate_zero (s : Bytes) (n : ℕ) :
    cString (s ++ List.replicate n 0) = cString s := by
  cases n with
  | zero => rw [List.replicate_zero, List.append_nil]
  | succ n => rw [List.replicate_succ, cString_append_zero]

/-- Overwriting bytes inside a buffer keeps its length. -/
lemma length_overwrite {buf data : Bytes} {pos : ℕ} (h : pos + data.length ≤ buf.length) :
    (overwrite buf pos data).length = buf.length := by
  simp only [overwrite, List.length_append, List.length_take, List.length_drop]
  omega

/-- The bytes before the overwritten range are unchanged. -/
lemma take_overwrite {buf : Bytes} {pos : ℕ} (h : pos ≤ buf.length) (data : Bytes) :
    (overwrite buf pos data).take pos = buf.take pos := by
  rw [overwrite, List.append_assoc, List.take_append_of_le_length (by simp [h]), List.take_take,
    min_self]

/-- The overwritten range holds the data. -/
lemma take_drop_overwrite {buf : Bytes} {pos : ℕ} (h : pos ≤ buf.length) (data : Bytes) :
    ((overwrite buf pos data).drop pos).take data.length = data := by
  have hlen : (buf.take pos).length = pos := by simp [h]
  rw [overwrite, List.append_assoc, List.drop_append_of_le_length (by omega), List.drop_of_length_le
    (by omega), List.nil_append, List.take_left']
  rfl

/-! ## Searching -/

/-- The position of the first occurrence of `pat` in `s`, counted from `pos`. -/
def findFrom (pat : Bytes) (pos : ℕ) : Bytes → Option ℕ
  | [] => if pat.isPrefixOf [] then some pos else none
  | b :: s => if pat.isPrefixOf (b :: s) then some pos else findFrom pat (pos + 1) s

/-- `s.find(pat)`, where `none` is `npos`. -/
def find (s pat : Bytes) : Option ℕ := findFrom pat 0 s

/-- `s.find_last_of(c)` for a single character, where `none` is `npos`. -/
def findLastOf (c : UInt8) : Bytes → Option ℕ
  | [] => none
  | b :: s =>
    match findLastOf c s with
    | some i => some (i + 1)
    | none => if b = c then some 0 else none

/-- `find` fails exactly on the strings that do not contain the pattern. -/
lemma findFrom_eq_none_iff {pat s : Bytes} {pos : ℕ} :
    findFrom pat pos s = none ↔ ¬ pat <:+: s := by
  induction s generalizing pos with
  | nil =>
    rw [findFrom, List.infix_nil]
    cases pat <;> simp
  | cons b s ih =>
    rw [findFrom, List.infix_cons_iff, not_or]
    by_cases h : pat <+: b :: s
    · simp [List.isPrefixOf_iff_prefix.mpr h, h]
    · rw [if_neg (fun hp => h (List.isPrefixOf_iff_prefix.mp hp)), ih]
      exact (and_iff_right h).symm

/-- `s.find(pat) != npos` says that `pat` occurs in `s`. -/
lemma isSome_find_iff {s pat : Bytes} : (find s pat).isSome = true ↔ pat <:+: s := by
  rw [← not_iff_not, Bool.not_eq_true, Option.isSome_eq_false_iff, Option.isNone_iff_eq_none, find,
    findFrom_eq_none_iff]

/-- `find` counts from `pos` to the first position at which the pattern begins. -/
lemma findFrom_eq_some_iff {pat s : Bytes} {pos i : ℕ} :
    findFrom pat pos s = some i ↔
      ∃ k, i = pos + k ∧ pat <+: s.drop k ∧ ∀ j < k, ¬ pat <+: s.drop j := by
  induction s generalizing pos with
  | nil =>
    rw [findFrom]
    simp only [Option.ite_none_right_eq_some, List.isPrefixOf_iff_prefix, Option.some.injEq,
      List.drop_nil]
    constructor
    · rintro ⟨hpre, rfl⟩
      exact ⟨0, rfl, hpre, fun j hj => absurd hj (Nat.not_lt_zero j)⟩
    · rintro ⟨k, rfl, hpre, hfirst⟩
      obtain rfl : k = 0 := by
        by_contra hk
        exact hfirst 0 (Nat.pos_of_ne_zero hk) hpre
      exact ⟨hpre, rfl⟩
  | cons b s ih =>
    rw [findFrom]
    by_cases h : pat <+: b :: s
    · rw [if_pos (List.isPrefixOf_iff_prefix.mpr h)]
      constructor
      · intro heq
        obtain rfl := Option.some.inj heq
        exact ⟨0, rfl, h, fun j hj => absurd hj (Nat.not_lt_zero j)⟩
      · rintro ⟨k, rfl, -, hfirst⟩
        obtain rfl : k = 0 := by
          by_contra hk
          exact hfirst 0 (Nat.pos_of_ne_zero hk) h
        rfl
    · rw [if_neg fun hp => h (List.isPrefixOf_iff_prefix.mp hp), ih]
      constructor
      · rintro ⟨k, rfl, hpre, hfirst⟩
        refine ⟨k + 1, by omega, hpre, fun j hj => ?_⟩
        cases j with
        | zero => exact h
        | succ j => exact hfirst j (Nat.lt_of_succ_lt_succ hj)
      · rintro ⟨k, rfl, hpre, hfirst⟩
        cases k with
        | zero => exact absurd hpre h
        | succ k => exact ⟨k, by omega, hpre, fun j hj => hfirst (j + 1) (Nat.succ_lt_succ hj)⟩

/-- `s.find(pat)` is the first position at which `pat` begins. -/
lemma find_eq_some_iff {s pat : Bytes} {i : ℕ} :
    find s pat = some i ↔ pat <+: s.drop i ∧ ∀ j < i, ¬ pat <+: s.drop j := by
  rw [find, findFrom_eq_some_iff]
  constructor
  · rintro ⟨k, rfl, h⟩
    rwa [Nat.zero_add]
  · exact fun h => ⟨i, (Nat.zero_add i).symm, h⟩

/-- What `find` finds splits the string, and the pattern does not occur in the part before. -/
lemma exists_append_of_find {s pat : Bytes} {i : ℕ} (hpat : pat ≠ []) (h : find s pat = some i) :
    ∃ before rest, s = before ++ (pat ++ rest) ∧ before.length = i ∧ ¬ pat <:+: before := by
  obtain ⟨⟨rest, hrest⟩, hfirst⟩ := find_eq_some_iff.mp h
  have hi : i ≤ s.length := by
    by_contra hlt
    rw [List.drop_of_length_le (by omega), List.append_eq_nil_iff] at hrest
    exact hpat hrest.1
  refine ⟨s.take i, rest, by rw [hrest, List.take_append_drop], List.length_take_of_le hi, ?_⟩
  rintro ⟨u, v, huv⟩
  have hlen : u.length < i := by
    have hsum := congrArg List.length huv
    have hpos := List.length_pos_of_ne_nil hpat
    rw [List.length_append, List.length_append, List.length_take_of_le hi] at hsum
    omega
  refine hfirst u.length hlen ⟨v ++ s.drop i, ?_⟩
  conv_rhs => rw [← List.take_append_drop i s, ← huv]
  simp only [List.append_assoc, List.drop_left]

/-- A pattern is found behind a text without its first character. -/
lemma find_append_of_notMem {before : Bytes} {c : UInt8} (h : c ∉ before) (pat rest : Bytes) :
    find (before ++ (c :: pat ++ rest)) (c :: pat) = some before.length := by
  refine find_eq_some_iff.mpr ⟨?_, fun j hj hpre => ?_⟩
  · rw [List.drop_left]
    exact List.prefix_append (c :: pat) rest
  · -- an earlier occurrence would begin inside the text
    rw [List.drop_append_of_le_length (le_of_lt hj)] at hpre
    obtain ⟨x, t, hcons⟩ := List.exists_cons_of_ne_nil (l := before.drop j)
      (by rw [ne_eq, List.drop_eq_nil_iff]; omega)
    have hmem : x ∈ before.drop j := by
      rw [hcons]
      exact List.mem_cons_self
    rw [hcons, List.cons_append, List.cons_prefix_cons] at hpre
    exact h (hpre.1 ▸ List.mem_of_mem_drop hmem)

/-- `s` cut at the first occurrence of `sep`: what is before it and what is behind it. -/
def splitAtFirst (sep s : Bytes) : Option (Bytes × Bytes) :=
  (find s sep).map fun pos => (s.take pos, s.drop (pos + sep.length))

/-- A text is cut at a separator whose first character does not occur before. -/
lemma splitAtFirst_append {before : Bytes} {c : UInt8} (h : c ∉ before) (sep rest : Bytes) :
    splitAtFirst (c :: sep) (before ++ (c :: sep ++ rest)) = some (before, rest) := by
  unfold splitAtFirst
  rw [find_append_of_notMem h, Option.map_some, List.take_left, ← List.drop_drop, List.drop_left,
    List.drop_left]

/-- What is behind a separator is shorter than the text. -/
lemma length_lt_of_splitAtFirst {sep s before rest : Bytes} (hsep : sep ≠ [])
    (h : splitAtFirst sep s = some (before, rest)) : rest.length < s.length := by
  obtain ⟨pos, hpos, heq⟩ := Option.map_eq_some_iff.mp h
  obtain ⟨-, rfl⟩ := Prod.mk.inj heq
  obtain ⟨u, v, rfl, rfl, -⟩ := exists_append_of_find hsep hpos
  have hlen := List.length_pos_of_ne_nil hsep
  rw [List.length_drop, List.length_append, List.length_append]
  omega

/-- A character that does not occur is not found. -/
lemma findLastOf_of_notMem {c : UInt8} {v : Bytes} (h : c ∉ v) : findLastOf c v = none := by
  induction v with
  | nil => rfl
  | cons b v ih =>
    rw [List.mem_cons, not_or] at h
    rw [findLastOf, ih h.2]
    exact if_neg (Ne.symm h.1)

/-- The last occurrence of a character is not in a part without it. -/
lemma findLastOf_append_of_notMem {c : UInt8} {v : Bytes} (h : c ∉ v) (u : Bytes) :
    findLastOf c (u ++ v) = findLastOf c u := by
  induction u with
  | nil => exact findLastOf_of_notMem h
  | cons b u ih => rw [List.cons_append, findLastOf, findLastOf, ih]

/-- A character that does not occur again is the last one. -/
lemma findLastOf_append_cons {c : UInt8} {v : Bytes} (h : c ∉ v) (u : Bytes) :
    findLastOf c (u ++ c :: v) = some u.length := by
  have hv := findLastOf_of_notMem h
  induction u with
  | nil =>
    rw [List.nil_append, findLastOf, hv]
    exact if_pos rfl
  | cons b u ih => rw [List.cons_append, findLastOf, ih, List.length_cons]

/-- A position that is found is inside the string. -/
lemma lt_length_of_findLastOf {c : UInt8} {s : Bytes} {i : ℕ} (h : findLastOf c s = some i) :
    i < s.length := by
  induction s generalizing i with
  | nil => cases h
  | cons b s ih =>
    rw [findLastOf] at h
    cases hs : findLastOf c s with
    | some j =>
      rw [hs] at h
      cases h
      exact Nat.succ_lt_succ (ih hs)
    | none =>
      rw [hs] at h
      obtain ⟨-, hi⟩ := Option.ite_none_right_eq_some.mp h
      rw [← Option.some.inj hi]
      exact Nat.succ_pos _

/-- A string is cut at the last occurrence of a character. -/
lemma exists_append_cons_of_mem {c : UInt8} {s : Bytes} (h : c ∈ s) :
    ∃ u v, s = u ++ c :: v ∧ c ∉ v := by
  obtain ⟨v, u, hrev, hv⟩ := List.eq_append_cons_of_mem (List.mem_reverse.mpr h)
  refine ⟨u.reverse, v.reverse, ?_, by rwa [List.mem_reverse]⟩
  rw [← List.reverse_reverse s, hrev]
  simp

/-! ## Decimal output -/

/-- `std::to_string` of an unsigned number. -/
def decimal (n : ℕ) : Bytes := (Nat.toDigits 10 n).map ch

/-- The number written by a string of decimal digits. -/
def decimalValue (s : Bytes) : ℕ := s.foldl (fun v c => v * 10 + (c.toNat - 48)) 0

/-- A byte that is a decimal digit. -/
def IsDigit (b : UInt8) : Prop := 48 ≤ b.toNat ∧ b.toNat ≤ 57

instance : DecidablePred IsDigit := fun _ => inferInstanceAs (Decidable (_ ∧ _))

/-- The decimal digit of a number below ten. -/
lemma toNat_ch_digitChar {d : ℕ} (hd : d < 10) : (ch (Nat.digitChar d)).toNat = 48 + d := by
  interval_cases d <;> decide

/-- A number of several digits is its quotient by ten followed by its last digit. -/
lemma decimal_of_ge {n : ℕ} (h : 10 ≤ n) :
    decimal n = decimal (n / 10) ++ [ch (Nat.digitChar (n % 10))] := by
  rw [decimal, Nat.toDigits_of_base_le (by decide) h, List.map_append, decimal]
  rfl

/-- A number below ten is its digit. -/
lemma decimal_of_lt {n : ℕ} (h : n < 10) : decimal n = [ch (Nat.digitChar n)] := by
  rw [decimal, Nat.toDigits_of_lt_base h]
  rfl

/-- Every byte of a decimal number is a digit. -/
lemma isDigit_of_mem_decimal {n : ℕ} {b : UInt8} (h : b ∈ decimal n) :
    IsDigit b := by
  have hdigit : ∀ d < 10, IsDigit (ch (Nat.digitChar d)) := by
    intro d hd
    rw [IsDigit, toNat_ch_digitChar hd]
    omega
  induction n using Nat.strong_induction_on with
  | _ n ih =>
    by_cases hn : n < 10
    · rw [decimal_of_lt hn, List.mem_singleton] at h
      rw [h]
      exact hdigit n hn
    · have hge : 10 ≤ n := Nat.le_of_not_lt hn
      rw [decimal_of_ge hge, List.mem_append, List.mem_singleton] at h
      rcases h with h | h
      · exact ih (n / 10) (by omega) h
      · rw [h]
        exact hdigit _ (Nat.mod_lt _ (by decide))

/-- A decimal number has at least one digit. -/
lemma decimal_ne_nil (n : ℕ) : decimal n ≠ [] := by
  rw [decimal, ne_eq, List.map_eq_nil_iff]
  exact Nat.toDigits_ne_nil

/-- Reading back a decimal number gives the number. -/
lemma decimalValue_decimal (n : ℕ) : decimalValue (decimal n) = n := by
  induction n using Nat.strong_induction_on with
  | _ n ih =>
    by_cases hn : n < 10
    · rw [decimal_of_lt hn, decimalValue, List.foldl_cons, List.foldl_nil, toNat_ch_digitChar hn]
      omega
    · have hge : 10 ≤ n := Nat.le_of_not_lt hn
      have hquot : decimalValue (decimal (n / 10)) = n / 10 := ih (n / 10) (by omega)
      rw [decimalValue] at hquot
      rw [decimal_of_ge hge, decimalValue, List.foldl_append, hquot, List.foldl_cons,
        List.foldl_nil, toNat_ch_digitChar (Nat.mod_lt _ (by decide))]
      omega

/-- A number of at most `k` digits. -/
lemma length_decimal_le {n k : ℕ} (h : n < 10 ^ (k + 1)) : (decimal n).length ≤ k + 1 := by
  induction k generalizing n with
  | zero =>
    rw [decimal_of_lt h]
    exact le_rfl
  | succ k ih =>
    by_cases hn : n < 10
    · rw [decimal_of_lt hn, List.length_singleton]
      omega
    · have hge : 10 ≤ n := Nat.le_of_not_lt hn
      have hquot : n / 10 < 10 ^ (k + 1) := by
        rw [Nat.div_lt_iff_lt_mul (by decide), ← pow_succ]
        exact h
      rw [decimal_of_ge hge, List.length_append, List.length_singleton]
      have hlen := ih hquot
      omega

/-! ## Integers in decimal -/

/-- `std::isspace` in the classic locale. -/
def isSpace (c : UInt8) : Bool := c.toNat == 32 || (9 ≤ c.toNat && c.toNat ≤ 13)

/-- The digits at the beginning of a string. -/
def leadingDigits (s : Bytes) : Bytes := s.takeWhile fun c => decide (IsDigit c)

/-- `std::atoi` of a C string whose number fits into an `int`. -/
def atoi (s : Bytes) : ℤ :=
  match s.dropWhile isSpace with
  | [] => 0
  | c :: t =>
    if c = ch '-' then -(decimalValue (leadingDigits t) : ℤ)
    else if c = ch '+' then decimalValue (leadingDigits t)
    else decimalValue (leadingDigits (c :: t))

/-- Conversion of an `int` to `std::size_t`, which has 64 bits. -/
def toSizeT (value : ℤ) : ℕ := (value % 18446744073709551616).toNat

/-- Conversion of a `std::size_t` to `int`. -/
def sizeToInt (n : ℕ) : ℤ := Int.bmod n 4294967296

/-- The characters that `std::sprintf` writes for the format `%4d`. -/
def printInt4 (value : ℤ) : Bytes :=
  let digits := if value < 0 then ch '-' :: decimal value.natAbs else decimal value.natAbs
  List.replicate (4 - digits.length) (ch ' ') ++ digits

/-- A small size is the same number as an `int`. -/
lemma sizeToInt_of_lt {n : ℕ} (h : n < 2147483648) : sizeToInt n = n := by
  unfold sizeToInt
  refine (Int.bmod_eq_iff (by decide)).mpr ⟨?_, ?_, ?_⟩
  · omega
  · omega
  · rw [sub_self]
    exact dvd_zero _

/-- A number that is not negative keeps its value as a size. -/
lemma toSizeT_natCast {n : ℕ} (h : n < 18446744073709551616) : toSizeT n = n := by
  have hmod : (n : ℤ) % 18446744073709551616 = n := Int.emod_eq_of_lt (by omega) (by omega)
  rw [toSizeT, hmod, Int.toNat_natCast]

/-- A decimal number begins with a digit. -/
lemma exists_decimal_eq_cons (n : ℕ) : ∃ c t, decimal n = c :: t ∧ IsDigit c := by
  obtain ⟨c, t, h⟩ := List.exists_cons_of_ne_nil (decimal_ne_nil n)
  refine ⟨c, t, h, isDigit_of_mem_decimal (n := n) ?_⟩
  rw [h]
  exact List.mem_cons_self

/-- Reading a decimal number after blanks gives the number. -/
lemma atoi_blanks_decimal (k n : ℕ) : atoi (List.replicate k (ch ' ') ++ decimal n) = n := by
  obtain ⟨c, t, hdec, hdigit⟩ := exists_decimal_eq_cons n
  have hdrop : (List.replicate k (ch ' ') ++ decimal n).dropWhile isSpace = decimal n := by
    rw [List.dropWhile_append_of_pos, hdec, List.dropWhile_cons_of_neg]
    · have hspace : isSpace c = false := by
        unfold IsDigit at hdigit
        simp only [isSpace, Bool.or_eq_false_iff, beq_eq_false_iff_ne, Bool.and_eq_false_iff,
          decide_eq_false_iff_not]
        omega
      simp [hspace]
    · intro b hb
      rw [List.eq_of_mem_replicate hb]
      rfl
  have hdigits : leadingDigits (decimal n) = decimal n := by
    refine List.takeWhile_eq_self_iff.mpr fun b hb => ?_
    exact decide_eq_true (isDigit_of_mem_decimal hb)
  have hminus : c ≠ ch '-' := by
    intro heq
    rw [heq] at hdigit
    revert hdigit
    decide
  have hplus : c ≠ ch '+' := by
    intro heq
    rw [heq] at hdigit
    revert hdigit
    decide
  unfold atoi
  rw [hdrop, hdec]
  simp only [if_neg hminus, if_neg hplus]
  rw [← hdec, hdigits, decimalValue_decimal]

/-- A string of digits is worth less than the power of ten of its length. -/
lemma decimalValue_lt {s : Bytes} (h : ∀ b ∈ s, IsDigit b) : decimalValue s < 10 ^ s.length := by
  induction s using List.reverseRecOn with
  | nil => decide
  | append_singleton s c ih =>
    have hs := ih fun b hb => h b (List.mem_append_left _ hb)
    have hc := h c (List.mem_append_right _ List.mem_cons_self)
    have hvalue : decimalValue (s ++ [c]) = decimalValue s * 10 + (c.toNat - 48) := by
      simp [decimalValue]
    unfold IsDigit at hc
    rw [hvalue, List.length_append, List.length_singleton, pow_succ]
    omega

/-- Only digits are leading digits. -/
lemma isDigit_of_mem_leadingDigits {s : Bytes} {b : UInt8} (h : b ∈ leadingDigits s) :
    IsDigit b := by
  have hdecide := List.mem_takeWhile_imp h
  exact of_decide_eq_true hdecide

/-- The digits before something that is not a digit are the leading ones. -/
lemma leadingDigits_append {digits rest : Bytes} (hdigits : ∀ b ∈ digits, IsDigit b)
    (hrest : ∀ c, rest.head? = some c → ¬ IsDigit c) :
    leadingDigits (digits ++ rest) = digits := by
  have hempty : leadingDigits rest = [] := by
    cases rest with
    | nil => rfl
    | cons c t => exact List.takeWhile_cons_of_neg (by simp [hrest c rfl])
  unfold leadingDigits at hempty ⊢
  rw [List.takeWhile_append_of_pos fun b hb => decide_eq_true (hdigits b hb), hempty,
    List.append_nil]

/-- The leading digits of a string are worth less than the power of ten of its length. -/
lemma decimalValue_leadingDigits_lt {s : Bytes} {k : ℕ} (h : s.length ≤ k) :
    decimalValue (leadingDigits s) < 10 ^ k := by
  have hdigits : decimalValue (leadingDigits s) < 10 ^ (leadingDigits s).length :=
    decimalValue_lt fun b hb => isDigit_of_mem_leadingDigits hb
  have hlen : (leadingDigits s).length ≤ k :=
    le_trans (List.takeWhile_prefix _).length_le h
  exact lt_of_lt_of_le hdigits (Nat.pow_le_pow_right (by decide) hlen)

/-- A number that `atoi` reads is smaller than the power of ten of the length of the string. -/
lemma natAbs_atoi_lt {s : Bytes} {k : ℕ} (h : s.length ≤ k) : (atoi s).natAbs < 10 ^ k := by
  have hdrop : (s.dropWhile isSpace).length ≤ k :=
    le_trans (List.dropWhile_suffix _).length_le h
  unfold atoi
  cases htext : s.dropWhile isSpace with
  | nil => exact Nat.pow_pos (by decide)
  | cons c t =>
    rw [htext] at hdrop
    have htail : t.length ≤ k := le_trans (Nat.le_succ _) hdrop
    simp only
    split_ifs
    · rw [Int.natAbs_neg, Int.natAbs_natCast]
      exact decimalValue_leadingDigits_lt htail
    · rw [Int.natAbs_natCast]
      exact decimalValue_leadingDigits_lt htail
    · rw [Int.natAbs_natCast]
      exact decimalValue_leadingDigits_lt hdrop

/-- A small `int` is converted to a small size only if it is not negative. -/
lemma toSizeT_le_iff {value : ℤ} {m : ℕ} (hvalue : value.natAbs < 2147483648)
    (hm : m < 2147483648) : toSizeT value ≤ m ↔ 0 ≤ value ∧ value ≤ m := by
  unfold toSizeT
  omega

/-! ## Extraction of a hexadecimal integer from a stream -/

/-- The value of a hexadecimal digit. -/
def hexDigit? (c : UInt8) : Option ℕ :=
  if 48 ≤ c.toNat ∧ c.toNat ≤ 57 then some (c.toNat - 48)
  else if 97 ≤ c.toNat ∧ c.toNat ≤ 102 then some (c.toNat - 87)
  else if 65 ≤ c.toNat ∧ c.toNat ≤ 70 then some (c.toNat - 55)
  else none

/-- The value of a string of hexadecimal digits. -/
def hexValue (s : Bytes) : ℕ := s.foldl (fun v c => v * 16 + (hexDigit? c).getD 0) 0

/-- The magnitude read by a base-sixteen conversion after the sign: an optional `0x` and the
longest string of hexadecimal digits, which must not be empty. -/
def hexMagnitude (s : Bytes) : Option ℕ :=
  let digits := fun t : Bytes => t.takeWhile fun c => (hexDigit? c).isSome
  let field := fun t : Bytes => if digits t = [] then none else some (hexValue (digits t))
  match s with
  | a :: x :: t => if a = ch '0' ∧ (x = ch 'x' ∨ x = ch 'X') then field t else field s
  | _ => field s

/-- `is >> std::hex >> value` for an `int`: white space is skipped, a sign is optional, and a
number that does not fit sets the failure bit, like a missing one. -/
def extractHexInt (s : Bytes) : Option ℤ :=
  let s := s.dropWhile isSpace
  let signed : Option ℤ :=
    match s with
    | [] => none
    | c :: t =>
      if c = ch '-' then (hexMagnitude t).map fun n => -(n : ℤ)
      else if c = ch '+' then (hexMagnitude t).map fun n => (n : ℤ)
      else (hexMagnitude s).map fun n => (n : ℤ)
  signed.filter fun v => -2147483648 ≤ v && v ≤ 2147483647

/-- The byte is a hexadecimal digit. -/
def IsHexDigit (c : UInt8) : Prop := (hexDigit? c).isSome = true

instance (c : UInt8) : Decidable (IsHexDigit c) := by
  unfold IsHexDigit
  infer_instance

/-- A hexadecimal digit is less than sixteen. -/
lemma hexDigit?_getD_lt (c : UInt8) : (hexDigit? c).getD 0 < 16 := by
  unfold hexDigit?
  split_ifs <;> simp <;> omega

/-- `n` hexadecimal digits denote a number below the `n`-th power of sixteen. -/
lemma hexValue_lt (s : Bytes) : hexValue s < 16 ^ s.length := by
  have hfold : ∀ v, s.foldl (fun v c => v * 16 + (hexDigit? c).getD 0) v + 1 ≤
      (v + 1) * 16 ^ s.length := by
    induction s with
    | nil => simp
    | cons c s ih =>
      intro v
      have hc := hexDigit?_getD_lt c
      rw [List.foldl_cons, List.length_cons, pow_succ', ← Nat.mul_assoc]
      exact (ih _).trans (Nat.mul_le_mul_right _ (by omega))
  have h := hfold 0
  rw [Nat.zero_add, Nat.one_mul] at h
  exact h

/-- The magnitude of a field of at most two characters fits into a byte. -/
lemma hexMagnitude_lt {s : Bytes} (hs : s.length ≤ 2) {n : ℕ} (h : hexMagnitude s = some n) :
    n < 256 := by
  have hfield : ∀ t : Bytes, t.length ≤ 2 →
      (if (t.takeWhile fun c => (hexDigit? c).isSome) = [] then none
        else some (hexValue (t.takeWhile fun c => (hexDigit? c).isSome))) = some n → n < 256 := by
    intro t ht heq
    split at heq
    · cases heq
    · have hlen := (List.takeWhile_prefix (l := t) fun c => (hexDigit? c).isSome).length_le
      rw [← Option.some.inj heq]
      exact (hexValue_lt _).trans_le (Nat.pow_le_pow_right (by decide) (hlen.trans ht))
  unfold hexMagnitude at h
  split at h
  · split at h
    · exact hfield _ ((Nat.le_add_right _ 2).trans hs) h
    · exact hfield _ hs h
  · exact hfield _ hs h

/-- A single character is a magnitude if it is a digit. -/
lemma isSome_hexMagnitude_singleton (b : UInt8) :
    (hexMagnitude [b]).isSome = true ↔ IsHexDigit b := by
  unfold hexMagnitude IsHexDigit
  cases hb : (hexDigit? b).isSome <;> simp [hb]

/-- Two characters are a magnitude if the first one is a digit and they are not an empty `0x`. -/
lemma isSome_hexMagnitude_pair (a b : UInt8) :
    (hexMagnitude [a, b]).isSome = true ↔
      IsHexDigit a ∧ ¬ (a = ch '0' ∧ (b = ch 'x' ∨ b = ch 'X')) := by
  unfold hexMagnitude IsHexDigit
  by_cases h0x : a = ch '0' ∧ (b = ch 'x' ∨ b = ch 'X')
  · simp [h0x]
  · simp only [h0x, not_false_eq_true, and_true]
    cases ha : (hexDigit? a).isSome <;> simp [ha]

/-- A hexadecimal digit is neither a blank nor a sign. -/
lemma IsHexDigit.not_blank {c : UInt8} (h : IsHexDigit c) :
    isSpace c = false ∧ c ≠ ch '-' ∧ c ≠ ch '+' := by
  have hrange : 48 ≤ c.toNat ∧ c.toNat ≤ 102 := by
    unfold IsHexDigit hexDigit? at h
    split_ifs at h
    · omega
    · omega
    · omega
    · cases h
  refine ⟨?_, ?_, ?_⟩
  · unfold isSpace
    simp only [Bool.or_eq_false_iff, beq_eq_false_iff_ne, Bool.and_eq_false_iff,
      decide_eq_false_iff_not]
    omega
  · rintro rfl
    exact absurd hrange (by decide)
  · rintro rfl
    exact absurd hrange (by decide)

/-- A magnitude of at most two characters fits into an `int`, with either sign. -/
lemma isSome_filter_hexMagnitude {s : Bytes} (hs : s.length ≤ 2) {f : ℤ → ℤ}
    (hf : ∀ v, f v = v ∨ f v = -v) :
    (((hexMagnitude s).map (f ∘ Nat.cast)).filter
      fun v => -2147483648 ≤ v && v ≤ 2147483647).isSome = (hexMagnitude s).isSome := by
  cases h : hexMagnitude s with
  | none => rfl
  | some n =>
    have hn := hexMagnitude_lt hs h
    have hfits : (-2147483648 ≤ f n && f n ≤ 2147483647) = true := by
      rw [Bool.and_eq_true, decide_eq_true_iff, decide_eq_true_iff]
      rcases hf n with hfn | hfn <;> omega
    simp [hfits]

/-- From which pairs of characters a hexadecimal integer is extracted: a digit after a blank or a
sign, or anything that begins with a digit, except for an empty `0x`. -/
lemma isSome_extractHexInt_pair (a b : UInt8) :
    (extractHexInt [a, b]).isSome = true ↔
      ((isSpace a = true ∨ a = ch '-' ∨ a = ch '+') ∧ IsHexDigit b) ∨
        (IsHexDigit a ∧ ¬ (a = ch '0' ∧ (b = ch 'x' ∨ b = ch 'X'))) := by
  have hempty : hexMagnitude [] = none := rfl
  have hone : [b].length ≤ 2 := Nat.le_succ 1
  have htwo : [a, b].length ≤ 2 := le_rfl
  by_cases hspace : isSpace a = true
  · have hdigit : ¬ IsHexDigit a := fun h => by simp [h.not_blank.1] at hspace
    rw [or_iff_left (fun h => hdigit h.1), and_iff_right (Or.inl hspace)]
    unfold extractHexInt
    rw [List.dropWhile_cons_of_pos hspace]
    -- only one character is left after the blank
    by_cases hb : isSpace b = true
    · have hdigit' : ¬ IsHexDigit b := fun h => by simp [h.not_blank.1] at hb
      simp [hb, hdigit']
    · rw [List.dropWhile_cons_of_neg hb]
      by_cases hsign : b = ch '-' ∨ b = ch '+'
      · have hdigit' : ¬ IsHexDigit b := fun h =>
          hsign.elim h.not_blank.2.1 h.not_blank.2.2
        rcases hsign with rfl | rfl <;> simp [hempty, hdigit']
      · rw [not_or] at hsign
        simp only [if_neg hsign.1, if_neg hsign.2, bind_pure_comp, Option.map_eq_map,
          Option.map_map]
        rw [isSome_filter_hexMagnitude hone (f := fun v => v) fun v => Or.inl rfl,
          isSome_hexMagnitude_singleton]
  · unfold extractHexInt
    rw [List.dropWhile_cons_of_neg hspace]
    by_cases hminus : a = ch '-'
    · have hdigit : ¬ IsHexDigit a := fun h => h.not_blank.2.1 hminus
      rw [or_iff_left (fun h => hdigit h.1), and_iff_right (Or.inr (Or.inl hminus))]
      simp only [if_pos hminus, bind_pure_comp, Option.map_eq_map, Option.map_map]
      rw [isSome_filter_hexMagnitude hone (f := fun v => -v) fun v => Or.inr rfl,
        isSome_hexMagnitude_singleton]
    · by_cases hplus : a = ch '+'
      · have hdigit : ¬ IsHexDigit a := fun h => h.not_blank.2.2 hplus
        rw [or_iff_left (fun h => hdigit h.1), and_iff_right (Or.inr (Or.inr hplus))]
        simp only [if_neg hminus, if_pos hplus, bind_pure_comp, Option.map_eq_map,
          Option.map_map]
        rw [isSome_filter_hexMagnitude hone (f := fun v => v) fun v => Or.inl rfl,
          isSome_hexMagnitude_singleton]
      · rw [or_iff_right (by simp [hspace, hminus, hplus])]
        simp only [if_neg hminus, if_neg hplus, bind_pure_comp, Option.map_eq_map,
          Option.map_map]
        rw [isSome_filter_hexMagnitude htwo (f := fun v => v) fun v => Or.inl rfl,
          isSome_hexMagnitude_pair]

end AsioStudy
