import AsioStudy.Http.RequestHandler

/-!
# Malformed escapes

`url_decode` hands the two bytes after a `%` to a formatted extraction of a hexadecimal integer and
does not ask how many of them it has used.  Blanks and signs before a digit and anything after a
first digit therefore pass.

`escapes` lists what follows the `%` signs of a target that no earlier escape covers.  The function
accepts a target exactly when all of them are escapes or lenient pairs (`urlDecode_eq_true_iff`),
and `urlDecode_rejects_iff` says for which targets it rejects every malformed escape.
-/

namespace AsioStudy

namespace Http

/-- What follows the `%` signs that are not covered by an earlier escape, which covers its `%` and
the next two bytes: two bytes, or fewer at the end. -/
def escapes : Bytes → List Bytes
  | [] => []
  | c :: s =>
    if c = ch '%' then
      match s with
      | a :: b :: s' => [a, b] :: escapes s'
      | s => [s]
    else escapes s

/-- Other characters begin no escape. -/
lemma escapes_cons_of_ne {c : UInt8} (h : c ≠ ch '%') (s : Bytes) :
    escapes (c :: s) = escapes s := by
  conv_lhs => unfold escapes
  exact if_neg h

/-- A `%` near the end begins a truncated escape. -/
lemma escapes_of_length_lt {s : Bytes} (h : s.length < 2) : escapes (ch '%' :: s) = [s] := by
  match s with
  | [] => rfl
  | [a] => rfl

/-- Two hexadecimal digits. -/
def IsEscape (e : Bytes) : Prop := ∃ a b, e = [a, b] ∧ IsHexDigit a ∧ IsHexDigit b

/-- Two bytes that are not two hexadecimal digits but from which an integer is extracted: a digit
after a blank or a sign, or a digit before something that is neither a digit nor, after a zero, the
letter `x`. -/
def IsLenient (e : Bytes) : Prop :=
  ∃ a b, e = [a, b] ∧
    (((isSpace a = true ∨ a = ch '-' ∨ a = ch '+') ∧ IsHexDigit b) ∨
      (IsHexDigit a ∧ ¬ IsHexDigit b ∧ ¬ (a = ch '0' ∧ (b = ch 'x' ∨ b = ch 'X'))))

/-- An escape is not lenient. -/
lemma IsEscape.not_isLenient {e : Bytes} (h : IsEscape e) : ¬ IsLenient e := by
  obtain ⟨a, b, rfl, ha, hb⟩ := h
  rintro ⟨a', b', heq, ⟨hblank, -⟩ | ⟨-, hb', -⟩⟩
  · obtain ⟨rfl, rfl⟩ : a = a' ∧ b = b' := by simpa using heq
    obtain ⟨hspace, hminus, hplus⟩ := ha.not_blank
    simp [hspace, hminus, hplus] at hblank
  · obtain ⟨rfl, rfl⟩ : a = a' ∧ b = b' := by simpa using heq
    exact hb' hb

/-- The letter `x` is not a hexadecimal digit. -/
lemma not_isHexDigit_x {b : UInt8} (h : b = ch 'x' ∨ b = ch 'X') : ¬ IsHexDigit b := by
  rcases h with rfl | rfl <;> decide

/-- From a pair of bytes an integer is extracted if it is an escape or lenient. -/
lemma isSome_extractHexInt_iff (a b : UInt8) :
    (extractHexInt [a, b]).isSome = true ↔ IsEscape [a, b] ∨ IsLenient [a, b] := by
  have hescape : IsEscape [a, b] ↔ IsHexDigit a ∧ IsHexDigit b := by
    constructor
    · rintro ⟨a', b', heq, h⟩
      obtain ⟨rfl, rfl⟩ : a = a' ∧ b = b' := by simpa using heq
      exact h
    · exact fun h => ⟨a, b, rfl, h⟩
  have hlenient : IsLenient [a, b] ↔
      ((isSpace a = true ∨ a = ch '-' ∨ a = ch '+') ∧ IsHexDigit b) ∨
        (IsHexDigit a ∧ ¬ IsHexDigit b ∧ ¬ (a = ch '0' ∧ (b = ch 'x' ∨ b = ch 'X'))) := by
    constructor
    · rintro ⟨a', b', heq, h⟩
      obtain ⟨rfl, rfl⟩ : a = a' ∧ b = b' := by simpa using heq
      exact h
    · exact fun h => ⟨a, b, rfl, h⟩
  rw [isSome_extractHexInt_pair, hescape, hlenient]
  by_cases hb : IsHexDigit b
  · have hx : ¬ (b = ch 'x' ∨ b = ch 'X') := fun h => not_isHexDigit_x h hb
    simp [hb, hx, or_comm]
  · simp [hb]

/-- The decoder returns true exactly when an integer is extracted after every `%`. -/
lemma urlDecodeFrom_eq_true_iff (s out : Bytes) :
    (urlDecodeFrom s out).1 = true ↔ ∀ e ∈ escapes s, IsEscape e ∨ IsLenient e := by
  have hshort : ∀ e : Bytes, e.length ≠ 2 → ¬ (IsEscape e ∨ IsLenient e) := by
    rintro e hlen (⟨a, b, rfl, -⟩ | ⟨a, b, rfl, -⟩) <;> exact hlen rfl
  fun_induction urlDecodeFrom s out with
  | case1 out => simp [escapes]
  | case2 out a b s value hvalue ih =>
    -- an integer is extracted and the scan goes on behind the pair
    have hpair := (isSome_extractHexInt_iff a b).mp (by rw [hvalue]; rfl)
    apply ih.trans
    rw [escapes, if_pos rfl, List.forall_mem_cons, and_iff_right hpair]
  | case3 out a b s hnone =>
    have hpair := (isSome_extractHexInt_iff a b).not.mp (by rw [hnone]; decide)
    rw [escapes, if_pos rfl, List.forall_mem_cons]
    simp [hpair]
  | case4 s out hrest =>
    -- fewer than two bytes are left
    have hlen : s.length < 2 := by
      match s with
      | [] => exact Nat.zero_lt_two
      | [a] => exact Nat.one_lt_two
      | a :: b :: s' => exact absurd rfl (hrest a b s')
    rw [escapes_of_length_lt hlen]
    simp [hshort s hlen.ne]
  | case5 s out h ih =>
    rw [escapes_cons_of_ne h]
    exact ih
  | case6 c s out h h' ih =>
    rw [escapes_cons_of_ne h]
    exact ih

/-- `url_decode` accepts a target exactly when every `%` begins an escape or a lenient pair. -/
lemma urlDecode_eq_true_iff (inp : Bytes) :
    (urlDecode inp).1 = true ↔ ∀ e ∈ escapes inp, IsEscape e ∨ IsLenient e :=
  urlDecodeFrom_eq_true_iff inp []

/-- **Which malformed escapes are rejected.**  For every target: some malformed escape in it makes
`url_decode` return false, if there is one, exactly when the target has no lenient pair after a `%`
or has besides a `%` that is followed by fewer than two bytes or by a pair from which no integer is
extracted. -/
theorem urlDecode_rejects_iff (inp : Bytes) :
    ((∃ e ∈ escapes inp, ¬ IsEscape e) → (urlDecode inp).1 = false) ↔
      ((∃ e ∈ escapes inp, IsLenient e) → ∃ e ∈ escapes inp, ¬ IsEscape e ∧ ¬ IsLenient e) := by
  have hfalse : (urlDecode inp).1 = false ↔ ∃ e ∈ escapes inp, ¬ IsEscape e ∧ ¬ IsLenient e := by
    rw [← Bool.not_eq_true, urlDecode_eq_true_iff]
    push Not
    rfl
  rw [hfalse]
  constructor
  · rintro h ⟨e, he, hlenient⟩
    exact h ⟨e, he, fun hescape => hescape.not_isLenient hlenient⟩
  · rintro h ⟨e, he, hescape⟩
    by_cases hlenient : IsLenient e
    · exact h ⟨e, he, hlenient⟩
    · exact ⟨e, he, hescape, hlenient⟩

/-- The target `/%4G` is decoded although `4G` is not a pair of hexadecimal digits. -/
theorem urlDecode_accepts_malformed :
    bytes "4G" ∈ escapes (bytes "/%4G") ∧ ¬ IsEscape (bytes "4G") ∧
      urlDecode (bytes "/%4G") = (true, [ch '/', 4]) := by
  refine ⟨by decide, ?_, by decide⟩
  rintro ⟨a, b, heq, -, hb⟩
  obtain ⟨-, rfl⟩ : ch '4' = a ∧ ch 'G' = b := by simpa [bytes] using heq
  exact absurd hb (by decide)

end Http

end AsioStudy
