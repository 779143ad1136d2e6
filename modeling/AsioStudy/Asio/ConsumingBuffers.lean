import AsioStudy.Foundation.Consumer

/-!
# Buffer sequences that are written or read piece by piece

`detail/consuming_buffers.hpp`: a composed operation transfers a sequence of buffers by several
operations of a stream, each of which is given at most sixteen non-empty pieces of what is left.
There are three implementations, one for any sequence, one for a single buffer and one for an array
of two; each of them offers the next bytes of the sequence, whatever was consumed before
(`consumingBuffers_represents`, `consumingSingleBuffer_represents`, `consumingPair_represents`).

A buffer is the list of what it refers to: its bytes when it is written, the places of its bytes
when it is read into.
-/

namespace AsioStudy

namespace Asio

variable {α : Type*}

/-! ## Any sequence of buffers -/

/-- A proxy for a sub-range in a list of buffers, `consuming_buffers`. -/
structure ConsumingBuffers (α : Type*) where
  /-- The member `buffers_`. -/
  buffers : List (List α)
  /-- The member `total_size_`. -/
  totalSize : ℕ
  /-- The member `total_consumed_`. -/
  totalConsumed : ℕ
  /-- The member `next_elem_`. -/
  nextElem : ℕ
  /-- The member `next_elem_offset_`. -/
  nextElemOffset : ℕ
  deriving DecidableEq, Repr

/-- The size of all buffers of a sequence, `buffer_size`. -/
def bufferSize (buffers : List (List α)) : ℕ := (buffers.map List.length).sum

/-- Construct to represent the entire list of buffers. -/
def ConsumingBuffers.new (buffers : List (List α)) : ConsumingBuffers α :=
  ⟨buffers, bufferSize buffers, 0, 0, 0⟩

/-- Determine if we are at the end of the buffers. -/
def ConsumingBuffers.empty (b : ConsumingBuffers α) : Bool := b.totalSize ≤ b.totalConsumed

/-- The number of pieces that `prepared_buffers` has room for. -/
def maxBuffers : ℕ := 16

/-- The loop of `prepare` over the buffers from `next` on; `count` pieces are there already.  An
empty piece is overwritten by the next one. -/
def prepareFrom : List (List α) → ℕ → ℕ → ℕ → List (List α)
  | [], _, _, _ => []
  | next :: rest, elemOffset, maxSize, count =>
    if 0 < maxSize ∧ count < maxBuffers then
      let elem := (next.drop elemOffset).take maxSize
      if 0 < elem.length then elem :: prepareFrom rest 0 (maxSize - elem.length) (count + 1)
      else prepareFrom rest 0 (maxSize - elem.length) count
    else []

/-- Get the buffers for a single transfer, with a size. -/
def ConsumingBuffers.prepare (b : ConsumingBuffers α) (maxSize : ℕ) : List (List α) :=
  prepareFrom (b.buffers.drop b.nextElem) b.nextElemOffset maxSize 0

/-- The loop of `consume` over the buffers from `next` on: the values of `next_elem_` and of
`next_elem_offset_` behind it. -/
def consumeFrom : List (List α) → ℕ → ℕ → ℕ → ℕ × ℕ
  | [], nextElem, nextElemOffset, _ => (nextElem, nextElemOffset)
  | next :: rest, nextElem, nextElemOffset, size =>
    if 0 < size then
      let nextBuf := next.drop nextElemOffset
      if size < nextBuf.length then (nextElem, nextElemOffset + size)
      else consumeFrom rest (nextElem + 1) 0 (size - nextBuf.length)
    else (nextElem, nextElemOffset)

/-- Consume the specified number of bytes from the buffers. -/
def ConsumingBuffers.consume (b : ConsumingBuffers α) (size : ℕ) : ConsumingBuffers α :=
  let next := consumeFrom (b.buffers.drop b.nextElem) b.nextElem b.nextElemOffset size
  { b with
    totalConsumed := b.totalConsumed + size
    nextElem := next.1
    nextElemOffset := next.2 }

/-- The sequence as it is used by the composed operations. -/
def consumingBuffers (α : Type*) : Consumer (ConsumingBuffers α) α :=
  ⟨ConsumingBuffers.empty, ConsumingBuffers.prepare, ConsumingBuffers.consume,
    ConsumingBuffers.totalConsumed⟩

/-- The members stand for the position behind `n` bytes of the buffers. -/
structure ConsumingBuffers.Holds (b : ConsumingBuffers α) (xs : List α) (n : ℕ) : Prop where
  flatten_eq : b.buffers.flatten = xs
  totalSize_eq : b.totalSize = xs.length
  totalConsumed_eq : b.totalConsumed = n
  le_length : n ≤ xs.length
  offset_le : b.nextElemOffset ≤ ((b.buffers.drop b.nextElem).headD []).length
  rest_eq : (b.buffers.drop b.nextElem).flatten.drop b.nextElemOffset = xs.drop n

/-- At the beginning nothing is consumed. -/
lemma ConsumingBuffers.holds_new (buffers : List (List α)) :
    (ConsumingBuffers.new buffers).Holds buffers.flatten 0 where
  flatten_eq := rfl
  totalSize_eq := List.length_flatten.symm
  totalConsumed_eq := rfl
  le_length := Nat.zero_le _
  offset_le := Nat.zero_le _
  rest_eq := rfl

/-- What is left when a part of the first buffer is consumed. -/
lemma drop_flatten_cons {next : List α} {rest : List (List α)} {offset : ℕ}
    (h : offset ≤ next.length) :
    (next :: rest).flatten.drop offset = next.drop offset ++ rest.flatten := by
  rw [List.flatten_cons, List.drop_append_of_le_length h]

/-- The loop of `prepare` stops, leaves a buffer out because nothing of it is left, or takes a piece
of it. -/
lemma prepareFrom_cons_cases (next : List α) (rest : List (List α)) (offset maxSize count : ℕ) :
    (¬ (0 < maxSize ∧ count < maxBuffers) ∧ prepareFrom (next :: rest) offset maxSize count = []) ∨
    (0 < maxSize ∧ next.drop offset = [] ∧
      prepareFrom (next :: rest) offset maxSize count = prepareFrom rest 0 maxSize count) ∨
    (0 < maxSize ∧ count < maxBuffers ∧ (next.drop offset).take maxSize ≠ [] ∧
      prepareFrom (next :: rest) offset maxSize count = (next.drop offset).take maxSize ::
        prepareFrom rest 0 (maxSize - (next.drop offset).length) (count + 1)) := by
  by_cases hgo : 0 < maxSize ∧ count < maxBuffers
  · by_cases helem : next.drop offset = []
    · refine Or.inr (Or.inl ⟨hgo.1, helem, ?_⟩)
      simp [prepareFrom, hgo, helem]
    · have hne : (next.drop offset).take maxSize ≠ [] := by
        rw [Ne, List.take_eq_nil_iff, not_or]
        exact ⟨Nat.ne_of_gt hgo.1, helem⟩
      have hsub : maxSize - ((next.drop offset).take maxSize).length =
          maxSize - (next.drop offset).length := by
        rw [List.length_take]
        omega
      refine Or.inr (Or.inr ⟨hgo.1, hgo.2, hne, ?_⟩)
      simp only [prepareFrom, if_pos hgo, if_pos (List.length_pos_of_ne_nil hne), hsub]
  · refine Or.inl ⟨hgo, ?_⟩
    simp only [prepareFrom, if_neg hgo]

/-- Nothing is prepared if nothing is wanted. -/
lemma prepareFrom_zero (bs : List (List α)) (offset count : ℕ) :
    prepareFrom bs offset 0 count = [] := by
  rcases bs with _ | ⟨b, bs⟩
  · rfl
  · rw [prepareFrom, if_neg fun h => absurd h.1 (lt_irrefl 0)]

/-- The pieces that `prepare` finds are the beginning of what is left. -/
lemma prepareFrom_isPrefix {bs : List (List α)} {offset maxSize count : ℕ}
    (h : offset ≤ (bs.headD []).length) :
    (prepareFrom bs offset maxSize count).flatten <+: bs.flatten.drop offset := by
  induction bs generalizing offset maxSize count with
  | nil => exact List.nil_prefix
  | cons next rest ih =>
    rw [List.headD_cons] at h
    rw [drop_flatten_cons h]
    obtain ⟨-, heq⟩ | ⟨-, hnext, heq⟩ | ⟨-, -, -, heq⟩ :=
      prepareFrom_cons_cases next rest offset maxSize count
    · rw [heq]
      exact List.nil_prefix
    · rw [heq, hnext, List.nil_append]
      exact ih (Nat.zero_le _)
    · rw [heq, List.flatten_cons]
      -- either the whole buffer is taken, or nothing more is wanted
      by_cases hle : (next.drop offset).length ≤ maxSize
      · rw [List.take_of_length_le hle]
        exact (List.prefix_append_right_inj _).mpr (ih (Nat.zero_le _))
      · rw [Nat.sub_eq_zero_of_le (not_le.mp hle).le, prepareFrom_zero, List.flatten_nil,
          List.append_nil]
        exact (List.take_prefix _ _).trans (List.prefix_append _ _)

/-- The pieces that `prepare` finds have at most the wanted size. -/
lemma length_prepareFrom_le (bs : List (List α)) (offset maxSize count : ℕ) :
    (prepareFrom bs offset maxSize count).flatten.length ≤ maxSize := by
  induction bs generalizing offset maxSize count with
  | nil => exact Nat.zero_le _
  | cons next rest ih =>
    obtain ⟨-, heq⟩ | ⟨-, -, heq⟩ | ⟨-, -, -, heq⟩ :=
      prepareFrom_cons_cases next rest offset maxSize count
    · rw [heq]
      exact Nat.zero_le _
    · rw [heq]
      exact ih 0 maxSize count
    · have hrest := ih 0 (maxSize - (next.drop offset).length) (count + 1)
      rw [heq, List.flatten_cons, List.length_append, List.length_take]
      omega

/-- Something is prepared if something is wanted and left. -/
lemma prepareFrom_ne_nil {bs : List (List α)} {offset maxSize count : ℕ}
    (h : offset ≤ (bs.headD []).length) (hmax : 0 < maxSize) (hcount : count < maxBuffers)
    (hrest : bs.flatten.drop offset ≠ []) :
    (prepareFrom bs offset maxSize count).flatten ≠ [] := by
  induction bs generalizing offset with
  | nil => exact absurd List.drop_nil hrest
  | cons next rest ih =>
    rw [List.headD_cons] at h
    rw [drop_flatten_cons h] at hrest
    obtain ⟨hstop, -⟩ | ⟨-, hnext, heq⟩ | ⟨-, -, hne, heq⟩ :=
      prepareFrom_cons_cases next rest offset maxSize count
    · exact absurd ⟨hmax, hcount⟩ hstop
    · rw [hnext, List.nil_append] at hrest
      rw [heq]
      exact ih (Nat.zero_le _) hrest
    · rw [heq, List.flatten_cons]
      exact List.append_ne_nil_of_left_ne_nil hne _

/-- Every piece of `prepare` is non-empty, and there is room for all of them. -/
lemma pieces_prepareFrom (bs : List (List α)) (offset maxSize count : ℕ) :
    [] ∉ prepareFrom bs offset maxSize count ∧
      (prepareFrom bs offset maxSize count).length ≤ maxBuffers - count := by
  induction bs generalizing offset maxSize count with
  | nil => exact ⟨List.not_mem_nil, Nat.zero_le _⟩
  | cons next rest ih =>
    obtain ⟨-, heq⟩ | ⟨-, -, heq⟩ | ⟨-, hcount, hne, heq⟩ :=
      prepareFrom_cons_cases next rest offset maxSize count
    · rw [heq]
      exact ⟨List.not_mem_nil, Nat.zero_le _⟩
    · rw [heq]
      exact ih 0 maxSize count
    · obtain ⟨hnil, hlength⟩ := ih 0 (maxSize - (next.drop offset).length) (count + 1)
      rw [heq, List.mem_cons, not_or, List.length_cons]
      refine ⟨⟨hne.symm, hnil⟩, ?_⟩
      omega

/-- Unless the room for the pieces is exhausted, as much is prepared as is wanted and left. -/
lemma flatten_prepareFrom {bs : List (List α)} {offset maxSize count : ℕ}
    (h : offset ≤ (bs.headD []).length)
    (hroom : (prepareFrom bs offset maxSize count).length + count < maxBuffers) :
    (prepareFrom bs offset maxSize count).flatten = (bs.flatten.drop offset).take maxSize := by
  induction bs generalizing offset maxSize count with
  | nil =>
    rw [List.flatten_nil, List.drop_nil, List.take_nil]
    rfl
  | cons next rest ih =>
    rw [List.headD_cons] at h
    rw [drop_flatten_cons h]
    obtain ⟨hstop, heq⟩ | ⟨-, hnext, heq⟩ | ⟨-, -, -, heq⟩ :=
      prepareFrom_cons_cases next rest offset maxSize count
    · rw [heq, List.length_nil, Nat.zero_add] at hroom
      have hzero : maxSize = 0 := by
        by_contra hne
        exact hstop ⟨Nat.pos_of_ne_zero hne, hroom⟩
      rw [heq, hzero, List.take_zero, List.flatten_nil]
    · rw [heq] at hroom ⊢
      rw [hnext, List.nil_append, ih (Nat.zero_le _) hroom, List.drop_zero]
    · rw [heq, List.length_cons] at hroom
      rw [heq, List.flatten_cons, ih (Nat.zero_le _) (by omega), List.drop_zero, List.take_append]

/-- What `consume` leaves of the buffers from `next` on. -/
lemma consumeFrom_spec {buffers bs : List (List α)} {nextElem offset size : ℕ}
    (hbs : buffers.drop nextElem = bs) (h : offset ≤ (bs.headD []).length)
    (hsize : size ≤ (bs.flatten.drop offset).length) :
    (consumeFrom bs nextElem offset size).2 ≤
        ((buffers.drop (consumeFrom bs nextElem offset size).1).headD []).length ∧
      (buffers.drop (consumeFrom bs nextElem offset size).1).flatten.drop
        (consumeFrom bs nextElem offset size).2 = (bs.flatten.drop offset).drop size := by
  induction bs generalizing nextElem offset size with
  | nil =>
    simp only [consumeFrom, hbs, List.flatten_nil, List.drop_nil]
    exact ⟨h, trivial⟩
  | cons next rest ih =>
    have hrest : buffers.drop (nextElem + 1) = rest := by
      rw [← List.drop_drop, hbs, List.drop_one, List.tail_cons]
    rw [List.headD_cons] at h
    rw [drop_flatten_cons h] at hsize ⊢
    by_cases hpos : 0 < size
    · by_cases hlt : size < (next.drop offset).length
      · -- the position stays within this buffer
        have hle : offset + size ≤ next.length := by
          rw [List.length_drop] at hlt
          omega
        simp only [consumeFrom, if_pos hpos, if_pos hlt, hbs, List.headD_cons]
        refine ⟨hle, ?_⟩
        rw [drop_flatten_cons hle, List.drop_append_of_le_length hlt.le, List.drop_drop]
      · have hskip : (next.drop offset ++ rest.flatten).drop size =
            (rest.flatten.drop 0).drop (size - (next.drop offset).length) := by
          rw [List.drop_append, List.drop_eq_nil_of_le (not_lt.mp hlt), List.nil_append,
            List.drop_zero]
        rw [List.length_append] at hsize
        simp only [consumeFrom, if_pos hpos, if_neg hlt, hskip]
        apply ih hrest (Nat.zero_le _)
        rw [List.drop_zero]
        omega
    · obtain rfl : size = 0 := Nat.eq_zero_of_not_pos hpos
      simp only [consumeFrom, if_neg (lt_irrefl 0), hbs, List.headD_cons, List.drop_zero]
      exact ⟨h, drop_flatten_cons h⟩

/-- **Any sequence of buffers.**  What `prepare` offers are the next bytes of the buffers, and
something as long as something is left, whatever `consume` was told before. -/
theorem consumingBuffers_represents :
    (consumingBuffers α).Represents ConsumingBuffers.Holds where
  le_length h := h.le_length
  totalConsumed_eq h := h.totalConsumed_eq
  empty_iff {b xs n} h := by
    change decide (b.totalSize ≤ b.totalConsumed) = true ↔ n = xs.length
    have hle := h.le_length
    rw [decide_eq_true_iff, h.totalSize_eq, h.totalConsumed_eq]
    omega
  prepare_isPrefix {b xs n} m h := by
    rw [← h.rest_eq]
    exact prepareFrom_isPrefix h.offset_le
  length_prepare_le m h := length_prepareFrom_le _ _ _ _
  prepare_ne_nil {b xs n m} h hm hn := by
    refine prepareFrom_ne_nil h.offset_le hm (by decide) ?_
    rw [h.rest_eq]
    exact List.ne_nil_of_length_pos (by rw [List.length_drop]; omega)
  consume {b xs n k} h hk := by
    have hsize : k ≤ ((b.buffers.drop b.nextElem).flatten.drop b.nextElemOffset).length := by
      rw [h.rest_eq, List.length_drop]
      omega
    obtain ⟨hoffset, hrest⟩ := consumeFrom_spec rfl h.offset_le hsize
    refine ⟨h.flatten_eq, h.totalSize_eq, ?_, hk, hoffset, ?_⟩
    · exact congrArg (· + k) h.totalConsumed_eq
    · exact hrest.trans (by rw [h.rest_eq, List.drop_drop])

/-- Consuming portions one after another moves the position by their sum. -/
lemma ConsumingBuffers.Holds.foldl_consume {b : ConsumingBuffers α} {xs : List α} {n : ℕ}
    (h : b.Holds xs n) {sizes : List ℕ} (hsizes : n + sizes.sum ≤ xs.length) :
    (sizes.foldl ConsumingBuffers.consume b).Holds xs (n + sizes.sum) := by
  induction sizes generalizing b n with
  | nil => exact h
  | cons size sizes ih =>
    rw [List.sum_cons, ← Nat.add_assoc] at hsizes ⊢
    have hsize : n + size ≤ xs.length := (Nat.le_add_right _ _).trans hsizes
    exact ih (consumingBuffers_represents.consume h hsize) hsizes

/-- **The next pieces.**  However the first bytes of a sequence of buffers were consumed, `prepare`
offers at most sixteen non-empty pieces, which together are the next bytes: as many as wanted or
left, or else sixteen pieces; and `empty` says whether all bytes were consumed. -/
theorem prepare_consumed (buffers : List (List α)) {sizes : List ℕ}
    (hsizes : sizes.sum ≤ buffers.flatten.length) (maxSize : ℕ) :
    let b := sizes.foldl ConsumingBuffers.consume (.new buffers)
    (b.prepare maxSize).flatten <+: buffers.flatten.drop sizes.sum ∧
      (b.prepare maxSize).flatten.length ≤ maxSize ∧ [] ∉ b.prepare maxSize ∧
      ((b.prepare maxSize).length < 16 →
        (b.prepare maxSize).flatten = (buffers.flatten.drop sizes.sum).take maxSize) ∧
      (b.prepare maxSize).length ≤ 16 ∧
      (b.empty = true ↔ sizes.sum = buffers.flatten.length) := by
  have hzero : 0 + sizes.sum ≤ buffers.flatten.length := (Nat.zero_add _).trans_le hsizes
  have hholds := (ConsumingBuffers.holds_new buffers).foldl_consume hzero
  rw [Nat.zero_add] at hholds
  obtain ⟨hnil, hlength⟩ := pieces_prepareFrom
    ((sizes.foldl ConsumingBuffers.consume (.new buffers)).buffers.drop
      (sizes.foldl ConsumingBuffers.consume (.new buffers)).nextElem)
    (sizes.foldl ConsumingBuffers.consume (.new buffers)).nextElemOffset maxSize 0
  refine ⟨consumingBuffers_represents.prepare_isPrefix maxSize hholds,
    consumingBuffers_represents.length_prepare_le maxSize hholds, hnil, fun hroom => ?_, hlength,
    consumingBuffers_represents.empty_iff hholds⟩
  rw [← hholds.rest_eq]
  exact flatten_prepareFrom hholds.offset_le hroom

/-- Three buffers, one of them empty, of which three bytes were consumed. -/
theorem prepare_consumed_three :
    let b := [1, 2].foldl ConsumingBuffers.consume (.new [[10, 11], [], [12, 13, 14]])
    (b.prepare 1).flatten <+: [[10, 11], [], [12, 13, 14]].flatten.drop [1, 2].sum ∧
      (b.prepare 1).flatten.length ≤ 1 ∧ [] ∉ b.prepare 1 ∧
      ((b.prepare 1).length < 16 →
        (b.prepare 1).flatten = ([[10, 11], [], [12, 13, 14]].flatten.drop [1, 2].sum).take 1) ∧
      (b.prepare 1).length ≤ 16 ∧
      (b.empty = true ↔ [1, 2].sum = [[10, 11], [], [12, 13, 14]].flatten.length) :=
  prepare_consumed [[10, 11], [], [12, 13, 14]] (by decide) 1

/-! ## A single buffer -/

/-- A buffer of which a part is consumed, `consuming_single_buffer`. -/
structure ConsumingSingleBuffer (α : Type*) where
  /-- The member `buffer_`. -/
  buffer : List α
  /-- The member `total_consumed_`. -/
  totalConsumed : ℕ
  deriving DecidableEq, Repr

/-- Construct to represent the entire buffer. -/
def ConsumingSingleBuffer.new (buffer : List α) : ConsumingSingleBuffer α := ⟨buffer, 0⟩

/-- The buffer as it is used by the composed operations. -/
def consumingSingleBuffer (α : Type*) : Consumer (ConsumingSingleBuffer α) α where
  empty b := b.buffer.length ≤ b.totalConsumed
  prepare b maxSize := [(b.buffer.drop b.totalConsumed).take maxSize]
  consume b size := { b with totalConsumed := b.totalConsumed + size }
  totalConsumed := ConsumingSingleBuffer.totalConsumed

/-- The members stand for the position behind `n` bytes of the buffer. -/
structure ConsumingSingleBuffer.Holds (b : ConsumingSingleBuffer α) (xs : List α) (n : ℕ) :
    Prop where
  buffer_eq : b.buffer = xs
  totalConsumed_eq : b.totalConsumed = n
  le_length : n ≤ xs.length

/-- **A single buffer.** -/
theorem consumingSingleBuffer_represents :
    (consumingSingleBuffer α).Represents ConsumingSingleBuffer.Holds where
  le_length h := h.le_length
  totalConsumed_eq h := h.totalConsumed_eq
  empty_iff {b xs n} h := by
    change decide (b.buffer.length ≤ b.totalConsumed) = true ↔ n = xs.length
    have hle := h.le_length
    rw [decide_eq_true_iff, h.buffer_eq, h.totalConsumed_eq]
    omega
  prepare_isPrefix {b xs n} m h := by
    simp only [consumingSingleBuffer, List.flatten_cons, List.flatten_nil, List.append_nil,
      h.buffer_eq, h.totalConsumed_eq]
    exact List.take_prefix _ _
  length_prepare_le m h := by
    simp only [consumingSingleBuffer, List.flatten_cons, List.flatten_nil, List.append_nil]
    exact List.length_take_le _ _
  prepare_ne_nil {b xs n m} h hm hn := by
    simp only [consumingSingleBuffer, List.flatten_cons, List.flatten_nil, List.append_nil,
      h.buffer_eq, h.totalConsumed_eq]
    exact List.ne_nil_of_length_pos (by rw [List.length_take, List.length_drop]; omega)
  consume h hk := ⟨h.buffer_eq, congrArg (· + _) h.totalConsumed_eq, hk⟩

/-! ## Two buffers -/

/-- An array of two buffers of which a part is consumed. -/
structure ConsumingPair (α : Type*) where
  /-- The first one of `buffers_`. -/
  buffer0 : List α
  /-- The second one of `buffers_`. -/
  buffer1 : List α
  /-- The member `total_consumed_`. -/
  totalConsumed : ℕ
  deriving DecidableEq, Repr

/-- Construct to represent the entire list of buffers. -/
def ConsumingPair.new (buffer0 buffer1 : List α) : ConsumingPair α := ⟨buffer0, buffer1, 0⟩

/-- The two buffers for a single transfer, with a size; they may be empty. -/
def ConsumingPair.prepare (b : ConsumingPair α) (maxSize : ℕ) : List (List α) :=
  let result0 := (b.buffer0.drop b.totalConsumed).take maxSize
  let consumed1 :=
    if b.totalConsumed < b.buffer0.length then 0 else b.totalConsumed - b.buffer0.length
  [result0, (b.buffer1.drop consumed1).take (maxSize - result0.length)]

/-- The array as it is used by the composed operations. -/
def consumingPair (α : Type*) : Consumer (ConsumingPair α) α where
  empty b := b.buffer0.length + b.buffer1.length ≤ b.totalConsumed
  prepare := ConsumingPair.prepare
  consume b size := { b with totalConsumed := b.totalConsumed + size }
  totalConsumed := ConsumingPair.totalConsumed

/-- The members stand for the position behind `n` bytes of the two buffers. -/
structure ConsumingPair.Holds (b : ConsumingPair α) (xs : List α) (n : ℕ) : Prop where
  append_eq : b.buffer0 ++ b.buffer1 = xs
  totalConsumed_eq : b.totalConsumed = n
  le_length : n ≤ xs.length

/-- What is prepared of two buffers is what is prepared of one buffer with their contents. -/
lemma flatten_prepare_pair (b : ConsumingPair α) (maxSize : ℕ) :
    (b.prepare maxSize).flatten =
      ((b.buffer0 ++ b.buffer1).drop b.totalConsumed).take maxSize := by
  have hconsumed : (if b.totalConsumed < b.buffer0.length then 0
      else b.totalConsumed - b.buffer0.length) = b.totalConsumed - b.buffer0.length := by
    split_ifs with h
    · omega
    · rfl
  unfold ConsumingPair.prepare
  simp only [hconsumed, List.flatten_cons, List.flatten_nil, List.append_nil]
  rw [List.drop_append, List.take_append, List.length_take]
  by_cases hle : maxSize ≤ (b.buffer0.drop b.totalConsumed).length
  · rw [Nat.min_eq_left hle, Nat.sub_self, Nat.sub_eq_zero_of_le hle]
  · rw [Nat.min_eq_right (not_le.mp hle).le]

/-- **Two buffers.** -/
theorem consumingPair_represents : (consumingPair α).Represents ConsumingPair.Holds where
  le_length h := h.le_length
  totalConsumed_eq h := h.totalConsumed_eq
  empty_iff {b xs n} h := by
    change decide (b.buffer0.length + b.buffer1.length ≤ b.totalConsumed) = true ↔ n = xs.length
    have hle := h.le_length
    rw [decide_eq_true_iff, ← List.length_append, h.append_eq, h.totalConsumed_eq]
    omega
  prepare_isPrefix {b xs n} m h := by
    change (b.prepare m).flatten <+: _
    rw [flatten_prepare_pair, h.append_eq, h.totalConsumed_eq]
    exact List.take_prefix _ _
  length_prepare_le {b xs n} m h := by
    change (b.prepare m).flatten.length ≤ m
    rw [flatten_prepare_pair]
    exact List.length_take_le _ _
  prepare_ne_nil {b xs n m} h hm hn := by
    change (b.prepare m).flatten ≠ []
    rw [flatten_prepare_pair, h.append_eq, h.totalConsumed_eq]
    exact List.ne_nil_of_length_pos (by rw [List.length_take, List.length_drop]; omega)
  consume h hk := ⟨h.append_eq, congrArg (· + _) h.totalConsumed_eq, hk⟩

end Asio

end AsioStudy
