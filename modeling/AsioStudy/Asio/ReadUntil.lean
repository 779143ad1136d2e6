import AsioStudy.Cpp.Text

/-!
# `read_until` with a stream buffer

A `streambuf` keeps what was read at the beginning of a vector, which it enlarges before each read;
the elements behind are zero.  `read_until` reads until the delimiter is among the bytes read, and
then the buffer also holds whatever else came with the last read.  It takes the search up where a
partial match has left it.

A read returns what has arrived, at most as many bytes as `read_until` asks for.  The capacity of a
vector that is enlarged is up to the implementation.

The main result is `readUntil_spec`.
-/

namespace AsioStudy

namespace Asio

/-! ## Stream buffers -/

/-- The class `basic_streambuf`, from which nothing has been consumed. -/
structure Streambuf where
  /-- The elements of the vector `buffer_`. -/
  buffer : Bytes
  /-- `size()`, the number of bytes of the input sequence. -/
  size : ℕ
  /-- `capacity()` of the vector. -/
  capacity : ℕ
  deriving DecidableEq, Repr

/-- `max_size()`, by default the greatest `std::size_t`. -/
def maxSize : ℕ := 18446744073709551615

/-- The constant `buffer_delta`. -/
def bufferDelta : ℕ := 128

/-- `data()`, the bytes of the input sequence. -/
def Streambuf.data (sb : Streambuf) : Bytes := sb.buffer.take sb.size

/-- `buffer_.resize(n)`, where `grow` chooses the capacity of a vector that is enlarged. -/
def Streambuf.resize (grow : ℕ → ℕ → ℕ) (sb : Streambuf) (n : ℕ) : Streambuf :=
  { sb with
    buffer := sb.buffer.take n ++ List.replicate (n - sb.buffer.length) 0
    capacity := if n ≤ sb.capacity then sb.capacity else grow sb.buffer.length n }

/-- The constructor. -/
def Streambuf.new (grow : ℕ → ℕ → ℕ) : Streambuf :=
  Streambuf.resize grow ⟨[], 0, 0⟩ (max (min maxSize bufferDelta) 1)

/-- `prepare(n)`. -/
def Streambuf.prepare (grow : ℕ → ℕ → ℕ) (sb : Streambuf) (n : ℕ) : Streambuf :=
  if n ≤ sb.buffer.length - sb.size then sb else sb.resize grow (max (sb.size + n) 1)

/-- `commit`, after bytes have been read into what was prepared. -/
def Streambuf.commit (sb : Streambuf) (bytes : Bytes) : Streambuf :=
  { sb with buffer := overwrite sb.buffer sb.size bytes, size := sb.size + bytes.length }

/-- The number of bytes for which `read_until` asks. -/
def Streambuf.bytesToRead (sb : Streambuf) : ℕ :=
  min (max 512 (sb.capacity - sb.size)) (min 65536 (maxSize - sb.size))

/-- One read. -/
def Streambuf.readSome (grow : ℕ → ℕ → ℕ) (sb : Streambuf) (bytes : Bytes) : Streambuf :=
  (sb.prepare grow sb.bytesToRead).commit bytes

/-- The stream buffer after some reads. -/
def Streambuf.after (grow : ℕ → ℕ → ℕ) (reads : List Bytes) : Streambuf :=
  reads.foldl (Streambuf.readSome grow) (Streambuf.new grow)

/-! ## `read_until` -/

/-- `partial_search`, from a position on: where a match begins, or else a partial match at the end,
and whether it is a full match. -/
def partialSearch (delim : Bytes) (pos : ℕ) : Bytes → ℕ × Bool
  | [] => (pos, false)
  | b :: rest =>
    if delim <+: b :: rest then (pos, true)
    else if b :: rest <+: delim then (pos, false)
    else partialSearch delim (pos + 1) rest

/-- The errors of `read_until`: the stream has ended, or the buffer is full. -/
inductive ReadError where
  | eof
  | notFound
  deriving DecidableEq, Repr

/-- The loop of `read_until(s, b, delim, ec)`, with what the reads from the stream return until it
ends. -/
def readUntil (grow : ℕ → ℕ → ℕ) (delim : Bytes) (sb : Streambuf) (searchPosition : ℕ)
    (reads : List Bytes) : Except ReadError Streambuf :=
  let result := partialSearch delim searchPosition (sb.data.drop searchPosition)
  if result.2 then .ok sb
  else if sb.size = maxSize then .error .notFound
  else
    match reads with
    | [] => .error .eof
    | bytes :: reads => readUntil grow delim (sb.readSome grow bytes) result.1 reads

/-! ## What a stream buffer holds -/

/-- The buffer holds exactly these bytes, and there are `room` zeros behind them. -/
structure Streambuf.Holds (sb : Streambuf) (data : Bytes) (room : ℕ) : Prop where
  /-- The size of the input sequence. -/
  size_eq : sb.size = data.length
  /-- The elements of the vector. -/
  buffer_eq : sb.buffer = data ++ List.replicate room 0

/-- The bytes of the input sequence. -/
lemma Streambuf.Holds.data_eq {sb : Streambuf} {data : Bytes} {room : ℕ} (h : sb.Holds data room) :
    sb.data = data := by
  rw [Streambuf.data, h.size_eq, h.buffer_eq, List.take_left]

/-- The room is what the vector has besides the data. -/
lemma Streambuf.Holds.room_eq {sb : Streambuf} {data : Bytes} {room : ℕ} (h : sb.Holds data room) :
    room = sb.buffer.length - sb.size := by
  rw [h.buffer_eq, h.size_eq, List.length_append, List.length_replicate]
  omega

/-- A new stream buffer is empty. -/
lemma holds_new (grow : ℕ → ℕ → ℕ) : (Streambuf.new grow).Holds [] 128 := ⟨rfl, rfl⟩

/-- Preparing a read keeps the data. -/
lemma Streambuf.Holds.prepare {sb : Streambuf} {data : Bytes} {room : ℕ} (h : sb.Holds data room)
    (grow : ℕ → ℕ → ℕ) (n : ℕ) :
    ∃ room', (sb.prepare grow n).Holds data room' := by
  unfold Streambuf.prepare
  split_ifs with hn
  · exact ⟨room, h⟩
  · have hlen : sb.buffer.length = data.length + room := by
      rw [h.buffer_eq, List.length_append, List.length_replicate]
    rw [← h.room_eq] at hn
    have hsize := h.size_eq
    have hle : sb.buffer.length ≤ max (sb.size + n) 1 := by
      omega
    have hroom : room + (max (sb.size + n) 1 - (data.length + room)) =
        max (sb.size + n) 1 - data.length := by
      omega
    refine ⟨max (sb.size + n) 1 - data.length, h.size_eq, ?_⟩
    rw [Streambuf.resize, List.take_of_length_le hle, h.buffer_eq, List.append_assoc,
      ← List.replicate_add, List.length_append, List.length_replicate, hroom]

/-- Bytes that are read are put behind those that are there. -/
lemma Streambuf.Holds.commit {sb : Streambuf} {data : Bytes} {room : ℕ} (h : sb.Holds data room)
    (bytes : Bytes) : (sb.commit bytes).Holds (data ++ bytes) (room - bytes.length) := by
  refine ⟨?_, ?_⟩
  · rw [Streambuf.commit, List.length_append, h.size_eq]
  · rw [Streambuf.commit, h.size_eq, h.buffer_eq, overwrite, List.take_left,
      List.drop_append, List.drop_of_length_le (Nat.le_add_right _ _), List.nil_append,
      Nat.add_sub_cancel_left, List.drop_replicate]

/-- The last of some reads. -/
lemma after_concat (grow : ℕ → ℕ → ℕ) (reads : List Bytes) (bytes : Bytes) :
    Streambuf.after grow (reads ++ [bytes]) =
      (Streambuf.after grow reads).readSome grow bytes := by
  rw [Streambuf.after, List.foldl_append]
  rfl

/-- A stream buffer holds what was read. -/
lemma holds_after (grow : ℕ → ℕ → ℕ) (reads : List Bytes) :
    ∃ room, (Streambuf.after grow reads).Holds reads.flatten room := by
  induction reads using List.reverseRecOn with
  | nil => exact ⟨128, holds_new grow⟩
  | append_singleton reads bytes ih =>
    obtain ⟨room, h⟩ := ih
    obtain ⟨room', hprepared⟩ := h.prepare grow (Streambuf.after grow reads).bytesToRead
    refine ⟨room' - bytes.length, ?_⟩
    rw [after_concat, List.flatten_append, List.flatten_singleton]
    exact hprepared.commit bytes

/-! ## What is searched -/

/-- No match begins before the position, whatever follows the data. -/
def Searched (delim data : Bytes) (pos : ℕ) : Prop :=
  pos ≤ data.length ∧ ∀ j < pos, ∀ more, ¬ delim <+: (data ++ more).drop j

/-- The search of more data goes on where that of the data has stopped. -/
lemma Searched.append {delim data : Bytes} {pos : ℕ} (h : Searched delim data pos) (more : Bytes) :
    Searched delim (data ++ more) pos := by
  refine ⟨?_, fun j hj others => ?_⟩
  · rw [List.length_append]
    exact Nat.le_add_right_of_le h.1
  · rw [List.append_assoc]
    exact h.2 j hj _

/-- A match in searched data is one behind the position. -/
lemma Searched.infix_drop_iff {delim data : Bytes} {pos : ℕ} (h : Searched delim data pos) :
    delim <:+: data.drop pos ↔ delim <:+: data := by
  constructor
  · exact fun hmatch => hmatch.trans (List.drop_suffix pos data).isInfix
  · rintro ⟨before, after, rfl⟩
    have hpos : pos ≤ before.length := by
      by_contra hlt
      refine h.2 before.length (by omega) [] ⟨after, ?_⟩
      rw [List.append_nil, List.append_assoc, List.drop_left]
    refine ⟨before.drop pos, after, ?_⟩
    rw [List.append_assoc, List.append_assoc, List.drop_append_of_le_length hpos]

/-- A search that goes on from where the last one has stopped. -/
lemma Searched.add {delim data : Bytes} {pos k : ℕ} (h : Searched delim data pos)
    (hk : Searched delim (data.drop pos) k) : Searched delim data (pos + k) := by
  obtain ⟨hle, hfirst⟩ := h
  obtain ⟨hkle, hsecond⟩ := hk
  rw [List.length_drop] at hkle
  refine ⟨by omega, fun j hj more => ?_⟩
  rcases Nat.lt_or_ge j pos with hlt | hge
  · exact hfirst j hlt more
  · have hdrop : (data ++ more).drop j = (data.drop pos ++ more).drop (j - pos) := by
      rw [← List.drop_append_of_le_length hle, List.drop_drop, Nat.add_sub_cancel' hge]
    rw [hdrop]
    exact hsecond (j - pos) (by omega) more

/-- What `partial_search` finds: a match if there is one, and otherwise where the next search has to
begin. -/
lemma partialSearch_spec {delim : Bytes} (hdelim : delim ≠ []) (pos : ℕ) (s : Bytes) :
    ((partialSearch delim pos s).2 = true ↔ delim <:+: s) ∧
      ((partialSearch delim pos s).2 = false →
        ∃ k, (partialSearch delim pos s).1 = pos + k ∧ Searched delim s k) := by
  induction s generalizing pos with
  | nil =>
    refine ⟨?_, fun _ => ⟨0, rfl, le_refl 0, fun j hj => absurd hj (Nat.not_lt_zero j)⟩⟩
    rw [partialSearch, List.infix_nil]
    exact ⟨fun h => (Bool.false_ne_true h).elim, fun h => absurd h hdelim⟩
  | cons b rest ih =>
    rw [partialSearch]
    by_cases hfull : delim <+: b :: rest
    · rw [if_pos hfull]
      exact ⟨iff_of_true rfl hfull.isInfix, fun h => (Bool.false_ne_true h.symm).elim⟩
    rw [if_neg hfull]
    by_cases hpartial : b :: rest <+: delim
    · -- there are fewer bytes than in the delimiter
      rw [if_pos hpartial]
      refine ⟨iff_of_false Bool.false_ne_true fun hmatch => ?_, fun _ =>
        ⟨0, rfl, Nat.zero_le _, fun j hj => absurd hj (Nat.not_lt_zero j)⟩⟩
      have heq := hpartial.eq_of_length_le hmatch.length_le
      exact hfull (heq ▸ List.prefix_rfl)
    · rw [if_neg hpartial]
      obtain ⟨hmatch, hnext⟩ := ih (pos + 1)
      refine ⟨?_, fun hfalse => ?_⟩
      · rw [hmatch, List.infix_cons_iff]
        exact (or_iff_right hfull).symm
      · obtain ⟨k, hk, hle, hsearched⟩ := hnext hfalse
        refine ⟨k + 1, by omega, Nat.succ_le_succ hle, fun j hj more => ?_⟩
        cases j with
        | zero =>
          intro hpre
          have hmore : b :: rest <+: b :: rest ++ more := List.prefix_append _ _
          rcases List.prefix_or_prefix_of_prefix hpre hmore with h | h
          · exact hfull h
          · exact hpartial h
        | succ j => exact hsearched j (Nat.lt_of_succ_lt_succ hj) more

/-! ## Reads -/

/-- What reads can return to `read_until`: at least one byte each, and as long as it reads on, no
more than it asks for. -/
structure Reads (grow : ℕ → ℕ → ℕ) (delim : Bytes) (reads : List Bytes) : Prop where
  /-- A read waits until something has arrived. -/
  ne_nil : ∀ bytes ∈ reads, bytes ≠ []
  /-- A read returns no more than it was asked for. -/
  length_le : ∀ before bytes rest, reads = before ++ bytes :: rest → ¬ delim <:+: before.flatten →
    bytes.length ≤ (Streambuf.after grow before).bytesToRead

/-- Reads that have brought nothing were not made. -/
lemma Reads.eq_nil_of_flatten {grow : ℕ → ℕ → ℕ} {delim : Bytes} {used rest : List Bytes}
    (h : Reads grow delim (used ++ rest)) (hrest : rest.flatten = []) : rest = [] := by
  rw [List.flatten_eq_nil_iff] at hrest
  refine List.eq_nil_iff_forall_not_mem.mpr fun r hr => ?_
  exact h.ne_nil r (List.mem_append_right _ hr) (hrest r hr)

/-- If the delimiter is among the first reads and not before the last of all reads, then there are
no others. -/
lemma eq_nil_of_not_infix_dropLast {delim : Bytes} {used rest : List Bytes}
    (hused : delim <:+: used.flatten) (hwhole : ¬ delim <:+: (used ++ rest).dropLast.flatten) :
    rest = [] := by
  cases rest with
  | nil => rfl
  | cons r rest =>
    refine absurd (hused.trans ?_) hwhole
    rw [List.dropLast_append_of_ne_nil (List.cons_ne_nil r rest), List.flatten_append]
    exact (List.prefix_append _ _).isInfix

/-- **Reading until a delimiter.**  From the reads made before, `read_until` goes on reading until
the delimiter is among the bytes read, and then the buffer holds all that was read up to there; it
fails if the delimiter is not among all the bytes. -/
lemma readUntil_from {grow : ℕ → ℕ → ℕ} {delim : Bytes} (hdelim : delim ≠ [])
    {before reads : List Bytes} (hreads : Reads grow delim (before ++ reads)) {pos : ℕ}
    (hpos : Searched delim before.flatten pos) (hbefore : ¬ delim <:+: before.dropLast.flatten) :
    (∃ used rest, before ++ reads = used ++ rest ∧ delim <:+: used.flatten ∧
        ¬ delim <:+: used.dropLast.flatten ∧
        readUntil grow delim (Streambuf.after grow before) pos reads =
          .ok (Streambuf.after grow used)) ∨
      (¬ delim <:+: (before ++ reads).flatten ∧
        ∃ e, readUntil grow delim (Streambuf.after grow before) pos reads = .error e) := by
  induction reads generalizing before pos with
  | nil =>
    obtain ⟨room, hholds⟩ := holds_after grow before
    obtain ⟨hfound, -⟩ := partialSearch_spec hdelim pos (before.flatten.drop pos)
    rw [hpos.infix_drop_iff] at hfound
    rw [readUntil, hholds.data_eq]
    by_cases hmatch : delim <:+: before.flatten
    · exact Or.inl ⟨before, [], rfl, hmatch, hbefore, if_pos (hfound.mpr hmatch)⟩
    · refine Or.inr ⟨by rwa [List.append_nil], ?_⟩
      rw [if_neg fun h => hmatch (hfound.mp h)]
      split_ifs
      · exact ⟨_, rfl⟩
      · exact ⟨_, rfl⟩
  | cons bytes reads ih =>
    obtain ⟨room, hholds⟩ := holds_after grow before
    obtain ⟨hfound, hnext⟩ := partialSearch_spec hdelim pos (before.flatten.drop pos)
    rw [hpos.infix_drop_iff] at hfound
    rw [readUntil, hholds.data_eq]
    by_cases hmatch : delim <:+: before.flatten
    · exact Or.inl ⟨before, _, rfl, hmatch, hbefore, if_pos (hfound.mpr hmatch)⟩
    · -- a read is made, for which there is room
      have hlen := hreads.length_le before bytes reads rfl hmatch
      have hne := List.length_pos_of_ne_nil
        (hreads.ne_nil bytes (List.mem_append_right _ List.mem_cons_self))
      have hsize : (Streambuf.after grow before).size ≠ maxSize := by
        unfold Streambuf.bytesToRead at hlen
        omega
      have hnot : (partialSearch delim pos (before.flatten.drop pos)).2 = false := by
        rw [← Bool.not_eq_true]
        exact fun h => hmatch (hfound.mp h)
      obtain ⟨k, hk, hsearched⟩ := hnext hnot
      have hpos' : Searched delim before.flatten
          (partialSearch delim pos (before.flatten.drop pos)).1 := by
        rw [hk]
        exact hpos.add hsearched
      rw [if_neg (by rw [hnot]; exact Bool.false_ne_true), if_neg hsize]
      rw [← after_concat]
      rw [List.append_cons] at hreads ⊢
      refine ih hreads ?_ ?_
      · rw [List.flatten_append]
        exact hpos'.append _
      · rwa [List.dropLast_concat]

/-- **`read_until`.**  It reads until the delimiter is among the bytes read, and then the buffer
holds these bytes; it fails if the delimiter is not among the bytes of the stream. -/
theorem readUntil_spec {grow : ℕ → ℕ → ℕ} {delim : Bytes} (hdelim : delim ≠ [])
    {reads : List Bytes} (hreads : Reads grow delim reads) :
    (∃ used rest, reads = used ++ rest ∧ delim <:+: used.flatten ∧
        ¬ delim <:+: used.dropLast.flatten ∧
        readUntil grow delim (Streambuf.new grow) 0 reads = .ok (Streambuf.after grow used)) ∨
      (¬ delim <:+: reads.flatten ∧
        ∃ e, readUntil grow delim (Streambuf.new grow) 0 reads = .error e) := by
  have hstart : Searched delim ([] : List Bytes).flatten 0 :=
    ⟨le_refl 0, fun j hj => absurd hj (Nat.not_lt_zero j)⟩
  refine @readUntil_from grow delim hdelim [] reads hreads 0 hstart ?_
  rw [List.dropLast_nil, List.flatten_nil, List.infix_nil]
  exact hdelim

end Asio

end AsioStudy
