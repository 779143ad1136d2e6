import AsioStudy.Chat.ReadLoop
import AsioStudy.Foundation.Machine

/-!
# The bounds of a chat message

A `chat_message` as a machine over its operations, each with the parts of memory that it uses: the
buffers that are given to `async_read` and `async_write` refer to `data_`, and the functions for the
header have a local array.

`Bounded` is the invariant.  `decode_header` may store a length that is far too great, but it tests
the length before it returns.  The main results are `bounds_run` and, for the messages of
`chat_session` and `chat_client`, `reachable_handler` and `reachable_ofBody`.
-/

namespace AsioStudy

namespace Chat

/-! ## Operations -/

/-- A part of memory that is used. -/
inductive Access where
  /-- Bytes of `data_`. -/
  | data (offset size : ℕ)
  /-- The first bytes of the local array `header`. -/
  | header (size : ℕ)
  deriving DecidableEq, Repr

/-- The part lies in the 516 bytes of `data_`, or in the 5 bytes of `header`. -/
def Access.InBounds : Access → Prop
  | .data offset size => offset + size ≤ headerLength + maxBodyLength
  | .header size => size ≤ headerLength + 1

/-- It is decidable whether a part of memory lies within the arrays. -/
instance : DecidablePred Access.InBounds := fun access =>
  match access with
  | .data _ _ => Nat.decLe _ _
  | .header _ => Nat.decLe _ _

/-- An operation on a message. -/
inductive Operation where
  /-- `body_length(new_length)`. -/
  | setBodyLength (newLength : ℕ)
  /-- `async_read` into `data()` with `header_length`, when these bytes have arrived. -/
  | readHeader (bytes : Bytes)
  /-- `async_read` into `body()` with `body_length()`, when these bytes have arrived. -/
  | readBody (bytes : Bytes)
  /-- Bytes are stored somewhere in `data_`. -/
  | store (pos : ℕ) (bytes : Bytes)
  /-- `decode_header()`. -/
  | decodeHeader
  /-- `encode_header()`. -/
  | encodeHeader
  /-- `async_write` from `data()` with `length()`. -/
  | write
  deriving DecidableEq, Repr

/-- An operation, with the parts of memory that it uses.  A read brings at most as many bytes as its
buffer has, and what else is stored in `data_` has its place there. -/
def ChatMessage.step (m : ChatMessage) : Operation → Option (ChatMessage × List Access)
  | .setBodyLength newLength => some (m.setBodyLength newLength, [])
  | .readHeader bytes =>
    if bytes.length ≤ headerLength then some (m.copyHeader bytes, [.data 0 headerLength]) else none
  | .readBody bytes =>
    if bytes.length ≤ m.bodyLength then
      some (m.copyBody bytes, [.data headerLength m.bodyLength])
    else none
  | .store pos bytes =>
    if pos + bytes.length ≤ headerLength + maxBodyLength then
      some ({ m with data := overwrite m.data pos bytes }, [.data pos bytes.length])
    else none
  | .decodeHeader =>
    -- `strncat` adds a NUL
    some (m.decodeHeader.2,
      [.data 0 headerLength, .header ((cString (m.data.take headerLength)).length + 1)])
  | .encodeHeader =>
    -- and so does `sprintf`
    some (m.encodeHeader,
      [.header ((printInt4 (sizeToInt m.bodyLength)).length + 1), .data 0 headerLength])
  | .write => some (m, [.data 0 m.length])

/-! ## The invariant -/

/-- The array has its size, and the length of the body is one that fits into it. -/
structure ChatMessage.Bounded (m : ChatMessage) : Prop where
  /-- The size of `data_`. -/
  length_data : m.data.length = headerLength + maxBodyLength
  /-- The bound of `body_length()`. -/
  bodyLength_le : m.bodyLength ≤ maxBodyLength

/-- A new message is bounded, whatever there is in the array. -/
lemma bounded_new (content : Vector UInt8 516) : (ChatMessage.new content.toList).Bounded :=
  ⟨Vector.length_toList, Nat.zero_le _⟩

/-- Storing bytes within the array keeps the bounds. -/
lemma ChatMessage.Bounded.overwrite {m : ChatMessage} (h : m.Bounded) {pos : ℕ} {bytes : Bytes}
    (hbytes : pos + bytes.length ≤ headerLength + maxBodyLength) :
    ({ m with data := overwrite m.data pos bytes } : ChatMessage).Bounded :=
  ⟨(length_overwrite (h.length_data ▸ hbytes)).trans h.length_data, h.bodyLength_le⟩

/-- The setter keeps the bounds, whatever the new length is. -/
lemma ChatMessage.Bounded.setBodyLength {m : ChatMessage} (h : m.Bounded) (newLength : ℕ) :
    (m.setBodyLength newLength).Bounded := by
  refine ⟨h.length_data, ?_⟩
  simp only [ChatMessage.setBodyLength]
  split_ifs with hlong
  · exact le_rfl
  · exact Nat.not_lt.mp hlong

/-- Decoding a header keeps the bounds, whatever there is in the header: a length that is too great
is replaced. -/
lemma ChatMessage.Bounded.decodeHeader {m : ChatMessage} (h : m.Bounded) :
    m.decodeHeader.2.Bounded := by
  simp only [ChatMessage.decodeHeader]
  split_ifs with hlong
  · exact ⟨h.length_data, Nat.zero_le _⟩
  · exact ⟨h.length_data, Nat.not_lt.mp hlong⟩

/-- What `sprintf` writes for a bounded message. -/
lemma ChatMessage.Bounded.length_printInt4 {m : ChatMessage} (h : m.Bounded) :
    (printInt4 (sizeToInt m.bodyLength)).length = headerLength := by
  have hmax : m.bodyLength < 2147483648 := lt_of_le_of_lt h.bodyLength_le (by decide)
  rw [sizeToInt_of_lt hmax]
  exact length_header h.bodyLength_le

/-- Encoding the header keeps the bounds. -/
lemma ChatMessage.Bounded.encodeHeader {m : ChatMessage} (h : m.Bounded) :
    m.encodeHeader.Bounded := by
  apply h.overwrite
  rw [Nat.zero_add]
  exact (List.length_take_le _ _).trans (Nat.le_add_right _ _)

/-- A read of a header keeps the bounds. -/
lemma ChatMessage.Bounded.copyHeader {m : ChatMessage} (h : m.Bounded) {bytes : Bytes}
    (hbytes : bytes.length ≤ headerLength) : (m.copyHeader bytes).Bounded := by
  apply h.overwrite
  rw [Nat.zero_add]
  exact hbytes.trans (Nat.le_add_right _ _)

/-- A read of a body keeps the bounds. -/
lemma ChatMessage.Bounded.copyBody {m : ChatMessage} (h : m.Bounded) {bytes : Bytes}
    (hbytes : bytes.length ≤ m.bodyLength) : (m.copyBody bytes).Bounded :=
  h.overwrite (Nat.add_le_add_left (hbytes.trans h.bodyLength_le) headerLength)

/-- **One operation.**  It keeps the bounds, and it uses memory within them. -/
lemma ChatMessage.Bounded.step {m m' : ChatMessage} {op : Operation} {accesses : List Access}
    (h : m.Bounded) (hstep : m.step op = some (m', accesses)) :
    m'.Bounded ∧ ∀ access ∈ accesses, access.InBounds := by
  cases op with
  | setBodyLength newLength =>
    cases hstep
    exact ⟨h.setBodyLength newLength, List.forall_mem_nil _⟩
  | readHeader bytes =>
    obtain ⟨hbytes, heq⟩ := Option.ite_none_right_eq_some.mp hstep
    cases heq
    exact ⟨h.copyHeader hbytes, List.forall_mem_singleton.mpr (by decide)⟩
  | readBody bytes =>
    obtain ⟨hbytes, heq⟩ := Option.ite_none_right_eq_some.mp hstep
    cases heq
    exact ⟨h.copyBody hbytes,
      List.forall_mem_singleton.mpr (Nat.add_le_add_left h.bodyLength_le headerLength)⟩
  | store pos bytes =>
    obtain ⟨hbytes, heq⟩ := Option.ite_none_right_eq_some.mp hstep
    cases heq
    exact ⟨h.overwrite hbytes, List.forall_mem_singleton.mpr hbytes⟩
  | decodeHeader =>
    cases hstep
    have hheader : (cString (m.data.take headerLength)).length ≤ headerLength :=
      (cString_isPrefix _).length_le.trans (List.length_take_le _ _)
    refine ⟨h.decodeHeader, List.forall_mem_cons.mpr ⟨by decide, ?_⟩⟩
    exact List.forall_mem_singleton.mpr (Nat.succ_le_succ hheader)
  | encodeHeader =>
    obtain ⟨rfl, rfl⟩ := Prod.mk.inj (Option.some.inj hstep)
    refine ⟨h.encodeHeader, List.forall_mem_cons.mpr ⟨?_, ?_⟩⟩
    · exact Nat.succ_le_succ h.length_printInt4.le
    · exact List.forall_mem_singleton.mpr (by decide)
  | write =>
    cases hstep
    have hle : 0 + m.length ≤ headerLength + maxBodyLength := by
      rw [Nat.zero_add, ChatMessage.length]
      exact Nat.add_le_add_left h.bodyLength_le headerLength
    exact ⟨h, List.forall_mem_singleton.mpr hle⟩

/-! ## Whole runs -/

/-- A message on which only operations were performed. -/
def ChatMessage.IsReachable (m : ChatMessage) : Prop :=
  ∃ content : Vector UInt8 516,
    Machine.Reachable ChatMessage.step (ChatMessage.new content.toList) m

/-- Such a message is bounded. -/
lemma ChatMessage.IsReachable.bounded {m : ChatMessage} (h : m.IsReachable) : m.Bounded := by
  obtain ⟨content, hreach⟩ := h
  exact hreach.invariant (bounded_new content) fun _ _ _ _ hm hstep => (hm.step hstep).1

/-- **The bounds.**  After every sequence of operations on a new message, the body is not longer
than it may be; and on the way there, no operation has used memory outside of the arrays. -/
theorem bounds_run {content : Vector UInt8 516} {ops : List Operation} {m : ChatMessage}
    {accesses : List Access}
    (hrun : Machine.run ChatMessage.step (ChatMessage.new content.toList) ops =
      some (m, accesses)) :
    m.bodyLength ≤ maxBodyLength ∧ ∀ access ∈ accesses, access.InBounds := by
  refine ⟨(ChatMessage.IsReachable.bounded ⟨content, ops, accesses, hrun⟩).bodyLength_le, ?_⟩
  exact Machine.run_forall_mem (I := ChatMessage.Bounded)
    (fun _ _ _ _ hm hstep => hm.step hstep) hrun (bounded_new content)

/-- A peer that announces a length of -1, and a caller that asks for one that is just as great. -/
theorem bounds_run_hostile :
    ∃ m accesses, Machine.run ChatMessage.step
        (ChatMessage.new (Vector.replicate 516 0).toList)
        [.readHeader (bytes "-1  "), .decodeHeader, .readBody [],
          .setBodyLength 18446744073709551615, .encodeHeader, .write] = some (m, accesses) ∧
      m.bodyLength ≤ maxBodyLength ∧ ∀ access ∈ accesses, access.InBounds := by
  obtain ⟨⟨m, accesses⟩, hrun⟩ := Option.isSome_iff_exists.mp
    (show (Machine.run ChatMessage.step (ChatMessage.new (Vector.replicate 516 0).toList)
      [.readHeader (bytes "-1  "), .decodeHeader, .readBody [],
        .setBodyLength 18446744073709551615, .encodeHeader, .write]).isSome = true by
      decide +kernel)
  exact ⟨m, accesses, hrun, bounds_run hrun⟩

/-! ## The messages of the chat -/

/-- What follows an operation on a reachable message is reachable. -/
lemma ChatMessage.IsReachable.step {m m' : ChatMessage} {accesses : List Access}
    (h : m.IsReachable) (op : Operation) (hstep : m.step op = some (m', accesses)) :
    m'.IsReachable := by
  obtain ⟨content, hreach⟩ := h
  exact ⟨content, hreach.run ((Machine.run_singleton m op).trans hstep)⟩

/-- A read brings at most as many bytes as it asks for. -/
lemma ReadLoop.CanComplete.length_le {r : ReadLoop} {ok : Bool} {data : Bytes}
    (h : r.CanComplete ok data) : data.length ≤ r.wanted := by
  obtain ⟨-, hlength⟩ := h
  cases ok with
  | true => exact le_of_eq hlength
  | false => exact hlength

/-- **Reading.**  What the handlers of `chat_session` and of `chat_client` do to `read_msg_`, and
what they pass on, comes about by operations, whatever bytes arrive. -/
theorem reachable_handler {onError : Reaction} {r : ReadLoop} {ok : Bool} {data : Bytes}
    (h : r.readMsg.IsReachable) (hdata : r.CanComplete ok data) :
    (r.handler onError ok data).1.readMsg.IsReachable ∧
      ∀ msg, ReadOutput.received msg ∈ (r.handler onError ok data).2 → msg.IsReachable := by
  have hlength := hdata.length_le
  cases hphase : r.phase with
  | readHeader =>
    rw [ReadLoop.wanted, hphase] at hlength
    have hread : (r.readMsg.copyHeader data).IsReachable :=
      h.step (.readHeader data) (if_pos hlength)
    have hdecoded : (r.readMsg.copyHeader data).decodeHeader.2.IsReachable :=
      hread.step .decodeHeader rfl
    simp only [ReadLoop.handler, hphase, ReadLoop.headerHandler]
    split_ifs
    · exact ⟨hdecoded, by simp⟩
    · exact ⟨hdecoded, by simp⟩
    · exact ⟨hread, by simp⟩
  | readBody =>
    rw [ReadLoop.wanted, hphase] at hlength
    have hread : (r.readMsg.copyBody data).IsReachable :=
      h.step (.readBody data) (if_pos hlength)
    simp only [ReadLoop.handler, hphase, ReadLoop.bodyHandler]
    split_ifs
    · refine ⟨hread, fun msg hmem => ?_⟩
      rw [List.mem_singleton, ReadOutput.received.injEq] at hmem
      exact hmem ▸ hread
    · exact ⟨hread, by simp⟩
  | stopped =>
    simp only [ReadLoop.handler, hphase]
    exact ⟨h, by simp⟩

/-- **Writing.**  The messages that `main` of `chat_client` makes of its lines come about by
operations. -/
theorem reachable_ofBody (content : Vector UInt8 516) (body : Bytes) :
    (ChatMessage.ofBody content.toList body).IsReachable := by
  have hnew : (ChatMessage.new content.toList).IsReachable := ⟨content, Machine.Reachable.init _⟩
  have hlength := hnew.step (.setBodyLength body.length) rfl
  have htake : (body.take ((ChatMessage.new content.toList).setBodyLength
      body.length).bodyLength).length ≤
        ((ChatMessage.new content.toList).setBodyLength body.length).bodyLength :=
    List.length_take_le _ _
  have hbody := hlength.step (.readBody _) (if_pos htake)
  exact hbody.step .encodeHeader rfl

end Chat

end AsioStudy
