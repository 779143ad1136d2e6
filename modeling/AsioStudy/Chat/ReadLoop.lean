import AsioStudy.Chat.WriteQueue

/-!
# The read loops of the chat

`chat_session` and `chat_client` read in the same way: `do_read_header` asks for the four bytes of a
header, `do_read_body` for as many bytes as the header announces, both into the one message
`read_msg_`, which is never cleared.  They differ in what is done with a complete message and on an
error.

`ReadLoop.Reads` says what the loop will do with the bytes that are still to come, provided that
they are frames: it is the invariant that carries the framing through any segmentation.
-/

namespace AsioStudy

namespace Chat

/-- Which of the two functions has started the outstanding read, if one is outstanding. -/
inductive ReadPhase where
  | readHeader
  | readBody
  | stopped
  deriving DecidableEq, Repr

/-- How many reads of the message in hand are complete. -/
def ReadPhase.begun : ReadPhase → ℕ
  | .readBody => 1
  | _ => 0

/-- The read side of `chat_session` and of `chat_client`. -/
structure ReadLoop where
  /-- The member `read_msg_`. -/
  readMsg : ChatMessage
  /-- What is being read. -/
  phase : ReadPhase
  deriving DecidableEq, Repr

/-- What a handler of the read side does besides reading on: it passes on the message that is in
`read_msg_`, or it reacts to an error. -/
inductive ReadOutput where
  | received (msg : ChatMessage)
  | reacted (r : Reaction)
  deriving DecidableEq, Repr

/-- The read side after `do_read_header` was called for the first time. -/
def ReadLoop.new (content : Bytes) : ReadLoop := ⟨ChatMessage.new content, .readHeader⟩

/-- How many bytes the outstanding `async_read` asks for. -/
def ReadLoop.wanted (r : ReadLoop) : ℕ :=
  match r.phase with
  | .readHeader => headerLength
  | .readBody => r.readMsg.bodyLength
  | .stopped => 0

/-- What the outstanding read can come to: all bytes that it asks for, or an error after some of
them. -/
def ReadLoop.CanComplete (r : ReadLoop) (ok : Bool) (data : Bytes) : Prop :=
  r.phase ≠ .stopped ∧ if ok then data.length = r.wanted else data.length ≤ r.wanted

instance (r : ReadLoop) (ok : Bool) (data : Bytes) : Decidable (r.CanComplete ok data) := by
  unfold ReadLoop.CanComplete
  infer_instance

/-- The handler in `do_read_header`, after `data` have arrived in `data()`. -/
def ReadLoop.headerHandler (onError : Reaction) (r : ReadLoop) (ok : Bool) (data : Bytes) :
    ReadLoop × List ReadOutput :=
  let msg := r.readMsg.copyHeader data
  if ok then
    if msg.decodeHeader.1 then (⟨msg.decodeHeader.2, .readBody⟩, [])
    else (⟨msg.decodeHeader.2, .stopped⟩, [.reacted onError])
  else (⟨msg, .stopped⟩, [.reacted onError])

/-- The handler in `do_read_body`, after `data` have arrived in `body()`. -/
def ReadLoop.bodyHandler (onError : Reaction) (r : ReadLoop) (ok : Bool) (data : Bytes) :
    ReadLoop × List ReadOutput :=
  let msg := r.readMsg.copyBody data
  if ok then (⟨msg, .readHeader⟩, [.received msg])
  else (⟨msg, .stopped⟩, [.reacted onError])

/-- The handler of the outstanding read. -/
def ReadLoop.handler (onError : Reaction) (r : ReadLoop) (ok : Bool) (data : Bytes) :
    ReadLoop × List ReadOutput :=
  match r.phase with
  | .readHeader => r.headerHandler onError ok data
  | .readBody => r.bodyHandler onError ok data
  | .stopped => (r, [])

/-- The handlers of `chat_session`, which leave the room on an error. -/
def ChatSession.readHandler : ReadLoop → Bool → Bytes → ReadLoop × List ReadOutput :=
  ReadLoop.handler .roomLeave

/-- The handlers of `chat_client`, which close the socket on an error. -/
def ChatClient.readHandler : ReadLoop → Bool → Bytes → ReadLoop × List ReadOutput :=
  ReadLoop.handler .socketClose

/-! ## Reading frames -/

/-- The frames of a list of bodies, one after the other. -/
def frames (bodies : List Bytes) : Bytes := bodies.flatMap frame

/-- A message that is exactly the frame of its body. -/
def ChatMessage.IsFrame (m : ChatMessage) : Prop := m.wire = frame m.bodyBytes

/-- The read side is about to read the given bodies, and `future` are all bytes that are still to
come: whole frames before a header, and a body with whole frames after it when the header has
been read. -/
structure ReadLoop.Reads (r : ReadLoop) (future : Bytes) (bodies : List Bytes) : Prop where
  /-- The array of `read_msg_` has its size. -/
  length_data : r.readMsg.data.length = 516
  /-- No body is too long. -/
  length_le : ∀ body ∈ bodies, body.length ≤ maxBodyLength
  /-- The bytes to come match what is being read. -/
  future_eq : (r.phase = .readHeader ∧ future = frames bodies) ∨
    ∃ body rest, r.phase = .readBody ∧ bodies = body :: rest ∧ future = body ++ frames rest ∧
      r.readMsg.bodyLength = body.length ∧
      r.readMsg.data.take headerLength = header body.length

/-- A new read side reads the frames that come. -/
lemma reads_new {content : Bytes} (hcontent : content.length = 516) {bodies : List Bytes}
    (h : ∀ body ∈ bodies, body.length ≤ maxBodyLength) :
    (ReadLoop.new content).Reads (frames bodies) bodies :=
  ⟨hcontent, h, Or.inl ⟨rfl, rfl⟩⟩

/-- As long as there are bodies to read, the loop asks for no more than what is to come, and it
asks for something only then. -/
lemma ReadLoop.Reads.wanted_le {r : ReadLoop} {future : Bytes} {bodies : List Bytes}
    (h : r.Reads future bodies) (hne : bodies ≠ []) : r.wanted ≤ future.length := by
  rcases h.future_eq with ⟨hphase, hfuture⟩ | ⟨body, rest, hphase, -, hfuture, hlen, -⟩
  · obtain ⟨body, rest, rfl⟩ := List.exists_cons_of_ne_nil hne
    have hbody := length_frame (h.length_le body List.mem_cons_self)
    have hcons : frames (body :: rest) = frame body ++ frames rest := rfl
    rw [hfuture, hcons, List.length_append, hbody, ReadLoop.wanted, hphase]
    simp only
    omega
  · rw [hfuture, List.length_append, ReadLoop.wanted, hphase, ← hlen]
    exact Nat.le_add_right _ _

/-- A loop that reads frames has not stopped. -/
lemma ReadLoop.Reads.phase_ne {r : ReadLoop} {future : Bytes} {bodies : List Bytes}
    (h : r.Reads future bodies) : r.phase ≠ .stopped := by
  intro hstop
  rcases h.future_eq with ⟨hphase, -⟩ | ⟨body, rest, hphase, -⟩
  · rw [hstop] at hphase
    cases hphase
  · rw [hstop] at hphase
    cases hphase

/-- A message in hand is one of those to read. -/
lemma ReadLoop.Reads.begun_le {r : ReadLoop} {future : Bytes} {bodies : List Bytes}
    (h : r.Reads future bodies) : r.phase.begun ≤ bodies.length := by
  rcases h.future_eq with ⟨hphase, -⟩ | ⟨body, rest, hphase, hbodies, -⟩
  · rw [hphase]
    exact Nat.zero_le _
  · rw [hphase, hbodies]
    exact Nat.succ_le_succ (Nat.zero_le _)

/-- Copying into a buffer of the right size keeps its size. -/
lemma length_copy {m : ChatMessage} (hm : m.data.length = 516) {bytes : Bytes} :
    (bytes.length = headerLength → (m.copyHeader bytes).data.length = 516) ∧
      (bytes.length ≤ maxBodyLength → (m.copyBody bytes).data.length = 516) := by
  refine ⟨fun h => ?_, fun h => ?_⟩
  · unfold headerLength at h
    rw [ChatMessage.copyHeader, length_overwrite (by omega), hm]
  · unfold maxBodyLength at h
    rw [ChatMessage.copyBody, length_overwrite (by unfold headerLength; omega), hm]

/-- **One read.**  When a read of frames completes, the loop passes on what it has read as whole
messages, each with the frame of its body, and goes on to read the remaining bodies.  Every second
read completes a message. -/
lemma ReadLoop.Reads.handler (onError : Reaction) {r : ReadLoop} {data future : Bytes}
    {bodies : List Bytes} (h : r.Reads (data ++ future) bodies) (hdata : data.length = r.wanted) :
    ∃ rest, ∃ msgs : List ChatMessage,
      (r.handler onError true data).2 = msgs.map ReadOutput.received ∧
      bodies = msgs.map ChatMessage.bodyBytes ++ rest ∧ (∀ msg ∈ msgs, msg.IsFrame) ∧
      (r.handler onError true data).1.Reads future rest ∧
      2 * msgs.length + (r.handler onError true data).1.phase.begun = r.phase.begun + 1 := by
  rcases h.future_eq with ⟨hphase, hfuture⟩ | ⟨body, rest, hphase, hbodies, hfuture, hlen, hhead⟩
  · rw [ReadLoop.wanted, hphase] at hdata
    -- a header was read, which is the header of the next body
    obtain ⟨body, rest, rfl⟩ : ∃ body rest, bodies = body :: rest := by
      apply List.exists_cons_of_ne_nil
      intro hnil
      rw [hnil] at hfuture
      have hempty : data = [] := (List.append_eq_nil_iff.mp hfuture).1
      rw [hempty] at hdata
      cases hdata
    have hle := h.length_le body List.mem_cons_self
    have hsplit : data ++ future = header body.length ++ (body ++ frames rest) := by
      rw [hfuture, ← List.append_assoc]
      rfl
    obtain ⟨rfl, rfl⟩ := List.append_inj hsplit (hdata.trans (length_header hle).symm)
    have htake := take_copyHeader r.readMsg hle
    have hdecode := decodeHeader_of_header hle htake
    have hhandler : r.handler onError true (header body.length) =
        (⟨{ r.readMsg.copyHeader (header body.length) with bodyLength := body.length },
          .readBody⟩, []) := by
      simp [ReadLoop.handler, hphase, ReadLoop.headerHandler, hdecode]
    rw [hhandler]
    refine ⟨body :: rest, [], rfl, rfl, by simp, ⟨?_, h.length_le,
      Or.inr ⟨body, rest, rfl, rfl, rfl, rfl, htake⟩⟩, by rw [hphase]; rfl⟩
    exact (length_copy h.length_data).1 (length_header hle)
  · rw [ReadLoop.wanted, hphase] at hdata
    subst hbodies
    have hle := h.length_le body List.mem_cons_self
    obtain ⟨rfl, rfl⟩ := List.append_inj hfuture (hdata.trans hlen)
    have hhandler : r.handler onError true data =
        (⟨r.readMsg.copyBody data, .readHeader⟩, [.received (r.readMsg.copyBody data)]) := by
      simp [ReadLoop.handler, hphase, ReadLoop.bodyHandler]
    have hpos : headerLength ≤ r.readMsg.data.length := by
      rw [h.length_data]
      decide
    -- the header was read before, the body is new, and nothing older is in between
    obtain ⟨hwire, hbody⟩ : (r.readMsg.copyBody data).wire = frame data ∧
        (r.readMsg.copyBody data).bodyBytes = data := by
      refine wire_of_header_of_body ?_ (take_drop_overwrite hpos data) hlen
      rw [ChatMessage.copyBody, take_overwrite hpos, hhead]
    rw [hhandler]
    refine ⟨rest, [r.readMsg.copyBody data], rfl, ?_, ?_, ⟨?_, ?_, Or.inl ⟨rfl, rfl⟩⟩,
      by rw [hphase]; rfl⟩
    · rw [List.map_singleton, hbody]
      rfl
    · intro msg hmsg
      rw [List.mem_singleton] at hmsg
      rw [hmsg, ChatMessage.IsFrame, hwire, hbody]
    · exact (length_copy h.length_data).2 hle
    · exact fun b hb => h.length_le b (List.mem_cons_of_mem _ hb)

end Chat

end AsioStudy
