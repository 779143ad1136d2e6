import AsioStudy.Chat.ReadLoop
import AsioStudy.Chat.Room

/-!
# From client to client

The whole path of the messages of one client: the bytes that it writes, the read loop of its
session, the room, the write queue of the session of another member, the bytes that this session
writes, and the read loop of the member's client.  Bytes arrive in any portions, the outstanding
operations complete in any order, and other participants join and leave.

A read of `n` bytes completes with exactly the next `n` bytes, as soon as they have arrived.  The
bytes of an outstanding write may arrive before its handler runs.

The main result is `framing_end_to_end`.
-/

namespace AsioStudy

namespace Chat

/-- The state of the path. -/
structure Path where
  /-- What the client has written and has not arrived at the server. -/
  coming : Bytes
  /-- What has arrived at the server and was not read. -/
  arrived : Bytes
  /-- The read side of the client's session. -/
  session : ReadLoop
  /-- The room. -/
  room : ChatRoom ℕ ChatMessage
  /-- The write side of the member's session. -/
  writer : WriteQueue
  /-- How many bytes of the outstanding write of the member's session have left it. -/
  transmitted : ℕ
  /-- What the member's session has written and has not arrived at the member's client. -/
  comingBack : Bytes
  /-- What has arrived at the member's client and was not read. -/
  arrivedBack : Bytes
  /-- The read side of the member's client. -/
  client : ReadLoop
  deriving DecidableEq, Repr

/-- What can be observed on the path: calls of `room_.deliver`, bytes that leave the member's
session, and what the member's client prints. -/
inductive PathOutput where
  | roomDeliver (msg : ChatMessage)
  | sent (bytes : Bytes)
  | printed (body : Bytes)
  deriving DecidableEq, Repr

/-- What can happen on the path. -/
inductive PathEvent where
  /-- The next `n` bytes arrive at the server. -/
  | arrive (n : ℕ)
  /-- The outstanding read of the client's session completes and its handler runs. -/
  | read
  /-- Another participant joins the room. -/
  | otherJoins (p : ℕ)
  /-- Another participant leaves the room. -/
  | otherLeaves (p : ℕ)
  /-- The next `n` bytes of the outstanding write leave the member's session. -/
  | transmit (n : ℕ)
  /-- The outstanding write of the member's session completes and its handler runs. -/
  | written
  /-- The next `n` bytes arrive at the member's client. -/
  | arriveBack (n : ℕ)
  /-- The outstanding read of the member's client completes and its handler runs. -/
  | readBack
  deriving DecidableEq, Repr

/-- The path before anything has arrived; `content` and `content'` are in the arrays of the messages
of the session and of the member's client. -/
def Path.start (room : ChatRoom ℕ ChatMessage) (content content' stream : Bytes) : Path :=
  ⟨stream, [], ReadLoop.new content, room, SingleWriter.Writer.new, 0, [], [],
    ReadLoop.new content'⟩

/-- `room_.deliver(msg)`, as far as the member is concerned: `deliver` of its session is called for
the messages that the room passes to it. -/
def Path.deliver (member : ℕ) (s : Path) (msg : ChatMessage) : Path :=
  { s with
    room := (s.room.deliver msg).1
    writer := (receivedBy member (s.room.deliver msg).2).foldl
      (fun w m => (ChatSession.deliver w m).1) s.writer }

/-- The client's session passes on what it has read, or leaves the room. -/
def Path.sessionOutput (member sender : ℕ) (s : Path) : ReadOutput → Path × List PathOutput
  | .received msg => (s.deliver member msg, [.roomDeliver msg])
  | .reacted _ => ({ s with room := (s.room.leave sender).1 }, [])

/-- The member's client prints what it has read. -/
def Path.clientOutput (s : Path) : ReadOutput → Path × List PathOutput
  | .received msg => (s, [.printed msg.bodyBytes])
  | .reacted _ => (s, [])

/-- The effect of an event, or `none` if it is impossible. -/
def Path.step (member sender : ℕ) (s : Path) : PathEvent → Option (Path × List PathOutput)
  | .arrive n =>
    if 1 ≤ n ∧ n ≤ s.coming.length then
      some ({ s with arrived := s.arrived ++ s.coming.take n, coming := s.coming.drop n }, [])
    else none
  | .read =>
    if s.session.phase ≠ .stopped ∧ s.session.wanted ≤ s.arrived.length then
      let r := ChatSession.readHandler s.session true (s.arrived.take s.session.wanted)
      some (Machine.runTotal (Path.sessionOutput member sender)
        { s with session := r.1, arrived := s.arrived.drop s.session.wanted } r.2)
    else none
  | .otherJoins p =>
    if p ≠ member then some ({ s with room := (s.room.join p).1 }, []) else none
  | .otherLeaves p =>
    if p ≠ member then some ({ s with room := (s.room.leave p).1 }, []) else none
  | .transmit n =>
    match s.writer.inFlight with
    | msg :: _ =>
      if 1 ≤ n ∧ s.transmitted + n ≤ msg.wire.length then
        let bytes := (msg.wire.drop s.transmitted).take n
        some ({ s with
          transmitted := s.transmitted + n, comingBack := s.comingBack ++ bytes }, [.sent bytes])
      else none
    | [] => none
  | .written =>
    match s.writer.inFlight with
    | msg :: _ =>
      if s.transmitted = msg.wire.length then
        some ({ s with
          writer := (ChatSession.writeHandler
            { s.writer with inFlight := s.writer.inFlight.eraseIdx 0 } true).1
          transmitted := 0 }, [])
      else none
    | [] => none
  | .arriveBack n =>
    if 1 ≤ n ∧ n ≤ s.comingBack.length then
      some ({ s with
        arrivedBack := s.arrivedBack ++ s.comingBack.take n
        comingBack := s.comingBack.drop n }, [])
    else none
  | .readBack =>
    if s.client.phase ≠ .stopped ∧ s.client.wanted ≤ s.arrivedBack.length then
      let r := ChatClient.readHandler s.client true (s.arrivedBack.take s.client.wanted)
      some (Machine.runTotal Path.clientOutput
        { s with client := r.1, arrivedBack := s.arrivedBack.drop s.client.wanted } r.2)
    else none

/-! ## The record of a run -/

/-- The messages that were delivered to the room. -/
def deliveredMsgs (out : List PathOutput) : List ChatMessage :=
  out.filterMap fun x =>
    match x with
    | .roomDeliver msg => some msg
    | _ => none

/-- The bytes that have left the member's session. -/
def sentBytes (out : List PathOutput) : Bytes :=
  out.flatMap fun x =>
    match x with
    | .sent bytes => bytes
    | _ => []

/-- What the member's client has printed. -/
def printedBodies (out : List PathOutput) : List Bytes :=
  out.filterMap fun x =>
    match x with
    | .printed body => some body
    | _ => none

/-- The messages of two stretches of a run. -/
@[simp] lemma deliveredMsgs_append (out out' : List PathOutput) :
    deliveredMsgs (out ++ out') = deliveredMsgs out ++ deliveredMsgs out' :=
  List.filterMap_append

/-- The bytes of two stretches of a run. -/
@[simp] lemma sentBytes_append (out out' : List PathOutput) :
    sentBytes (out ++ out') = sentBytes out ++ sentBytes out' := List.flatMap_append

/-- The bodies of two stretches of a run. -/
@[simp] lemma printedBodies_append (out out' : List PathOutput) :
    printedBodies (out ++ out') = printedBodies out ++ printedBodies out' :=
  List.filterMap_append

/-- The record of messages that are delivered to the room. -/
lemma record_roomDeliver (msgs : List ChatMessage) :
    deliveredMsgs (msgs.map PathOutput.roomDeliver) = msgs ∧
      sentBytes (msgs.map PathOutput.roomDeliver) = [] ∧
      printedBodies (msgs.map PathOutput.roomDeliver) = [] := by
  refine ⟨?_, ?_, ?_⟩
  · simp [deliveredMsgs, List.filterMap_map]
  · simp [sentBytes, List.flatMap_map]
  · simp [printedBodies, List.filterMap_map]

/-- The record of bodies that are printed. -/
lemma record_printed (bodies : List Bytes) :
    deliveredMsgs (bodies.map PathOutput.printed) = [] ∧
      sentBytes (bodies.map PathOutput.printed) = [] ∧
      printedBodies (bodies.map PathOutput.printed) = bodies := by
  refine ⟨?_, ?_, ?_⟩
  · simp [deliveredMsgs, List.filterMap_map]
  · simp [sentBytes, List.flatMap_map]
  · simp [printedBodies, List.filterMap_map]

/-! ## The way back -/

/-- The bytes of messages, one after the other. -/
def wires (msgs : List ChatMessage) : Bytes := msgs.flatMap ChatMessage.wire

/-- The bytes of frames are the frames of the bodies. -/
lemma wires_eq_frames {msgs : List ChatMessage} (h : ∀ msg ∈ msgs, msg.IsFrame) :
    wires msgs = frames (msgs.map ChatMessage.bodyBytes) := by
  induction msgs with
  | nil => rfl
  | cons msg msgs ih =>
    have htail := ih fun m hm => h m (List.mem_cons_of_mem _ hm)
    have hhead : msg.wire = frame msg.bodyBytes := h msg List.mem_cons_self
    have hcons : wires (msg :: msgs) = msg.wire ++ wires msgs := rfl
    rw [hcons, htail, hhead]
    rfl

/-- The part of the path after the room: the messages delivered so far are written or queued, the
bytes that have left the member's session are those of the written messages and of a part of the
front one, and the member's client has printed the first bodies and will read the others from the
bytes to come. -/
structure Path.Back (member : ℕ) (s : Path) (out : List PathOutput) (back : List Bytes)
    (events : List WriteEvent) (wout : List WriteOutput) : Prop where
  /-- Every delivered message is the frame of its body. -/
  isFrame : ∀ msg ∈ deliveredMsgs out, msg.IsFrame
  /-- No body is too long. -/
  length_le : ∀ msg ∈ deliveredMsgs out, msg.bodyBytes.length ≤ maxBodyLength
  /-- The member is in the room. -/
  member_mem : member ∈ s.room.participants
  /-- The participants are a set. -/
  nodup : s.room.participants.Nodup
  /-- The write queue follows its pattern. -/
  writer_inv : s.writer.Inv events wout
  /-- No write has failed. -/
  not_failed : SingleWriter.hasFailed wout = false
  /-- What was queued is what was delivered to the room. -/
  queued_eq : SingleWriter.enqueued events = deliveredMsgs out
  /-- At most the front message has been transmitted. -/
  transmitted_le : s.transmitted ≤ (wires s.writer.queue.head?.toList).length
  /-- What has left the session. -/
  sent_eq : sentBytes out =
    wires (SingleWriter.written wout) ++ (wires s.writer.queue).take s.transmitted
  /-- What the client has printed. -/
  printed_eq : (deliveredMsgs out).map ChatMessage.bodyBytes = printedBodies out ++ back
  /-- What the client will read. -/
  client_reads : s.client.Reads
    (s.arrivedBack ++ s.comingBack ++ (wires s.writer.queue).drop s.transmitted) back

variable {member : ℕ} {s s' : Path} {out o : List PathOutput} {back back' : List Bytes}
  {events : List WriteEvent} {wout : List WriteOutput}

/-- A loop that reads frames will read one more frame that is added at the end. -/
lemma ReadLoop.Reads.concat {r : ReadLoop} {future : Bytes} {bodies : List Bytes}
    (h : r.Reads future bodies) {body : Bytes} (hbody : body.length ≤ maxBodyLength) :
    r.Reads (future ++ frame body) (bodies ++ [body]) := by
  have hframes : ∀ bs : List Bytes, frames (bs ++ [body]) = frames bs ++ frame body := by
    intro bs
    simp [frames]
  refine ⟨h.length_data, ?_, ?_⟩
  · intro b hb
    rcases List.mem_append.mp hb with hb | hb
    · exact h.length_le b hb
    · rw [List.mem_singleton.mp hb]
      exact hbody
  · rcases h.future_eq with ⟨hphase, hfuture⟩ | ⟨b, rest, hphase, hbodies, hfuture, hlen, hhead⟩
    · exact Or.inl ⟨hphase, by rw [hfuture, hframes]⟩
    · refine Or.inr ⟨b, rest ++ [body], hphase, by rw [hbodies]; rfl, ?_, hlen, hhead⟩
      rw [hfuture, hframes, List.append_assoc]

/-- Appending to a queue. -/
lemma queue_enqueue (w : WriteQueue) (msg : ChatMessage) :
    (w.enqueue msg : WriteQueue × List WriteOutput).1.queue = w.queue ++ [msg] := by
  unfold SingleWriter.Writer.enqueue SingleWriter.Writer.start
  cases w.queue <;> rfl

/-- No more is transmitted than the queue holds. -/
lemma Path.Back.transmitted_le_length (h : s.Back member out back events wout) :
    s.transmitted ≤ (wires s.writer.queue).length := by
  apply h.transmitted_le.trans
  cases s.writer.queue with
  | nil => exact le_rfl
  | cons msg msgs => simp [wires]

/-- Queueing a message completes no write. -/
lemma output_enqueue (w : WriteQueue) (msg : ChatMessage) :
    SingleWriter.hasFailed (w.enqueue msg : WriteQueue × List WriteOutput).2 = false ∧
      SingleWriter.written (w.enqueue msg : WriteQueue × List WriteOutput).2 = [] := by
  unfold SingleWriter.Writer.enqueue SingleWriter.Writer.start
  cases w.queue <;> exact ⟨rfl, rfl⟩

/-- The room passes a message to the member exactly once. -/
lemma Path.Back.writer_deliver (h : s.Back member out back events wout) (msg : ChatMessage) :
    (s.deliver member msg).writer = (s.writer.enqueue msg : WriteQueue × List WriteOutput).1 := by
  have hcall := call_of_mem h.nodup h.member_mem (c := .deliver msg) (by simp) (by simp)
  have hpassed : receivedBy member (s.room.deliver msg).2 = [msg] := hcall.2
  rw [Path.deliver, hpassed]
  rfl

/-- Delivering a frame to the room keeps the way back in order. -/
lemma Path.Back.deliver (h : s.Back member out back events wout) {msg : ChatMessage}
    (hmsg : msg.IsFrame) (hlen : msg.bodyBytes.length ≤ maxBodyLength) :
    ∃ events' wout', (s.deliver member msg).Back member (out ++ [.roomDeliver msg])
      (back ++ [msg.bodyBytes]) events' wout' := by
  have hwriter := h.writer_deliver msg
  have hqueue : (s.deliver member msg).writer.queue = s.writer.queue ++ [msg] := by
    rw [hwriter, queue_enqueue]
  have hwires : wires (s.writer.queue ++ [msg]) = wires s.writer.queue ++ msg.wire := by
    simp [wires]
  have hle := h.transmitted_le_length
  obtain ⟨hok, hnone⟩ := output_enqueue s.writer msg
  have hdelivered : deliveredMsgs (out ++ [.roomDeliver msg]) = deliveredMsgs out ++ [msg] :=
    deliveredMsgs_append out [.roomDeliver msg]
  have hmem : ∀ m ∈ deliveredMsgs (out ++ [.roomDeliver msg]), m ∈ deliveredMsgs out ∨ m = msg := by
    intro m hm
    rw [hdelivered, List.mem_append, List.mem_singleton] at hm
    exact hm
  refine ⟨events ++ [.enqueue msg],
    wout ++ (s.writer.enqueue msg : WriteQueue × List WriteOutput).2, ?_, ?_, h.member_mem,
    h.nodup, ?_, ?_, ?_, ?_, ?_, ?_, ?_⟩
  · intro m hm
    rcases hmem m hm with hm | rfl
    · exact h.isFrame m hm
    · exact hmsg
  · intro m hm
    rcases hmem m hm with hm | rfl
    · exact h.length_le m hm
    · exact hlen
  · rw [hwriter]
    exact h.writer_inv.enqueue msg
  · rw [SingleWriter.hasFailed_append, h.not_failed, hok]
    rfl
  · rw [hdelivered, SingleWriter.enqueued_append, h.queued_eq]
    rfl
  · apply h.transmitted_le.trans
    rw [hqueue]
    cases s.writer.queue with
    | nil => exact Nat.zero_le _
    | cons m ms => exact le_rfl
  · have hsent : sentBytes (out ++ [.roomDeliver msg]) = sentBytes out := by
      rw [sentBytes_append]
      exact List.append_nil _
    have htransmitted : (s.deliver member msg).transmitted = s.transmitted := rfl
    rw [hsent, h.sent_eq, SingleWriter.written_append, hnone, List.append_nil, hqueue, hwires,
      htransmitted, List.take_append_of_le_length hle]
  · have hprinted : printedBodies (out ++ [.roomDeliver msg]) = printedBodies out := by
      rw [printedBodies_append]
      exact List.append_nil _
    rw [hdelivered, hprinted, List.map_append, h.printed_eq, List.append_assoc]
    rfl
  · have hdrop : (wires (s.writer.queue ++ [msg])).drop s.transmitted =
        (wires s.writer.queue).drop s.transmitted ++ frame msg.bodyBytes := by
      rw [hwires, List.drop_append_of_le_length hle, ← (hmsg : msg.wire = frame msg.bodyBytes)]
    rw [hqueue]
    have hreads := h.client_reads.concat hlen
    rw [List.append_assoc, ← hdrop] at hreads
    exact hreads

/-- What is in order when nothing is delivered to the room and the write queue is unchanged. -/
lemma Path.Back.of_sameQueue (h : s.Back member out back events wout)
    (hmem : member ∈ s'.room.participants) (hnodup : s'.room.participants.Nodup)
    (hwriter : s'.writer = s.writer) (hdelivered : deliveredMsgs o = [])
    (htransmitted : s'.transmitted ≤ (wires s.writer.queue.head?.toList).length)
    (hsent : sentBytes (out ++ o) =
      wires (SingleWriter.written wout) ++ (wires s.writer.queue).take s'.transmitted)
    (hback : back = printedBodies o ++ back')
    (hreads : s'.client.Reads
      (s'.arrivedBack ++ s'.comingBack ++ (wires s.writer.queue).drop s'.transmitted) back') :
    s'.Back member (out ++ o) back' events wout := by
  have hall : deliveredMsgs (out ++ o) = deliveredMsgs out := by
    rw [deliveredMsgs_append, hdelivered, List.append_nil]
  rw [← hwriter] at htransmitted hsent hreads
  refine ⟨?_, ?_, hmem, hnodup, ?_, h.not_failed, ?_, htransmitted, hsent, ?_, hreads⟩
  · rw [hall]
    exact h.isFrame
  · rw [hall]
    exact h.length_le
  · rw [hwriter]
    exact h.writer_inv
  · rw [hall]
    exact h.queued_eq
  · rw [hall, printedBodies_append, h.printed_eq, hback, List.append_assoc]

/-- What is in order when nothing but the client's session and the other participants change. -/
lemma Path.Back.congr (h : s.Back member out back events wout)
    (hmem : member ∈ s'.room.participants) (hnodup : s'.room.participants.Nodup)
    (hwriter : s'.writer = s.writer) (htransmitted : s'.transmitted = s.transmitted)
    (hclient : s'.client = s.client)
    (hback : s'.arrivedBack ++ s'.comingBack = s.arrivedBack ++ s.comingBack) :
    s'.Back member out back events wout := by
  rw [← List.append_nil out]
  refine h.of_sameQueue hmem hnodup hwriter rfl ?_ ?_ rfl ?_
  · rw [htransmitted]
    exact h.transmitted_le
  · rw [htransmitted, List.append_nil]
    exact h.sent_eq
  · rw [htransmitted, hclient, hback]
    exact h.client_reads

/-- The bytes of the front message that leave the session keep the way back in order. -/
lemma Path.Back.transmit (h : s.Back member out back events wout) {msg : ChatMessage}
    {msgs : List ChatMessage} (hqueue : s.writer.queue = msg :: msgs) {n : ℕ}
    (hn : s.transmitted + n ≤ msg.wire.length) :
    Path.Back member
      { s with
        transmitted := s.transmitted + n
        comingBack := s.comingBack ++ (msg.wire.drop s.transmitted).take n }
      (out ++ [.sent ((msg.wire.drop s.transmitted).take n)]) back events wout := by
  have hwires : wires s.writer.queue = msg.wire ++ wires msgs := by
    rw [hqueue]
    rfl
  have hle : s.transmitted ≤ msg.wire.length := by omega
  refine h.of_sameQueue h.member_mem h.nodup rfl rfl ?_ ?_ rfl ?_
  · rw [hqueue]
    simpa [wires] using hn
  · have hsent : sentBytes (out ++ [.sent ((msg.wire.drop s.transmitted).take n)]) =
        sentBytes out ++ (msg.wire.drop s.transmitted).take n := by
      rw [sentBytes_append]
      simp [sentBytes]
    rw [hsent, h.sent_eq, List.append_assoc]
    congr 1
    rw [List.take_add, hwires, List.take_append_of_le_length hle,
      List.drop_append_of_le_length hle, List.take_append_of_le_length]
    rw [List.length_drop]
    omega
  · have hsplit : (msg.wire.drop s.transmitted).take n ++
        (wires s.writer.queue).drop (s.transmitted + n) =
          (wires s.writer.queue).drop s.transmitted := by
      have hlen : n ≤ (msg.wire.drop s.transmitted).length := by
        rw [List.length_drop]
        omega
      rw [← List.drop_drop, hwires, List.drop_append_of_le_length hle,
        List.drop_append_of_le_length hlen, ← List.append_assoc, List.take_append_drop]
    have hreads := h.client_reads
    rw [← hsplit] at hreads
    simp only [List.append_assoc] at hreads ⊢
    exact hreads

/-- The handler of a write that has succeeded, when it was the write of the front message. -/
lemma writeHandler_eq {w : WriteQueue} {msg : ChatMessage} {rest : List ChatMessage}
    (hqueue : w.queue = msg :: rest) (hflight : w.inFlight = [msg]) :
    ChatSession.writeHandler { w with inFlight := w.inFlight.eraseIdx 0 } true =
      (⟨rest, rest.head?.toList, w.undefined⟩, rest.head?.toList.map .started) := by
  cases rest <;>
    simp [ChatSession.writeHandler, SingleWriter.Writer.completed, SingleWriter.Writer.popFront,
      SingleWriter.Writer.start, hqueue, hflight]

/-- The end of a write keeps the way back in order. -/
lemma Path.Back.written (h : s.Back member out back events wout) {msg : ChatMessage}
    {msgs : List ChatMessage} (hflight : s.writer.inFlight = msg :: msgs)
    (hall : s.transmitted = msg.wire.length) :
    ∃ events' wout', Path.Back member
      { s with
        writer := (ChatSession.writeHandler
          { s.writer with inFlight := s.writer.inFlight.eraseIdx 0 } true).1
        transmitted := 0 } out back events' wout' := by
  have hm : s.writer.inFlight[0]? = some msg := by
    rw [hflight]
    rfl
  obtain ⟨-, -, hsingle, rest, hqueue⟩ := h.writer_inv.of_inFlight hm
  have hwires : wires s.writer.queue = msg.wire ++ wires rest := by
    rw [hqueue]
    rfl
  have heq := writeHandler_eq hqueue hsingle
  have hinv := h.writer_inv.complete .roomLeave hm true
  have hcompleted : SingleWriter.Writer.completed Reaction.roomLeave
      { s.writer with inFlight := s.writer.inFlight.eraseIdx 0 } true =
        (⟨rest, rest.head?.toList, s.writer.undefined⟩, rest.head?.toList.map .started) := heq
  rw [hcompleted, if_pos rfl] at hinv
  have hok : SingleWriter.hasFailed (rest.head?.toList.map SingleWriter.Output.started :
      List WriteOutput) = false := by
    cases rest <;> rfl
  have hnone : SingleWriter.written (rest.head?.toList.map SingleWriter.Output.started :
      List WriteOutput) = [] := by
    cases rest <;> rfl
  rw [heq]
  refine ⟨_, _, h.isFrame, h.length_le, h.member_mem, h.nodup, hinv, ?_, ?_, Nat.zero_le _, ?_,
    h.printed_eq, ?_⟩
  · rw [SingleWriter.hasFailed_append, SingleWriter.hasFailed_append, h.not_failed, hok]
    rfl
  · rw [SingleWriter.enqueued_append, h.queued_eq]
    exact List.append_nil _
  · rw [h.sent_eq, SingleWriter.written_append, SingleWriter.written_append, hnone, hwires, hall,
      List.take_left, List.take_zero, List.append_nil]
    simp [wires, SingleWriter.written]
  · have hdrop : (wires s.writer.queue).drop s.transmitted = wires rest := by
      rw [hwires, hall, List.drop_left]
    have hreads := h.client_reads
    rw [hdrop] at hreads
    rw [List.drop_zero]
    exact hreads

/-- What the member's client reads is printed, and keeps the way back in order. -/
lemma Path.Back.readBack (h : s.Back member out back events wout) {n : ℕ}
    (hn : n = s.client.wanted) (hle : n ≤ s.arrivedBack.length) :
    ∃ (bodies : List Bytes) (back' : List Bytes) (r' : ReadLoop),
      Machine.runTotal Path.clientOutput
          { s with
            client := (ChatClient.readHandler s.client true (s.arrivedBack.take n)).1
            arrivedBack := s.arrivedBack.drop n }
          (ChatClient.readHandler s.client true (s.arrivedBack.take n)).2 =
        ({ s with client := r', arrivedBack := s.arrivedBack.drop n },
          bodies.map PathOutput.printed) ∧
      Path.Back member { s with client := r', arrivedBack := s.arrivedBack.drop n }
        (out ++ bodies.map PathOutput.printed) back' events wout ∧
      2 * bodies.length + r'.phase.begun = s.client.phase.begun + 1 := by
  have hsplit : s.arrivedBack.take n ++ (s.arrivedBack.drop n ++ s.comingBack ++
      (wires s.writer.queue).drop s.transmitted) =
        s.arrivedBack ++ s.comingBack ++ (wires s.writer.queue).drop s.transmitted := by
    rw [← List.append_assoc, ← List.append_assoc, List.take_append_drop]
  have hreads := h.client_reads
  rw [← hsplit] at hreads
  have hdata : (s.arrivedBack.take n).length = s.client.wanted := by
    rw [List.length_take, min_eq_left hle, hn]
  obtain ⟨rest, msgs, hmsgs, hback, -, hnext, hbegun⟩ := hreads.handler .socketClose hdata
  have hprint : ∀ (msgs : List ChatMessage) (t : Path),
      Machine.runTotal Path.clientOutput t (msgs.map ReadOutput.received) =
        (t, (msgs.map ChatMessage.bodyBytes).map PathOutput.printed) := by
    intro msgs
    induction msgs with
    | nil => intro t; rfl
    | cons msg msgs ih =>
      intro t
      rw [List.map_cons, Machine.runTotal, Path.clientOutput, ih]
      rfl
  obtain ⟨hdelivered, hsent, hprinted⟩ := record_printed (msgs.map ChatMessage.bodyBytes)
  refine ⟨msgs.map ChatMessage.bodyBytes, rest,
    (ChatClient.readHandler s.client true (s.arrivedBack.take n)).1, ?_, ?_, ?_⟩
  · unfold ChatClient.readHandler
    rw [hmsgs]
    exact hprint msgs _
  · refine h.of_sameQueue h.member_mem h.nodup rfl hdelivered h.transmitted_le ?_ ?_ hnext
    · rw [sentBytes_append, hsent, List.append_nil]
      exact h.sent_eq
    · rw [hprinted]
      exact hback
  · rw [List.length_map]
    exact hbegun

/-! ## The way to the room -/

/-- Messages that the client's session passes to the room one after the other. -/
def Path.deliverAll (member : ℕ) (s : Path) (msgs : List ChatMessage) : Path :=
  msgs.foldl (Path.deliver member) s

/-- What delivering messages to the room leaves as it is. -/
lemma deliverAll_unchanged (member : ℕ) (s : Path) (msgs : List ChatMessage) :
    (s.deliverAll member msgs).coming = s.coming ∧
      (s.deliverAll member msgs).arrived = s.arrived ∧
      (s.deliverAll member msgs).session = s.session ∧
      (s.deliverAll member msgs).comingBack = s.comingBack ∧
      (s.deliverAll member msgs).client = s.client := by
  induction msgs generalizing s with
  | nil => exact ⟨rfl, rfl, rfl, rfl, rfl⟩
  | cons msg msgs ih => exact ih (s.deliver member msg)

/-- The outputs of a session that has read messages. -/
lemma runTotal_sessionOutput (member sender : ℕ) (s : Path) (msgs : List ChatMessage) :
    Machine.runTotal (Path.sessionOutput member sender) s (msgs.map ReadOutput.received) =
      (s.deliverAll member msgs, msgs.map PathOutput.roomDeliver) := by
  induction msgs generalizing s with
  | nil => rfl
  | cons msg msgs ih =>
    rw [List.map_cons, Machine.runTotal, Path.sessionOutput, ih]
    rfl

/-- Delivering frames to the room keeps the way back in order, and the member's session queues
each of them. -/
lemma Path.Back.deliverAll {msgs : List ChatMessage} (h : s.Back member out back events wout)
    (hmsgs : ∀ msg ∈ msgs, msg.IsFrame ∧ msg.bodyBytes.length ≤ maxBodyLength) :
    (∃ back' events' wout', (s.deliverAll member msgs).Back member
      (out ++ msgs.map PathOutput.roomDeliver) back' events' wout') ∧
    (s.deliverAll member msgs).writer.queue = s.writer.queue ++ msgs := by
  induction msgs generalizing s out back events wout with
  | nil =>
    refine ⟨⟨back, events, wout, ?_⟩, (List.append_nil _).symm⟩
    rw [List.map_nil, List.append_nil]
    exact h
  | cons msg msgs ih =>
    obtain ⟨hframe, hlen⟩ := hmsgs msg List.mem_cons_self
    have hqueue : (s.deliver member msg).writer.queue = s.writer.queue ++ [msg] := by
      rw [h.writer_deliver, queue_enqueue]
    obtain ⟨events', wout', h'⟩ := h.deliver hframe hlen
    obtain ⟨hback, hall⟩ := ih h' fun m hm => hmsgs m (List.mem_cons_of_mem _ hm)
    rw [hqueue, List.append_assoc] at hall
    rw [List.append_assoc] at hback
    exact ⟨hback, hall⟩

/-! ## The whole path -/

/-- The invariant of the path, for the bodies that the client has written. -/
structure Path.Inv (member : ℕ) (bodies : List Bytes) (s : Path) (out : List PathOutput) :
    Prop where
  /-- The session has delivered the first bodies and will read the others. -/
  forward : ∃ rest, bodies = (deliveredMsgs out).map ChatMessage.bodyBytes ++ rest ∧
    s.session.Reads (s.arrived ++ s.coming) rest
  /-- The way back is in order. -/
  back : ∃ back events wout, s.Back member out back events wout

/-- Whether an event is part of the work on the client's messages. -/
def PathEvent.isProgress : PathEvent → Bool
  | .otherJoins _ => false
  | .otherLeaves _ => false
  | _ => true

/-- The work in hand: bytes to arrive and messages to write. -/
def Path.debt (s : Path) : ℕ :=
  s.coming.length + s.writer.queue.length + s.comingBack.length

/-- The work that has been done. -/
def Path.done (s : Path) (out : List PathOutput) : ℕ :=
  3 * (deliveredMsgs out).length + s.session.phase.begun + 2 * (sentBytes out).length +
    2 * (printedBodies out).length + s.client.phase.begun

/-- What an event has to do: it keeps the invariant, and if it is progress, it does more than it
adds to the work in hand. -/
structure Path.Kept (member : ℕ) (bodies : List Bytes) (s s' : Path) (out o : List PathOutput)
    (e : PathEvent) : Prop where
  /-- The invariant is kept. -/
  inv : s'.Inv member bodies (out ++ o)
  /-- Progress is work. -/
  progress : s'.debt + s.done out + (if e.isProgress then 1 else 0) ≤
    s.debt + s'.done (out ++ o)

variable {bodies : List Bytes}

/-- The session reads: what it has read is delivered to the room. -/
lemma Path.Inv.read (h : s.Inv member bodies out) {n : ℕ} (hn : n = s.session.wanted)
    (hle : n ≤ s.arrived.length) :
    ∃ msgs : List ChatMessage,
      (ChatSession.readHandler s.session true (s.arrived.take n)).2 =
        msgs.map ReadOutput.received ∧
      Path.Kept member bodies s
        (Path.deliverAll member
          { s with
            session := (ChatSession.readHandler s.session true (s.arrived.take n)).1
            arrived := s.arrived.drop n } msgs) out (msgs.map PathOutput.roomDeliver) .read := by
  obtain ⟨rest, hbodies, hreads⟩ := h.forward
  have hdata : (s.arrived.take n).length = s.session.wanted := by
    rw [List.length_take, min_eq_left hle, hn]
  have hsplit : s.arrived.take n ++ (s.arrived.drop n ++ s.coming) = s.arrived ++ s.coming := by
    rw [← List.append_assoc, List.take_append_drop]
  rw [← hsplit] at hreads
  obtain ⟨rest', msgs, hmsgs, hrest, hframes, hnext, hbegun⟩ := hreads.handler .roomLeave hdata
  have hlen : ∀ msg ∈ msgs, msg.bodyBytes.length ≤ maxBodyLength := by
    intro msg hmsg
    apply hreads.length_le _
    rw [hrest]
    exact List.mem_append_left _ (List.mem_map_of_mem hmsg)
  obtain ⟨back, events, wout, hback⟩ := h.back
  have hback' : Path.Back member
      { s with
        session := (ChatSession.readHandler s.session true (s.arrived.take n)).1
        arrived := s.arrived.drop n } out back events wout :=
    hback.congr hback.member_mem hback.nodup rfl rfl rfl rfl
  obtain ⟨hall, hqueue⟩ := hback'.deliverAll fun msg hmsg => ⟨hframes msg hmsg, hlen msg hmsg⟩
  obtain ⟨hcoming, harrived, hsession, hcomingBack, hclient⟩ := deliverAll_unchanged member
    { s with
      session := (ChatSession.readHandler s.session true (s.arrived.take n)).1
      arrived := s.arrived.drop n } msgs
  obtain ⟨hdelivered, hsent, hprinted⟩ := record_roomDeliver msgs
  refine ⟨msgs, hmsgs, ⟨⟨rest', ?_, ?_⟩, hall⟩, ?_⟩
  · rw [hbodies, deliveredMsgs_append, hdelivered, List.map_append, hrest, List.append_assoc]
  · rw [hsession, harrived, hcoming]
    exact hnext
  · unfold ChatSession.readHandler at hsession hcoming hqueue hcomingBack hclient ⊢
    simp only [Path.debt, Path.done, hcoming, hqueue, hcomingBack, hclient, hsession,
      deliveredMsgs_append, hdelivered, sentBytes_append, hsent, printedBodies_append, hprinted,
      List.length_append, List.length_nil, PathEvent.isProgress, if_true]
    omega

/-- Bytes arrive at the server. -/
lemma Path.Inv.arrive (h : s.Inv member bodies out) {n : ℕ} (hpos : 1 ≤ n)
    (hle : n ≤ s.coming.length) :
    Path.Kept member bodies s
      { s with arrived := s.arrived ++ s.coming.take n, coming := s.coming.drop n } out []
      (.arrive n) := by
  obtain ⟨rest, hbodies, hreads⟩ := h.forward
  obtain ⟨back, events, wout, hback⟩ := h.back
  refine ⟨⟨⟨rest, ?_, ?_⟩, back, events, wout, ?_⟩, ?_⟩
  · rw [List.append_nil]
    exact hbodies
  · rw [List.append_assoc, List.take_append_drop]
    exact hreads
  · rw [List.append_nil]
    exact hback.congr hback.member_mem hback.nodup rfl rfl rfl rfl
  · simp only [Path.debt, Path.done, List.append_nil, List.length_drop, PathEvent.isProgress,
      if_true]
    omega

/-- Other participants join and leave. -/
lemma Path.Inv.roomCall (h : s.Inv member bodies out) {room : ChatRoom ℕ ChatMessage}
    (hmember : member ∈ s.room.participants → member ∈ room.participants)
    (hnodup : s.room.participants.Nodup → room.participants.Nodup) {e : PathEvent}
    (he : e.isProgress = false) : Path.Kept member bodies s { s with room := room } out [] e := by
  obtain ⟨back, events, wout, hback⟩ := h.back
  refine ⟨⟨?_, back, events, wout, ?_⟩, ?_⟩
  · rw [List.append_nil]
    exact h.forward
  · rw [List.append_nil]
    exact hback.congr (hmember hback.member_mem) (hnodup hback.nodup) rfl rfl rfl rfl
  · rw [he, List.append_nil]
    exact le_rfl

/-- Bytes of the front message leave the member's session. -/
lemma Path.Inv.transmit (h : s.Inv member bodies out) {msg : ChatMessage}
    {msgs : List ChatMessage} (hflight : s.writer.inFlight = msg :: msgs) {n : ℕ} (hpos : 1 ≤ n)
    (hle : s.transmitted + n ≤ msg.wire.length) :
    Path.Kept member bodies s
      { s with
        transmitted := s.transmitted + n
        comingBack := s.comingBack ++ (msg.wire.drop s.transmitted).take n } out
      [.sent ((msg.wire.drop s.transmitted).take n)] (.transmit n) := by
  obtain ⟨rest, hbodies, hreads⟩ := h.forward
  obtain ⟨back, events, wout, hback⟩ := h.back
  have hm : s.writer.inFlight[0]? = some msg := by
    rw [hflight]
    rfl
  obtain ⟨-, -, -, ms, hqueue⟩ := hback.writer_inv.of_inFlight hm
  have hdelivered : deliveredMsgs [PathOutput.sent ((msg.wire.drop s.transmitted).take n)] = [] :=
    rfl
  have hprinted : printedBodies [PathOutput.sent ((msg.wire.drop s.transmitted).take n)] = [] :=
    rfl
  have hsent : (sentBytes [PathOutput.sent ((msg.wire.drop s.transmitted).take n)]).length = n := by
    have heq : sentBytes [PathOutput.sent ((msg.wire.drop s.transmitted).take n)] =
        (msg.wire.drop s.transmitted).take n := List.append_nil _
    rw [heq, List.length_take, List.length_drop]
    omega
  refine ⟨⟨⟨rest, ?_, hreads⟩, back, events, wout, hback.transmit hqueue hle⟩, ?_⟩
  · rw [deliveredMsgs_append, hdelivered, List.append_nil]
    exact hbodies
  · simp only [Path.debt, Path.done, deliveredMsgs_append, hdelivered, printedBodies_append,
      hprinted, sentBytes_append, List.length_append, hsent, List.length_nil, List.length_take,
      List.length_drop, PathEvent.isProgress, if_true]
    omega

/-- The write of the front message is complete. -/
lemma Path.Inv.written (h : s.Inv member bodies out) {msg : ChatMessage}
    {msgs : List ChatMessage} (hflight : s.writer.inFlight = msg :: msgs)
    (hall : s.transmitted = msg.wire.length) :
    Path.Kept member bodies s
      { s with
        writer := (ChatSession.writeHandler
          { s.writer with inFlight := s.writer.inFlight.eraseIdx 0 } true).1
        transmitted := 0 } out [] .written := by
  obtain ⟨back, events, wout, hback⟩ := h.back
  have hm : s.writer.inFlight[0]? = some msg := by
    rw [hflight]
    rfl
  obtain ⟨-, -, hsingle, ms, hqueue⟩ := hback.writer_inv.of_inFlight hm
  refine ⟨⟨?_, back, ?_⟩, ?_⟩
  · rw [List.append_nil]
    exact h.forward
  · rw [List.append_nil]
    exact hback.written hflight hall
  · rw [writeHandler_eq hqueue hsingle]
    simp only [Path.debt, Path.done, List.append_nil, hqueue, List.length_cons,
      PathEvent.isProgress, if_true]
    omega

/-- Bytes arrive at the member's client. -/
lemma Path.Inv.arriveBack (h : s.Inv member bodies out) {n : ℕ} (hpos : 1 ≤ n)
    (hle : n ≤ s.comingBack.length) :
    Path.Kept member bodies s
      { s with
        arrivedBack := s.arrivedBack ++ s.comingBack.take n
        comingBack := s.comingBack.drop n } out [] (.arriveBack n) := by
  obtain ⟨back, events, wout, hback⟩ := h.back
  refine ⟨⟨?_, back, events, wout, ?_⟩, ?_⟩
  · rw [List.append_nil]
    exact h.forward
  · rw [List.append_nil]
    refine hback.congr hback.member_mem hback.nodup rfl rfl rfl ?_
    rw [List.append_assoc, List.take_append_drop]
  · simp only [Path.debt, Path.done, List.append_nil, List.length_drop, PathEvent.isProgress,
      if_true]
    omega

/-- The member's client reads: what it has read is printed. -/
lemma Path.Inv.readBack (h : s.Inv member bodies out) {n : ℕ} (hn : n = s.client.wanted)
    (hle : n ≤ s.arrivedBack.length)
    (hrun : Machine.runTotal Path.clientOutput
      { s with
        client := (ChatClient.readHandler s.client true (s.arrivedBack.take n)).1
        arrivedBack := s.arrivedBack.drop n }
      (ChatClient.readHandler s.client true (s.arrivedBack.take n)).2 = (s', o)) :
    Path.Kept member bodies s s' out o .readBack := by
  obtain ⟨rest, hbodies, hreads⟩ := h.forward
  obtain ⟨back, events, wout, hback⟩ := h.back
  obtain ⟨printed, back', r', heq, hback', hbegun⟩ := hback.readBack hn hle
  rw [hrun] at heq
  obtain ⟨rfl, rfl⟩ := Prod.mk.inj heq
  obtain ⟨hdelivered, hsent, hprinted⟩ := record_printed printed
  refine ⟨⟨⟨rest, ?_, hreads⟩, back', events, wout, hback'⟩, ?_⟩
  · rw [deliveredMsgs_append, hdelivered, List.append_nil]
    exact hbodies
  · simp only [Path.debt, Path.done, deliveredMsgs_append, hdelivered, sentBytes_append, hsent,
      printedBodies_append, hprinted, List.length_append, List.length_nil, PathEvent.isProgress,
      if_true]
    omega

/-- Every event keeps the invariant, and progress is work. -/
lemma Path.Inv.step {sender : ℕ} {e : PathEvent} (h : s.Inv member bodies out)
    (hstep : s.step member sender e = some (s', o)) : Path.Kept member bodies s s' out o e := by
  cases e with
  | arrive n =>
    obtain ⟨⟨hpos, hle⟩, heq⟩ := Option.ite_none_right_eq_some.mp hstep
    obtain ⟨rfl, rfl⟩ := Prod.mk.inj (Option.some.inj heq)
    exact h.arrive hpos hle
  | read =>
    obtain ⟨⟨-, hle⟩, heq⟩ := Option.ite_none_right_eq_some.mp hstep
    obtain ⟨msgs, hmsgs, hkept⟩ := h.read rfl hle
    rw [hmsgs, runTotal_sessionOutput] at heq
    obtain ⟨rfl, rfl⟩ := Prod.mk.inj (Option.some.inj heq)
    exact hkept
  | otherJoins p =>
    obtain ⟨-, heq⟩ := Option.ite_none_right_eq_some.mp hstep
    obtain ⟨rfl, rfl⟩ := Prod.mk.inj (Option.some.inj heq)
    exact h.roomCall List.mem_insert_of_mem List.Nodup.insert rfl
  | otherLeaves p =>
    obtain ⟨hne, heq⟩ := Option.ite_none_right_eq_some.mp hstep
    obtain ⟨rfl, rfl⟩ := Prod.mk.inj (Option.some.inj heq)
    refine h.roomCall (fun hmember => List.mem_filter.mpr ⟨hmember, ?_⟩) (List.Nodup.filter _) rfl
    simpa using Ne.symm hne
  | transmit n =>
    simp only [Path.step] at hstep
    split at hstep
    · rename_i msg msgs hflight
      obtain ⟨⟨hpos, hle⟩, heq⟩ := Option.ite_none_right_eq_some.mp hstep
      obtain ⟨rfl, rfl⟩ := Prod.mk.inj (Option.some.inj heq)
      exact h.transmit hflight hpos hle
    · cases hstep
  | written =>
    simp only [Path.step] at hstep
    split at hstep
    · rename_i msg msgs hflight
      obtain ⟨hall, heq⟩ := Option.ite_none_right_eq_some.mp hstep
      obtain ⟨rfl, rfl⟩ := Prod.mk.inj (Option.some.inj heq)
      exact h.written hflight hall
    · cases hstep
  | arriveBack n =>
    obtain ⟨⟨hpos, hle⟩, heq⟩ := Option.ite_none_right_eq_some.mp hstep
    obtain ⟨rfl, rfl⟩ := Prod.mk.inj (Option.some.inj heq)
    exact h.arriveBack hpos hle
  | readBack =>
    obtain ⟨⟨-, hle⟩, heq⟩ := Option.ite_none_right_eq_some.mp hstep
    exact h.readBack rfl hle (Option.some.inj heq)

end Chat

end AsioStudy
