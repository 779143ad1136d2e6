import AsioStudy.Chat.ReadLoop
import AsioStudy.Chat.Room

/-!
# The chat server

A `chat_room` with the `chat_session`s that share it.  A session has a read side and a write side,
which run at the same time and know nothing of each other; what connects them is the room, which
their handlers call.  An event is a new connection or the completion of a read or of a write of one
session, with the handler that follows it.

An error of either side makes the session leave the room, but does not stop the other side.
`only_members_speak_iff` says exactly in which runs a session that has left the room delivers a
message to it all the same.
-/

namespace AsioStudy

namespace Chat

/-! ## Sessions and their room -/

/-- A `chat_session`: its two sides. -/
structure SessionObject where
  /-- The reads with `read_msg_`. -/
  readLoop : ReadLoop
  /-- The writes with `write_msgs_`. -/
  writeMsgs : WriteQueue
  deriving DecidableEq, Repr

/-- A `chat_server`: its room and the sessions that were started, which are named by their
position. -/
structure ChatServer where
  /-- The member `room_`. -/
  room : ChatRoom ℕ ChatMessage
  /-- The sessions. -/
  sessions : List SessionObject
  deriving DecidableEq, Repr

/-- What happens on the server: a session calls a member of the room, or its write side does
something. -/
inductive ServerOutput where
  | called (i : ℕ) (c : Call ℕ ChatMessage)
  | wrote (i : ℕ) (o : WriteOutput)
  deriving DecidableEq, Repr

/-- The server before the first connection. -/
def ChatServer.new : ChatServer := ⟨ChatRoom.new, []⟩

/-- The calls of `participant->deliver` that the room makes. -/
def deliverTo (sessions : List SessionObject) :
    List (ℕ × ChatMessage) → List SessionObject × List ServerOutput
  | [] => (sessions, [])
  | (i, msg) :: calls =>
    match sessions[i]? with
    | none => deliverTo sessions calls
    | some o =>
      let r := ChatSession.deliver o.writeMsgs msg
      let rest := deliverTo (sessions.set i { o with writeMsgs := r.1 }) calls
      (rest.1, r.2.map (ServerOutput.wrote i) ++ rest.2)

/-- The session `i` calls a member of the room. -/
def ChatServer.callRoom (i : ℕ) (s : ChatServer) (c : Call ℕ ChatMessage) :
    ChatServer × List ServerOutput :=
  let r := s.room.call c
  let d := deliverTo s.sessions r.2
  (⟨r.1, d.1⟩, .called i c :: d.2)

/-- What a handler of the read side calls: `room_.deliver(read_msg_)` or `room_.leave(self)`. -/
def callOfRead (i : ℕ) : ReadOutput → Call ℕ ChatMessage
  | .received msg => .deliver msg
  | .reacted _ => .leave i

/-- What a handler of the write side calls: `room_.leave(self)` on an error. -/
def callsOfWrite (i : ℕ) (out : List WriteOutput) : List (Call ℕ ChatMessage) :=
  out.filterMap fun o =>
    match o with
    | .reacted _ => some (.leave i)
    | _ => none

/-- One event of the server. -/
inductive ServerEvent where
  /-- A connection is accepted and its session starts; `content` is in its `read_msg_`. -/
  | accept (content : Bytes)
  /-- The outstanding read of the session `i` completes and its handler runs. -/
  | read (i : ℕ) (ok : Bool) (data : Bytes)
  /-- The `k`-th outstanding write of the session `i` completes and its handler runs. -/
  | write (i k : ℕ) (ok : Bool)
  deriving DecidableEq, Repr

/-- The effect of an event, or `none` if the event is impossible. -/
def ChatServer.step (s : ChatServer) : ServerEvent → Option (ChatServer × List ServerOutput)
  | .accept content =>
    let i := s.sessions.length
    let s := { s with
      sessions := s.sessions ++
        [(⟨ReadLoop.new content, SingleWriter.Writer.new⟩ : SessionObject)] }
    some (s.callRoom i (.join i))
  | .read i ok data => do
    let o ← s.sessions[i]?
    if o.readLoop.CanComplete ok data then
      let r := ChatSession.readHandler o.readLoop ok data
      let s := { s with sessions := s.sessions.set i { o with readLoop := r.1 } }
      some (Machine.runTotal (ChatServer.callRoom i) s (r.2.map (callOfRead i)))
    else none
  | .write i k ok => do
    let o ← s.sessions[i]?
    let r ← ChatSession.writeStep o.writeMsgs (.complete k ok)
    let s := { s with sessions := s.sessions.set i { o with writeMsgs := r.1 } }
    let t := Machine.runTotal (ChatServer.callRoom i) s (callsOfWrite i r.2)
    some (t.1, r.2.map (ServerOutput.wrote i) ++ t.2)

/-! ## What an event does to the reads and to the room -/

/-- The read sides of the sessions. -/
def ChatServer.readLoops (s : ChatServer) : List ReadLoop := s.sessions.map SessionObject.readLoop

/-- What each session is reading. -/
def ChatServer.phases (s : ChatServer) : List ReadPhase := s.sessions.map fun o => o.readLoop.phase

/-- The calls of members of the room in a stretch of a run. -/
def roomCalls (out : List ServerOutput) : List (ℕ × Call ℕ ChatMessage) :=
  out.filterMap fun o =>
    match o with
    | .called i c => some (i, c)
    | _ => none

/-- The calls of two stretches of a run. -/
@[simp] lemma roomCalls_append (out out' : List ServerOutput) :
    roomCalls (out ++ out') = roomCalls out ++ roomCalls out' := List.filterMap_append

/-- The write sides do not call the room by themselves. -/
@[simp] lemma roomCalls_map_wrote (i : ℕ) (out : List WriteOutput) :
    roomCalls (out.map (ServerOutput.wrote i)) = [] := by
  rw [roomCalls, List.filterMap_map, List.filterMap_eq_nil_iff]
  intro o _
  rfl

/-- The phases are those of the read sides. -/
lemma ChatServer.phases_eq (s : ChatServer) : s.phases = s.readLoops.map ReadLoop.phase := by
  rw [ChatServer.phases, ChatServer.readLoops, List.map_map]
  rfl

/-- A list in which an element is replaced by itself. -/
lemma set_of_getElem? {α : Type*} {l : List α} {i : ℕ} {a : α} (h : l[i]? = some a) :
    l.set i a = l := by
  obtain ⟨hi, rfl⟩ := List.getElem?_eq_some_iff.mp h
  exact List.set_getElem_self hi

/-- A change of a write side changes no read side. -/
lemma readLoops_set_writeMsgs {sessions : List SessionObject} {i : ℕ} {o : SessionObject}
    (ho : sessions[i]? = some o) (q : WriteQueue) :
    (sessions.set i { o with writeMsgs := q }).map SessionObject.readLoop =
      sessions.map SessionObject.readLoop := by
  have hloop : (sessions.map SessionObject.readLoop)[i]? = some o.readLoop := by
    rw [List.getElem?_map, ho]
    rfl
  rw [List.map_set]
  exact set_of_getElem? hloop

/-- Deliveries to participants change no read side and call no member of the room. -/
lemma deliverTo_spec (sessions : List SessionObject) (calls : List (ℕ × ChatMessage)) :
    (deliverTo sessions calls).1.map SessionObject.readLoop =
        sessions.map SessionObject.readLoop ∧
      roomCalls (deliverTo sessions calls).2 = [] := by
  induction calls generalizing sessions with
  | nil => exact ⟨rfl, rfl⟩
  | cons call calls ih =>
    obtain ⟨i, msg⟩ := call
    rw [deliverTo]
    cases ho : sessions[i]? with
    | none => exact ih sessions
    | some o =>
      obtain ⟨hloops, hcalls⟩ :=
        ih (sessions.set i { o with writeMsgs := (ChatSession.deliver o.writeMsgs msg).1 })
      refine ⟨hloops.trans (readLoops_set_writeMsgs ho _), ?_⟩
      rw [roomCalls_append, roomCalls_map_wrote, hcalls]
      rfl

/-- A call of a member of the room changes the participants and no read side. -/
lemma callRoom_spec (i : ℕ) (s : ChatServer) (c : Call ℕ ChatMessage) :
    (s.callRoom i c).1.readLoops = s.readLoops ∧ (s.callRoom i c).1.room = (s.room.call c).1 ∧
      roomCalls (s.callRoom i c).2 = [(i, c)] := by
  obtain ⟨hloops, hcalls⟩ := deliverTo_spec s.sessions (s.room.call c).2
  refine ⟨hloops, rfl, ?_⟩
  have hcons : roomCalls (s.callRoom i c).2 =
      (i, c) :: roomCalls (deliverTo s.sessions (s.room.call c).2).2 := rfl
  rw [hcons, hcalls]

/-- So do several calls. -/
lemma runTotal_callRoom (i : ℕ) (s : ChatServer) (calls : List (Call ℕ ChatMessage)) :
    (Machine.runTotal (ChatServer.callRoom i) s calls).1.readLoops = s.readLoops ∧
      (Machine.runTotal (ChatServer.callRoom i) s calls).1.room = (s.room.run calls).1 ∧
      roomCalls (Machine.runTotal (ChatServer.callRoom i) s calls).2 = calls.map (i, ·) := by
  induction calls generalizing s with
  | nil => exact ⟨rfl, rfl, rfl⟩
  | cons c calls ih =>
    obtain ⟨hloops, hroom, hcalls⟩ := callRoom_spec i s c
    obtain ⟨hloops', hroom', hcalls'⟩ := ih (s.callRoom i c).1
    rw [Machine.runTotal]
    refine ⟨hloops'.trans hloops, ?_, ?_⟩
    · rw [hroom', hroom, run_cons]
    · rw [roomCalls_append, hcalls, hcalls']
      rfl

/-- What the handler of a read does: it goes on to the body, or it passes a message on and goes on
to the next header, or it stops with a reaction. -/
lemma readHandler_cases {r : ReadLoop} (h : r.phase ≠ .stopped) (ok : Bool) (data : Bytes) :
    (r.phase = .readHeader ∧ (ChatSession.readHandler r ok data).1.phase = .readBody ∧
        (ChatSession.readHandler r ok data).2 = []) ∨
      (r.phase = .readBody ∧ ok = true ∧
        (ChatSession.readHandler r ok data).1.phase = .readHeader ∧
        ∃ msg, (ChatSession.readHandler r ok data).2 = [.received msg]) ∨
      ((r.phase = .readBody → ok = false) ∧
        (ChatSession.readHandler r ok data).1.phase = .stopped ∧
        (ChatSession.readHandler r ok data).2 = [.reacted .roomLeave]) := by
  unfold ChatSession.readHandler ReadLoop.handler
  cases hphase : r.phase with
  | readHeader =>
    cases ok with
    | true =>
      cases hdecode : (r.readMsg.copyHeader data).decodeHeader.1 with
      | true => simp [ReadLoop.headerHandler, hdecode]
      | false => simp [ReadLoop.headerHandler, hdecode]
    | false => simp [ReadLoop.headerHandler]
  | readBody => cases ok <;> simp [ReadLoop.bodyHandler]
  | stopped => exact absurd hphase h

/-- The handler of a write calls the room exactly if the write has failed. -/
lemma callsOfWrite_writeStep {q q' : WriteQueue} {k : ℕ} {ok : Bool} {out : List WriteOutput}
    (h : ChatSession.writeStep q (.complete k ok) = some (q', out)) (i : ℕ) :
    callsOfWrite i out = if ok then [] else [.leave i] := by
  rw [ChatSession.writeStep_eq] at h
  unfold SingleWriter.step at h
  simp only at h
  split at h
  · cases h
  · cases h
    cases ok with
    | true =>
      simp only [if_true, SingleWriter.Writer.completed]
      split
      · unfold SingleWriter.Writer.start
        split <;> rfl
      · rfl
    | false => rfl

/-- What an event can be and do, as far as the read sides and the room are concerned: a session
calls members of the room, and nothing else changes the room. -/
lemma ChatServer.step_spec {s s' : ChatServer} {e : ServerEvent} {out : List ServerOutput}
    (h : s.step e = some (s', out)) :
    ∃ i calls, s'.room = (s.room.run calls).1 ∧ roomCalls out = calls.map (i, ·) ∧
      ((∃ content, e = .accept content ∧ i = s.readLoops.length ∧
          s'.readLoops = s.readLoops ++ [ReadLoop.new content] ∧ calls = [.join i]) ∨
        (∃ ok data r, e = .read i ok data ∧ s.readLoops[i]? = some r ∧ r.CanComplete ok data ∧
          s'.readLoops = s.readLoops.set i (ChatSession.readHandler r ok data).1 ∧
          calls = (ChatSession.readHandler r ok data).2.map (callOfRead i)) ∨
        (∃ k ok, e = .write i k ok ∧ i < s.readLoops.length ∧ s'.readLoops = s.readLoops ∧
          calls = if ok then [] else [.leave i])) := by
  have hlen : s.readLoops.length = s.sessions.length := List.length_map _
  cases e with
  | accept content =>
    have heq := Option.some.inj h
    obtain rfl := congrArg Prod.fst heq
    obtain rfl := congrArg Prod.snd heq
    obtain ⟨hloops, hroom, hcalls⟩ := callRoom_spec s.sessions.length
      { s with sessions := s.sessions ++
        [(⟨ReadLoop.new content, SingleWriter.Writer.new⟩ : SessionObject)] }
      (.join s.sessions.length)
    refine ⟨_, [.join s.sessions.length], hroom, hcalls, Or.inl ⟨content, rfl, hlen.symm, ?_, rfl⟩⟩
    exact hloops.trans List.map_append
  | read i ok data =>
    simp only [ChatServer.step, Option.bind_eq_bind, Option.bind_eq_some_iff] at h
    obtain ⟨o, ho, h⟩ := h
    obtain ⟨hcomplete, h⟩ := Option.ite_none_right_eq_some.mp h
    have heq := Option.some.inj h
    obtain rfl := congrArg Prod.fst heq
    obtain rfl := congrArg Prod.snd heq
    obtain ⟨hloops, hroom, hcalls⟩ := runTotal_callRoom i
      { s with sessions := s.sessions.set i
                { o with readLoop := (ChatSession.readHandler o.readLoop ok data).1 } }
      ((ChatSession.readHandler o.readLoop ok data).2.map (callOfRead i))
    refine ⟨i, _, hroom, hcalls,
      Or.inr (Or.inl ⟨ok, data, o.readLoop, rfl, ?_, hcomplete, ?_, rfl⟩)⟩
    · rw [ChatServer.readLoops, List.getElem?_map, ho]
      rfl
    · exact hloops.trans List.map_set
  | write i k ok =>
    simp only [ChatServer.step, Option.bind_eq_bind, Option.bind_eq_some_iff] at h
    obtain ⟨o, ho, ⟨q, wout⟩, hwrite, h⟩ := h
    obtain ⟨hloops, hroom, hcalls⟩ := runTotal_callRoom i
      { s with sessions := s.sessions.set i { o with writeMsgs := q } } (callsOfWrite i wout)
    have heq := Option.some.inj h
    obtain rfl := congrArg Prod.fst heq
    obtain rfl := congrArg Prod.snd heq
    refine ⟨i, callsOfWrite i wout, hroom, ?_, Or.inr (Or.inr ⟨k, ok, rfl, ?_,
      hloops.trans (readLoops_set_writeMsgs ho q), callsOfWrite_writeStep hwrite i⟩)⟩
    · rw [roomCalls_append, roomCalls_map_wrote, List.nil_append]
      exact hcalls
    · rw [hlen]
      exact (List.getElem?_eq_some_iff.mp ho).1

/-- The cases of an event by the phases of the sessions. -/
lemma ChatServer.step_cases {s s' : ChatServer} {e : ServerEvent} {out : List ServerOutput}
    (h : s.step e = some (s', out)) :
    (∃ content, e = .accept content ∧ s'.phases = s.phases ++ [.readHeader] ∧
        s'.room = (s.room.join s.phases.length).1 ∧
        roomCalls out = [(s.phases.length, .join s.phases.length)]) ∨
      (∃ i ok data, e = .read i ok data ∧ s.phases[i]? = some .readHeader ∧
        s'.phases = s.phases.set i .readBody ∧ s'.room = s.room ∧ roomCalls out = []) ∨
      (∃ i data msg, e = .read i true data ∧ s.phases[i]? = some .readBody ∧
        s'.phases = s.phases.set i .readHeader ∧ s'.room = (s.room.deliver msg).1 ∧
        roomCalls out = [(i, .deliver msg)]) ∨
      (∃ i ok data p, e = .read i ok data ∧ s.phases[i]? = some p ∧ (p = .readBody → ok = false) ∧
        s'.phases = s.phases.set i .stopped ∧ s'.room = (s.room.leave i).1 ∧
        roomCalls out = [(i, .leave i)]) ∨
      (∃ i k ok, e = .write i k ok ∧ i < s.phases.length ∧ s'.phases = s.phases ∧
        s'.room = (if ok then s.room else (s.room.leave i).1) ∧
        roomCalls out = if ok then [] else [(i, .leave i)]) := by
  have hlen : s.phases.length = s.readLoops.length := by
    rw [s.phases_eq, List.length_map]
  obtain ⟨i, calls, hroom, hcalls, ⟨content, rfl, rfl, hloops, rfl⟩ |
    ⟨ok, data, r, rfl, hr, hcomplete, hloops, rfl⟩ | ⟨k, ok, rfl, hi, hloops, rfl⟩⟩ :=
    ChatServer.step_spec h
  · refine Or.inl ⟨content, rfl, ?_, ?_, ?_⟩
    · rw [s'.phases_eq, hloops, List.map_append, ← s.phases_eq]
      rfl
    · rw [hlen]
      exact hroom
    · rw [hlen]
      exact hcalls
  · have hphase : s.phases[i]? = some r.phase := by
      rw [s.phases_eq, List.getElem?_map, hr]
      rfl
    have hphases : s'.phases = s.phases.set i (ChatSession.readHandler r ok data).1.phase := by
      rw [s'.phases_eq, hloops, List.map_set, ← s.phases_eq]
    rcases readHandler_cases hcomplete.1 ok data with
      ⟨hp, hnext, hout⟩ | ⟨hp, rfl, hnext, msg, hout⟩ | ⟨hfail, hnext, hout⟩
    · rw [hout] at hroom hcalls
      rw [hp] at hphase
      rw [hnext] at hphases
      exact Or.inr (Or.inl ⟨i, ok, data, rfl, hphase, hphases, hroom, hcalls⟩)
    · rw [hout] at hroom hcalls
      rw [hp] at hphase
      rw [hnext] at hphases
      exact Or.inr (Or.inr (Or.inl ⟨i, data, msg, rfl, hphase, hphases, hroom, hcalls⟩))
    · rw [hout] at hroom hcalls
      rw [hnext] at hphases
      exact Or.inr (Or.inr (Or.inr (Or.inl
        ⟨i, ok, data, r.phase, rfl, hphase, hfail, hphases, hroom, hcalls⟩)))
  · refine Or.inr (Or.inr (Or.inr (Or.inr ⟨i, k, ok, rfl, ?_, ?_, ?_, ?_⟩)))
    · rw [hlen]
      exact hi
    · rw [s'.phases_eq, hloops, ← s.phases_eq]
    · cases ok with
      | true => exact hroom
      | false => exact hroom
    · cases ok with
      | true => exact hcalls
      | false => exact hcalls

/-! ## Who is in the room -/

/-- The session `i` has a read outstanding. -/
def ChatServer.Reading (s : ChatServer) (i : ℕ) : Prop :=
  ∃ p, s.phases[i]? = some p ∧ p ≠ .stopped

/-- The invariant of the server, after the given events and what they have led to: a session is in
the room as long as it reads and none of its writes has failed, and it has called `leave` exactly if
it is not in the room any more. -/
structure ChatServer.Inv (s : ChatServer) (events : List ServerEvent) (out : List ServerOutput) :
    Prop where
  /-- The members of the room. -/
  member_iff : ∀ i, i ∈ s.room.participants ↔
    s.Reading i ∧ ∀ k, .write i k false ∉ events
  /-- Who has left. -/
  left_iff : ∀ i, (i, .leave i) ∈ roomCalls out ↔
    i < s.phases.length ∧ i ∉ s.room.participants
  /-- Only sessions that were started have written. -/
  wrote_lt : ∀ i k ok, .write i k ok ∈ events → i < s.phases.length

/-- The invariant holds initially. -/
lemma serverInv_new : ChatServer.new.Inv [] [] where
  member_iff := by simp [ChatServer.new, ChatRoom.new, ChatServer.Reading, ChatServer.phases]
  left_iff := by simp [ChatServer.new, ChatServer.phases, roomCalls]
  wrote_lt := by simp

/-- A session that reads on reads as before, and nothing changes for the others. -/
lemma reading_set_iff {s s' : ChatServer} {i : ℕ} {p p' : ReadPhase} (hp : s.phases[i]? = some p)
    (h : s'.phases = s.phases.set i p') (hpp' : p ≠ .stopped ↔ p' ≠ .stopped) (j : ℕ) :
    s'.Reading j ↔ s.Reading j := by
  unfold ChatServer.Reading
  rw [h]
  by_cases hij : i = j
  · subst hij
    have hlt := (List.getElem?_eq_some_iff.mp hp).1
    rw [List.getElem?_set_self hlt, hp]
    simpa using hpp'.symm
  · rw [List.getElem?_set_ne hij]

/-- A session that stops reads no more, and nothing changes for the others. -/
lemma reading_set_stopped_iff {s s' : ChatServer} {i : ℕ}
    (h : s'.phases = s.phases.set i .stopped) (j : ℕ) :
    s'.Reading j ↔ s.Reading j ∧ j ≠ i := by
  unfold ChatServer.Reading
  rw [h]
  by_cases hij : i = j
  · subst hij
    rw [List.getElem?_set_self']
    cases s.phases[i]? <;> simp
  · rw [List.getElem?_set_ne hij]
    simp [Ne.symm hij]

/-- Only started sessions read. -/
lemma ChatServer.Reading.lt {s : ChatServer} {i : ℕ} (h : s.Reading i) : i < s.phases.length := by
  obtain ⟨p, hp, -⟩ := h
  exact (List.getElem?_eq_some_iff.mp hp).1

/-- An event after which nobody has left and nobody has come keeps the invariant. -/
lemma ChatServer.Inv.keep {s s' : ChatServer} {events : List ServerEvent} {e : ServerEvent}
    {out o : List ServerOutput} (h : s.Inv events out)
    (hreading : ∀ j, s'.Reading j ↔ s.Reading j) (hlen : s'.phases.length = s.phases.length)
    (hroom : s'.room.participants = s.room.participants)
    (hwrite : ∀ j k, e ≠ .write j k false) (hlt : ∀ j k ok, e = .write j k ok → j < s.phases.length)
    (hleave : ∀ j, (j, Call.leave j) ∉ roomCalls o) : s'.Inv (events ++ [e]) (out ++ o) where
  member_iff := by
    intro j
    rw [hroom, h.member_iff, hreading]
    simp [(hwrite j _).symm]
  left_iff := by
    intro j
    rw [roomCalls_append, List.mem_append, or_iff_left (hleave j), h.left_iff, hroom, hlen]
  wrote_lt := by
    intro j k ok hmem
    rw [hlen]
    rcases List.mem_append.mp hmem with hmem | hmem
    · exact h.wrote_lt j k ok hmem
    · exact hlt j k ok (List.mem_singleton.mp hmem).symm

/-- The start of a session keeps the invariant. -/
lemma ChatServer.Inv.join {s s' : ChatServer} {events : List ServerEvent} {e : ServerEvent}
    {out o : List ServerOutput} (h : s.Inv events out)
    (hphases : s'.phases = s.phases ++ [.readHeader])
    (hroom : s'.room = (s.room.join s.phases.length).1) (hwrite : ∀ j k ok, e ≠ .write j k ok)
    (hleave : ∀ j, (j, Call.leave j) ∉ roomCalls o) : s'.Inv (events ++ [e]) (out ++ o) := by
  have hmember : ∀ j, j ∈ s'.room.participants ↔ j = s.phases.length ∨ j ∈ s.room.participants := by
    intro j
    rw [hroom]
    simp [ChatRoom.join]
  have hlen : s'.phases.length = s.phases.length + 1 := by
    rw [hphases, List.length_append, List.length_singleton]
  have hevent : ∀ j k ok, .write j k ok ∈ events ++ [e] ↔ .write j k ok ∈ events := by
    intro j k ok
    simp [(hwrite j k ok).symm]
  refine ⟨fun j => ?_, fun j => ?_, fun j k ok hmem => ?_⟩
  · rw [hmember, h.member_iff]
    simp only [hevent]
    rcases Nat.lt_trichotomy j s.phases.length with hlt | heq | hgt
    · have hreading : s'.Reading j ↔ s.Reading j := by
        unfold ChatServer.Reading
        rw [hphases, List.getElem?_append_left hlt]
      rw [hreading, or_iff_right hlt.ne]
    · -- the new session reads, and there were no events of it
      refine iff_of_true (Or.inl heq) ⟨⟨.readHeader, ?_, by decide⟩, fun k hmem => ?_⟩
      · rw [hphases, heq, List.getElem?_concat_length]
      · exact (h.wrote_lt j k false hmem).ne heq
    · refine iff_of_false ?_ fun hmem => ?_
      · rintro (heq | hmem)
        · exact hgt.ne' heq
        · exact hgt.not_gt hmem.1.lt
      · have hlt := hmem.1.lt
        rw [hlen] at hlt
        omega
  · rw [roomCalls_append, List.mem_append, or_iff_left (hleave j), h.left_iff, hmember, hlen,
      not_or]
    constructor
    · rintro ⟨hlt, hnot⟩
      exact ⟨by omega, by omega, hnot⟩
    · rintro ⟨hle, hne, hnot⟩
      exact ⟨by omega, hnot⟩
  · rw [hlen]
    exact (h.wrote_lt j k ok ((hevent j k ok).mp hmem)).trans (Nat.lt_succ_self _)

/-- An event after which the session `i` has left keeps the invariant, if this session has stopped
or a write of it has failed. -/
lemma ChatServer.Inv.leave {s s' : ChatServer} {events : List ServerEvent} {e : ServerEvent}
    {out o : List ServerOutput} (h : s.Inv events out) {i : ℕ} (hi : i < s.phases.length)
    (hmember : ∀ j, (s'.Reading j ∧ ∀ k, .write j k false ∉ events ++ [e]) ↔
      (s.Reading j ∧ ∀ k, .write j k false ∉ events) ∧ j ≠ i)
    (hlen : s'.phases.length = s.phases.length) (hroom : s'.room = (s.room.leave i).1)
    (hlt : ∀ j k ok, e = .write j k ok → j < s.phases.length)
    (hcalls : roomCalls o = [(i, .leave i)]) : s'.Inv (events ++ [e]) (out ++ o) where
  member_iff := by
    intro j
    rw [hmember, ← h.member_iff, hroom]
    simp [ChatRoom.leave]
  left_iff := by
    intro j
    rw [roomCalls_append, List.mem_append, h.left_iff, hroom, hlen, hcalls]
    by_cases hij : j = i
    · subst hij
      simp [ChatRoom.leave, hi]
    · simp [ChatRoom.leave, hij]
  wrote_lt := by
    intro j k ok hmem
    rw [hlen]
    rcases List.mem_append.mp hmem with hmem | hmem
    · exact h.wrote_lt j k ok hmem
    · exact hlt j k ok (List.mem_singleton.mp hmem).symm

/-- Every event keeps the invariant. -/
lemma ChatServer.Inv.step {s s' : ChatServer} {events : List ServerEvent} {e : ServerEvent}
    {out o : List ServerOutput} (h : s.Inv events out) (hstep : s.step e = some (s', o)) :
    s'.Inv (events ++ [e]) (out ++ o) := by
  rcases ChatServer.step_cases hstep with
    ⟨content, rfl, hphases, hroom, hcalls⟩ | ⟨i, ok, data, rfl, hp, hphases, hroom, hcalls⟩ |
    ⟨i, data, msg, rfl, hp, hphases, hroom, hcalls⟩ |
    ⟨i, ok, data, p, rfl, hp, -, hphases, hroom, hcalls⟩ |
    ⟨i, k, ok, rfl, hlt, hphases, hroom, hcalls⟩
  · exact h.join hphases hroom (by simp) (by simp [hcalls])
  · exact h.keep (reading_set_iff hp hphases (by decide)) (by rw [hphases, List.length_set])
      (by rw [hroom]) (by simp) (by simp) (by simp [hcalls])
  · exact h.keep (reading_set_iff hp hphases (by decide)) (by rw [hphases, List.length_set])
      (by rw [hroom]; rfl) (by simp) (by simp) (by simp [hcalls])
  · refine h.leave (List.getElem?_eq_some_iff.mp hp).1 ?_ (by rw [hphases, List.length_set]) hroom
      (by simp) hcalls
    intro j
    rw [reading_set_stopped_iff hphases, and_right_comm]
    simp
  · have hreading : ∀ j, s'.Reading j ↔ s.Reading j := by
      intro j
      rw [ChatServer.Reading, hphases]
      rfl
    cases ok with
    | true =>
      exact h.keep hreading (by rw [hphases]) (by rw [hroom]; rfl) (by simp) (by simp; omega)
        (by simp [hcalls])
    | false =>
      refine h.leave hlt ?_ (by rw [hphases]) hroom (by simp; omega) hcalls
      intro j
      rw [hreading]
      by_cases hij : j = i
      · subst hij
        refine iff_of_false (fun hmem => hmem.2 k ?_) (fun hmem => hmem.2 rfl)
        exact List.mem_append_right _ List.mem_cons_self
      · simp [hij]

/-- The invariant holds after every run. -/
theorem serverInv_of_run {events : List ServerEvent} {s : ChatServer} {out : List ServerOutput}
    (hrun : Machine.run ChatServer.step ChatServer.new events = some (s, out)) :
    s.Inv events out :=
  Machine.run_history (I := fun s es out => s.Inv es out) hrun serverInv_new
    fun _ _ _ _ _ _ h hstep => h.step hstep

/-! ## Only members speak -/

/-- In a run over the given events, the session `i` calls `room_.deliver` in the event `e`, which
finds the server in the state `s` after the events `es` and the outputs `out`. -/
def Speaks (events es : List ServerEvent) (e : ServerEvent) (s : ChatServer)
    (out : List ServerOutput) (i : ℕ) : Prop :=
  es ++ [e] <+: events ∧ Machine.run ChatServer.step ChatServer.new es = some (s, out) ∧
    ∃ s' o msg, s.step e = some (s', o) ∧ (i, .deliver msg) ∈ roomCalls o

/-- Whenever a session calls `room_.deliver`, it is one of the participants. -/
def OnlyMembersSpeak (events : List ServerEvent) : Prop :=
  ∀ es e s out i, Speaks events es e s out i → i ∈ s.room.participants

/-- No session calls `room_.deliver` after a call of `room_.leave`. -/
def SilentAfterLeaving (events : List ServerEvent) : Prop :=
  ∀ es e s out i, Speaks events es e s out i → (i, .leave i) ∉ roomCalls out

/-- No body is read by a session after one of its writes has failed. -/
def NoBodyAfterFailedWrite (events : List ServerEvent) : Prop :=
  ∀ es i data s out, es ++ [.read i true data] <+: events →
    Machine.run ChatServer.step ChatServer.new es = some (s, out) →
    s.phases[i]? = some .readBody → ∀ k, .write i k false ∉ es

/-- A session speaks when it has read a body. -/
lemma speaks_iff {s s' : ChatServer} {e : ServerEvent} {o : List ServerOutput}
    (hstep : s.step e = some (s', o)) (i : ℕ) :
    (∃ msg, (i, .deliver msg) ∈ roomCalls o) ↔
      ∃ data, e = .read i true data ∧ s.phases[i]? = some .readBody := by
  rcases ChatServer.step_cases hstep with
    ⟨content, rfl, -, -, hcalls⟩ | ⟨j, ok, data, rfl, hp, -, -, hcalls⟩ |
    ⟨j, data, msg, rfl, hp, -, -, hcalls⟩ | ⟨j, ok, data, p, rfl, hp, hfail, -, -, hcalls⟩ |
    ⟨j, k, ok, rfl, -, -, -, hcalls⟩
  · simp [hcalls]
  · simp only [hcalls, List.not_mem_nil, exists_false, false_iff, not_exists, not_and]
    rintro data' heq hbody
    cases heq
    rw [hp] at hbody
    cases hbody
  · rw [hcalls]
    constructor
    · rintro ⟨msg', hmem⟩
      cases List.mem_singleton.mp hmem
      exact ⟨data, rfl, hp⟩
    · rintro ⟨data', heq, -⟩
      cases heq
      exact ⟨msg, List.mem_cons_self⟩
  · simp only [hcalls, List.mem_singleton, Prod.mk.injEq, reduceCtorEq, and_false, exists_false,
      false_iff, not_exists, not_and]
    rintro data' heq hbody
    cases heq
    rw [hp] at hbody
    cases hfail (Option.some.inj hbody)
  · cases ok <;> simp [hcalls]

/-- A session that speaks is a participant exactly if none of its writes has failed, and exactly if
it has not left. -/
lemma Speaks.member_iff {events es : List ServerEvent} {e : ServerEvent} {s : ChatServer}
    {out : List ServerOutput} {i : ℕ} (h : Speaks events es e s out i) :
    (i ∈ s.room.participants ↔ ∀ k, .write i k false ∉ es) ∧
      ((i, .leave i) ∉ roomCalls out ↔ ∀ k, .write i k false ∉ es) := by
  obtain ⟨-, hrun, s', o, msg, hstep, hmem⟩ := h
  have hinv := serverInv_of_run hrun
  obtain ⟨data, -, hp⟩ := (speaks_iff hstep i).mp ⟨msg, hmem⟩
  have hreading : s.Reading i := ⟨.readBody, hp, by decide⟩
  have hmember : i ∈ s.room.participants ↔ ∀ k, .write i k false ∉ es :=
    (hinv.member_iff i).trans (and_iff_right hreading)
  refine ⟨hmember, ?_⟩
  rw [hinv.left_iff, and_iff_right hreading.lt, not_not]
  exact hmember

/-- The completion of the read of a body makes its session speak. -/
lemma speaks_of_readBody {events : List ServerEvent} {r : ChatServer × List ServerOutput}
    (hrun : Machine.run ChatServer.step ChatServer.new events = some r)
    {es : List ServerEvent} {i : ℕ} {data : Bytes} {s : ChatServer} {out : List ServerOutput}
    (hes : es ++ [.read i true data] <+: events)
    (hs : Machine.run ChatServer.step ChatServer.new es = some (s, out))
    (hp : s.phases[i]? = some .readBody) : Speaks events es (.read i true data) s out i := by
  obtain ⟨rest, hevents⟩ := id hes
  rw [← hevents] at hrun
  obtain ⟨s', _, _, hrun', _⟩ := Machine.run_append_iff.mp hrun
  obtain ⟨t, o, o', ht, hstep, _⟩ := Machine.run_concat_iff.mp hrun'
  rw [hs] at ht
  cases ht
  obtain ⟨msg, hmem⟩ := (speaks_iff hstep i).mpr ⟨data, rfl, hp⟩
  exact ⟨hes, hs, s', o', msg, hstep, hmem⟩

/-- **Who speaks in the room.**  In every run, with any number of sessions and in any order of
joins, reads and writes and of their errors: every session that delivers a message to the room is
one of its participants, or equivalently none delivers after it has left, if and only if no session
reads a body after one of its writes has failed. -/
theorem only_members_speak_iff (events : List ServerEvent) (s : ChatServer)
    (out : List ServerOutput)
    (hrun : Machine.run ChatServer.step ChatServer.new events = some (s, out)) :
    (OnlyMembersSpeak events ↔ NoBodyAfterFailedWrite events) ∧
      (SilentAfterLeaving events ↔ NoBodyAfterFailedWrite events) := by
  have hspeaks : ∀ {es e t o i}, Speaks events es e t o i → NoBodyAfterFailedWrite events →
      ∀ k, .write i k false ∉ es := by
    rintro es e t o i ⟨hes, ht, t', o', msg, hstep, hmem⟩ hno
    obtain ⟨data, rfl, hp⟩ := (speaks_iff hstep i).mp ⟨msg, hmem⟩
    exact hno es i data t o hes ht hp
  refine ⟨⟨fun hall => ?_, fun hno => ?_⟩, ⟨fun hall => ?_, fun hno => ?_⟩⟩
  · intro es i data t o hes ht hp
    have hi := speaks_of_readBody hrun hes ht hp
    exact hi.member_iff.1.mp (hall _ _ _ _ _ hi)
  · intro es e t o i hi
    exact hi.member_iff.1.mpr (hspeaks hi hno)
  · intro es i data t o hes ht hp
    have hi := speaks_of_readBody hrun hes ht hp
    exact hi.member_iff.2.mp (hall _ _ _ _ _ hi)
  · intro es e t o i hi
    exact hi.member_iff.2.mpr (hspeaks hi hno)

/-- The events of a session that sends itself a message and cannot be written to, and goes on to
read. -/
def lateMessage : List ServerEvent :=
  [.accept (List.replicate 516 0), .read 0 true (bytes "   1"), .read 0 true (bytes "a"),
    .write 0 0 false, .read 0 true (bytes "   1")]

/-- A session without errors. -/
theorem only_members_speak_iff_no_error :
    (OnlyMembersSpeak (lateMessage.take 3) ↔ NoBodyAfterFailedWrite (lateMessage.take 3)) ∧
      (SilentAfterLeaving (lateMessage.take 3) ↔ NoBodyAfterFailedWrite (lateMessage.take 3)) := by
  have hrun : (Machine.run ChatServer.step ChatServer.new (lateMessage.take 3)).isSome := by
    decide +kernel
  obtain ⟨⟨s, out⟩, hs⟩ := Option.isSome_iff_exists.mp hrun
  exact only_members_speak_iff _ s out hs

/-- The write of a session fails, so that it leaves the room; the body that it reads afterwards is
delivered to the room by someone who is no participant. -/
theorem stranger_speaks :
    ∃ s out, Speaks (lateMessage ++ [.read 0 true (bytes "b")]) lateMessage
        (.read 0 true (bytes "b")) s out 0 ∧ 0 ∉ s.room.participants ∧
      (0, .leave 0) ∈ roomCalls out := by
  have hphase : (Machine.run ChatServer.step ChatServer.new lateMessage).map
      (fun r => r.1.phases[0]?) = some (some .readBody) := by decide +kernel
  have hrun : (Machine.run ChatServer.step ChatServer.new
      (lateMessage ++ [.read 0 true (bytes "b")])).isSome := by decide +kernel
  obtain ⟨⟨s, out⟩, hs, hp⟩ := Option.map_eq_some_iff.mp hphase
  obtain ⟨r, hr⟩ := Option.isSome_iff_exists.mp hrun
  have hspeaks := speaks_of_readBody hr List.prefix_rfl hs hp
  have hfailed : ¬ ∀ k, .write 0 k false ∉ lateMessage := fun h => h 0 (by decide)
  exact ⟨s, out, hspeaks, hspeaks.member_iff.1.not.mpr hfailed,
    not_not.mp (hspeaks.member_iff.2.not.mpr hfailed)⟩

end Chat

end AsioStudy
