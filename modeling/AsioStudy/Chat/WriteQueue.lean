import AsioStudy.Chat.Message
import AsioStudy.Foundation.SingleWriter

/-!
# The write queues of the chat

`chat_session` and `chat_client` both keep a deque `write_msgs_` of messages and write them one at
a time: `deliver(msg)` of the session and the handler that `write(msg)` of the client posts append a
message and call `do_write` if the deque was empty, and the handler in `do_write` removes the front
message and calls `do_write` again if there is another one.  They are writers in the sense of
`SingleWriter`, and differ in what their handlers do on an error: a session leaves the room and a
client closes its socket.

The main result is `single_writer`.
-/

namespace AsioStudy

namespace Chat

/-- What the handlers of `chat_session` and of `chat_client` do on an error. -/
inductive Reaction where
  | roomLeave
  | socketClose
  deriving DecidableEq, Repr

/-- The deque `write_msgs_` with the calls of `async_write` whose handlers have not run. -/
abbrev WriteQueue := SingleWriter.Writer ChatMessage

/-- What happens on the write side: `do_write` calls `async_write` with `data()` and `length()` of
the front message, a write was completed, or a handler reacts to an error. -/
abbrev WriteOutput := SingleWriter.Output ChatMessage Reaction

/-- A message is queued, or the `k`-th outstanding write completes and its handler runs. -/
abbrev WriteEvent := SingleWriter.Event ChatMessage

/-- `chat_session::deliver`. -/
def ChatSession.deliver (q : WriteQueue) (msg : ChatMessage) : WriteQueue × List WriteOutput :=
  q.enqueue msg

/-- The handler in `chat_session::do_write`. -/
def ChatSession.writeHandler (q : WriteQueue) (ok : Bool) : WriteQueue × List WriteOutput :=
  q.completed .roomLeave ok

/-- The handler that `chat_client::write` posts. -/
def ChatClient.writePosted (q : WriteQueue) (msg : ChatMessage) : WriteQueue × List WriteOutput :=
  q.enqueue msg

/-- The handler in `chat_client::do_write`. -/
def ChatClient.writeHandler (q : WriteQueue) (ok : Bool) : WriteQueue × List WriteOutput :=
  q.completed .socketClose ok

/-- The write side of a class: `queueMsg` is its function that queues a message, and `writeHandler`
the handler in its `do_write`. -/
def writeSide (queueMsg : WriteQueue → ChatMessage → WriteQueue × List WriteOutput)
    (writeHandler : WriteQueue → Bool → WriteQueue × List WriteOutput) (q : WriteQueue) :
    WriteEvent → Option (WriteQueue × List WriteOutput)
  | .enqueue msg => some (queueMsg q msg)
  | .complete k ok =>
    match q.inFlight[k]? with
    | none => none
    | some msg =>
      let r := writeHandler { q with inFlight := q.inFlight.eraseIdx k } ok
      some (r.1, (if ok then [.written msg] else []) ++ r.2)

/-- The write side of a session. -/
def ChatSession.writeStep : WriteQueue → WriteEvent → Option (WriteQueue × List WriteOutput) :=
  writeSide ChatSession.deliver ChatSession.writeHandler

/-- The write side of a client. -/
def ChatClient.writeStep : WriteQueue → WriteEvent → Option (WriteQueue × List WriteOutput) :=
  writeSide ChatClient.writePosted ChatClient.writeHandler

/-- A class whose functions queue a message and react to the end of a write as a writer does is a
writer. -/
lemma writeSide_eq_step (onError : Reaction) :
    writeSide SingleWriter.Writer.enqueue (SingleWriter.Writer.completed onError) =
      SingleWriter.step onError := by
  funext q e
  rcases e with msg | ⟨k, ok⟩
  · rfl
  · rw [writeSide, SingleWriter.step]
    rcases q.inFlight[k]? with _ | msg
    · rfl
    · rfl

/-- A session is a writer. -/
lemma ChatSession.writeStep_eq : ChatSession.writeStep = SingleWriter.step .roomLeave :=
  writeSide_eq_step .roomLeave

/-- A client is a writer. -/
lemma ChatClient.writeStep_eq : ChatClient.writeStep = SingleWriter.step .socketClose :=
  writeSide_eq_step .socketClose

/-- The messages that were queued in a run. -/
def queuedMsgs (events : List WriteEvent) : List ChatMessage := SingleWriter.enqueued events

/-- The bytes of the writes that were completed in a run. -/
def completedBytes (out : List WriteOutput) : Bytes :=
  (SingleWriter.written out).flatMap ChatMessage.wire

/-- The properties of a write queue after a run of its write side. -/
structure SingleWriterProperties
    (writeStep : WriteQueue → WriteEvent → Option (WriteQueue × List WriteOutput))
    (events : List WriteEvent) (q : WriteQueue) (out : List WriteOutput) : Prop where
  /-- At most one write is outstanding. -/
  at_most_one : q.inFlight.length ≤ 1
  /-- Until a write fails, one is outstanding exactly if the deque is not empty. -/
  outstanding_iff : SingleWriter.hasFailed out = false → (q.inFlight ≠ [] ↔ q.queue ≠ [])
  /-- The outstanding write is the one of the front message. -/
  writes_front : ∀ msg ∈ q.inFlight, q.queue.head? = some msg
  /-- Queueing changes neither the outstanding write nor the front message under it. -/
  front_kept : ∀ msg q' out', q.inFlight ≠ [] → writeStep q (.enqueue msg) = some (q', out') →
    q'.inFlight = q.inFlight ∧ q'.queue.head? = q.queue.head?
  /-- `front()` and `pop_front()` were never called on an empty deque. -/
  defined : q.undefined = false
  /-- The completed writes are those of the first messages, and the others are in the deque. -/
  conserved : ∃ m, completedBytes out = ((queuedMsgs events).take m).flatMap ChatMessage.wire ∧
    q.queue = (queuedMsgs events).drop m
  /-- After an error no write is started any more. -/
  after_error : SingleWriter.hasFailed out = true → ∀ events' q' out',
    Machine.run writeStep q events' = some (q', out') → ∀ msg, .started msg ∉ out'

/-- A writer that follows the pattern has these properties. -/
lemma singleWriterProperties_of_run {onError : Reaction} {events : List WriteEvent}
    {q : WriteQueue} {out : List WriteOutput}
    (hrun : Machine.run (SingleWriter.step onError) SingleWriter.Writer.new events =
      some (q, out)) : SingleWriterProperties (SingleWriter.step onError) events q out := by
  have hinv := SingleWriter.inv_of_run hrun
  have hflight : q.inFlight = [] ∨ q.inFlight = q.queue.head?.toList := by
    rcases Bool.eq_false_or_eq_true (SingleWriter.hasFailed out) with hfail | hok
    · exact Or.inl (hinv.failed hfail).1
    · exact Or.inr (hinv.inFlight_eq hok)
  refine ⟨?_, ?_, ?_, ?_, hinv.defined, ?_, ?_⟩
  · rcases hflight with h | h
    · simp [h]
    · rw [h]
      cases q.queue.head? <;> simp
  · intro hok
    rw [hinv.inFlight_eq hok]
    cases q.queue <;> simp
  · intro msg hmsg
    rcases hflight with h | h
    · simp [h] at hmsg
    · rw [h] at hmsg
      exact Option.mem_toList.mp hmsg
  · intro msg q' out' hne hstep
    have hqueue : q.queue ≠ [] := by
      rcases hflight with h | h
      · exact absurd h hne
      · intro hnil
        rw [hnil] at h
        exact hne h
    obtain ⟨a, ms, hcons⟩ := List.exists_cons_of_ne_nil hqueue
    have henq : (q.enqueue msg : WriteQueue × List WriteOutput) =
        (⟨q.queue ++ [msg], q.inFlight, q.undefined⟩, []) := by
      simp [SingleWriter.Writer.enqueue, hcons]
    rw [SingleWriter.step, henq] at hstep
    cases hstep
    exact ⟨rfl, by rw [hcons]; rfl⟩
  · refine ⟨(SingleWriter.written out).length, ?_, ?_⟩
    · rw [queuedMsgs, hinv.conserved, List.take_left, completedBytes]
    · rw [queuedMsgs, hinv.conserved, List.drop_left]
  · intro hfail events' q' out' hrun' msg hmsg
    obtain ⟨hnone, hqueue⟩ := hinv.failed hfail
    rw [(SingleWriter.run_of_failed hnone hqueue hrun').1] at hmsg
    simp at hmsg

/-- **Single-writer queues.**  In every order in which messages are queued and handlers run, the
write queue of a session and the write queue of a client have at most one write outstanding, write
the front message, lose, repeat and reorder nothing, and write nothing after an error. -/
theorem single_writer (events : List WriteEvent) (q : WriteQueue) (out : List WriteOutput) :
    (Machine.run ChatSession.writeStep SingleWriter.Writer.new events = some (q, out) →
      SingleWriterProperties ChatSession.writeStep events q out) ∧
    (Machine.run ChatClient.writeStep SingleWriter.Writer.new events = some (q, out) →
      SingleWriterProperties ChatClient.writeStep events q out) := by
  rw [ChatSession.writeStep_eq, ChatClient.writeStep_eq]
  exact ⟨singleWriterProperties_of_run, singleWriterProperties_of_run⟩

/-- Two messages queued while the first is being written, and an error of the second write. -/
theorem single_writer_second_fails :
    let events : List WriteEvent := [.enqueue ⟨bytes "   1a", 1⟩, .enqueue ⟨bytes "   1b", 1⟩,
      .complete 0 true, .complete 0 false]
    let q : WriteQueue := ⟨[⟨bytes "   1b", 1⟩], [], false⟩
    SingleWriterProperties ChatSession.writeStep events q
        [.started ⟨bytes "   1a", 1⟩, .written ⟨bytes "   1a", 1⟩, .started ⟨bytes "   1b", 1⟩,
          .reacted .roomLeave] ∧
      SingleWriterProperties ChatClient.writeStep events q
        [.started ⟨bytes "   1a", 1⟩, .written ⟨bytes "   1a", 1⟩, .started ⟨bytes "   1b", 1⟩,
          .reacted .socketClose] :=
  ⟨(single_writer _ _ _).1 (by decide +kernel), (single_writer _ _ _).2 (by decide +kernel)⟩

end Chat

end AsioStudy
