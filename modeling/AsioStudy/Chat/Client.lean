import AsioStudy.Chat.ReadLoop

/-!
# The chat client

A `chat_client`: the handlers that `write(msg)` and `close()` post from the input thread, the
connection, the read side and the write side.  An event is a call from the input thread, the
completion of an operation, or the run of a handler; between the completion of an operation and its
handler other handlers may run.  Posted handlers run in the order in which they were posted.

What the library does when the socket is closed: a read or a write that is pending fails, unless its
result is already there; `async_connect` fails in any case, since it asks whether the socket is open
before it calls its handler; and operations that are started later fail at once.  A read of no bytes
succeeds at once.  Nothing can be transferred before the connection is there.

The main results say exactly in which states `close()` loses no message (`close_loses_nothing_iff`)
and in which runs every write is started on a connected and open socket (`writes_usable_iff`).
-/

namespace AsioStudy

namespace Chat

/-! ## The client -/

/-- A handler that a function called by the input thread has posted. -/
inductive Posted where
  | write (msg : ChatMessage)
  | close
  deriving DecidableEq, Repr

/-- A `chat_client` with the handlers and the operations that are outstanding. -/
structure ClientState where
  /-- The posted handlers that have not run. -/
  posted : List Posted
  /-- The `async_connect` if its handler has not run, with its result once it is known. -/
  connect : Option (Option Bool)
  /-- Whether the connection has been made. -/
  connected : Bool
  /-- Whether the socket has been closed. -/
  closed : Bool
  /-- The reads with `read_msg_`. -/
  readLoop : ReadLoop
  /-- The result of the outstanding read, once it is known. -/
  readResult : Option (Bool × Bytes)
  /-- The writes with `write_msgs_`. -/
  writeMsgs : WriteQueue
  /-- The results of the outstanding writes, once they are known. -/
  writeResults : List (Option Bool)
  deriving DecidableEq, Repr

/-- What happens on the client: a posted handler runs, a side does something, a write has
transferred all its bytes, or the socket is closed. -/
inductive ClientOutput where
  | ran (p : Posted)
  | read (o : ReadOutput)
  | write (o : WriteOutput)
  | transferred (msg : ChatMessage)
  | closed
  deriving DecidableEq, Repr

/-- The client after its constructor, which starts to connect; `content` is in `read_msg_`. -/
def ClientState.new (content : Bytes) : ClientState :=
  ⟨[], some none, false, false, ⟨ChatMessage.new content, .stopped⟩, none, SingleWriter.Writer.new,
    []⟩

/-- `socket_.close()`. -/
def ClientState.closeSocket (c : ClientState) : ClientState :=
  { c with
    closed := true
    connect := c.connect.map fun _ => some false
    readResult :=
      if c.readLoop.phase = .stopped then none else some (c.readResult.getD (false, []))
    writeResults := c.writeResults.map fun r => some (r.getD false) }

/-- The call of `async_read` for what the read side wants next. -/
def ClientState.startRead (c : ClientState) : ClientState :=
  { c with
    readResult :=
      if c.readLoop.wanted = 0 then some (true, [])
      else if c.closed then some (false, [])
      else none }

/-- The writes that are started. -/
def startedMsgs (out : List WriteOutput) : List ChatMessage :=
  out.filterMap fun o =>
    match o with
    | .started msg => some msg
    | _ => none

/-- The write side has gone over to `q`, and the writes that it has started are outstanding besides
those with the given results. -/
def ClientState.setWrites (c : ClientState) (q : WriteQueue) (out : List WriteOutput)
    (results : List (Option Bool)) : ClientState :=
  { c with
    writeMsgs := q
    writeResults :=
      results ++ (startedMsgs out).map fun _ => if c.closed then some false else none }

/-- The handler that `write(msg)` posts. -/
def ClientState.writeHandler (c : ClientState) (msg : ChatMessage) :
    ClientState × List ClientOutput :=
  let r := ChatClient.writePosted c.writeMsgs msg
  (c.setWrites r.1 r.2 c.writeResults, r.2.map ClientOutput.write)

/-- A handler that has come to an error closes the socket. -/
def ClientState.closeIf (c : ClientState) (error : Bool) : ClientState × List ClientOutput :=
  if error then (c.closeSocket, [.closed]) else (c, [])

/-- One event of the client. -/
inductive ClientEvent where
  /-- The input thread calls `write(msg)` or `close()`. -/
  | post (p : Posted)
  /-- The first posted handler runs. -/
  | runPosted
  /-- The connection is made, or cannot be made. -/
  | connectDone (ok : Bool)
  /-- The handler of `async_connect` runs. -/
  | handleConnect
  /-- The outstanding read completes. -/
  | readDone (ok : Bool) (data : Bytes)
  /-- The handler of the read runs. -/
  | handleRead
  /-- The `k`-th outstanding write completes. -/
  | writeDone (k : ℕ) (ok : Bool)
  /-- The handler of the `k`-th outstanding write runs. -/
  | handleWrite (k : ℕ)
  deriving DecidableEq, Repr

/-- The effect of an event, or `none` if the event is impossible. -/
def ClientState.step (c : ClientState) : ClientEvent → Option (ClientState × List ClientOutput)
  | .post p => some ({ c with posted := c.posted ++ [p] }, [])
  | .runPosted =>
    match c.posted with
    | [] => none
    | .write msg :: rest =>
      let r := { c with posted := rest }.writeHandler msg
      some (r.1, .ran (.write msg) :: r.2)
    | .close :: rest => some ({ c with posted := rest }.closeSocket, [.ran .close, .closed])
  | .connectDone ok =>
    if c.connect = some none then some ({ c with connect := some (some ok), connected := ok }, [])
    else none
  | .handleConnect =>
    match c.connect with
    | some (some true) =>
      some ({ c with
        connect := none
        readLoop := { c.readLoop with phase := .readHeader } }.startRead, [])
    | some (some false) => some ({ c with connect := none }, [])
    | _ => none
  | .readDone ok data =>
    if c.readResult = none ∧ c.readLoop.CanComplete ok data then
      some ({ c with readResult := some (ok, data) }, [])
    else none
  | .handleRead => do
    let result ← c.readResult
    let r := ChatClient.readHandler c.readLoop result.1 result.2
    let c := { c with readLoop := r.1, readResult := none }
    let error := decide (ReadOutput.reacted .socketClose ∈ r.2)
    let t := (if error then c else c.startRead).closeIf error
    some (t.1, r.2.map ClientOutput.read ++ t.2)
  | .writeDone k ok => do
    let msg ← c.writeMsgs.inFlight[k]?
    if c.writeResults[k]? = some none ∧ (ok = true → c.connected = true) then
      some ({ c with writeResults := c.writeResults.set k (some ok) },
        if ok then [.transferred msg] else [])
    else none
  | .handleWrite k => do
    let result ← c.writeResults[k]?
    let ok ← result
    let r ← ChatClient.writeStep c.writeMsgs (.complete k ok)
    let t := (c.setWrites r.1 r.2 (c.writeResults.eraseIdx k)).closeIf (SingleWriter.hasFailed r.2)
    some (t.1, r.2.map ClientOutput.write ++ t.2)

/-- The next posted handler is one of `write` or one of `close`. -/
lemma ClientState.step_runPosted {c c' : ClientState} {o : List ClientOutput}
    (h : c.step .runPosted = some (c', o)) :
    (∃ msg rest, c.posted = .write msg :: rest ∧
      c' = (ClientState.writeHandler { c with posted := rest } msg).1 ∧
      o = .ran (.write msg) :: (ClientState.writeHandler { c with posted := rest } msg).2) ∨
    ∃ rest, c.posted = .close :: rest ∧ c' = ClientState.closeSocket { c with posted := rest } ∧
      o = [.ran .close, .closed] := by
  rw [ClientState.step] at h
  cases hposted : c.posted with
  | nil =>
    rw [hposted] at h
    cases h
  | cons p rest =>
    rw [hposted] at h
    cases p with
    | write msg =>
      cases h
      exact Or.inl ⟨msg, rest, rfl, rfl, rfl⟩
    | close =>
      cases h
      exact Or.inr ⟨rest, rfl, rfl, rfl⟩

/-! ## The record of a run -/

/-- The calls of the input thread. -/
def postedCalls (events : List ClientEvent) : List Posted :=
  events.filterMap fun e =>
    match e with
    | .post p => some p
    | _ => none

/-- The messages of the calls of `write`. -/
def writeCalls (calls : List Posted) : List ChatMessage :=
  calls.filterMap fun p =>
    match p with
    | .write msg => some msg
    | .close => none

/-- The posted handlers that have run. -/
def ranCalls (out : List ClientOutput) : List Posted :=
  out.filterMap fun o =>
    match o with
    | .ran p => some p
    | _ => none

/-- What the write side has done. -/
def writeOutputs (out : List ClientOutput) : List WriteOutput :=
  out.filterMap fun o =>
    match o with
    | .write o => some o
    | _ => none

/-- The messages that have been written completely. -/
def transferredMsgs (out : List ClientOutput) : List ChatMessage :=
  out.filterMap fun o =>
    match o with
    | .transferred msg => some msg
    | _ => none

/-- The calls in two stretches of a run. -/
@[simp] lemma postedCalls_append (es fs : List ClientEvent) :
    postedCalls (es ++ fs) = postedCalls es ++ postedCalls fs := List.filterMap_append

/-- The messages of two lists of calls. -/
@[simp] lemma writeCalls_append (ps qs : List Posted) :
    writeCalls (ps ++ qs) = writeCalls ps ++ writeCalls qs := List.filterMap_append

/-- The posted handlers in two stretches of a run. -/
@[simp] lemma ranCalls_append (out out' : List ClientOutput) :
    ranCalls (out ++ out') = ranCalls out ++ ranCalls out' := List.filterMap_append

/-- The write side in two stretches of a run. -/
@[simp] lemma writeOutputs_append (out out' : List ClientOutput) :
    writeOutputs (out ++ out') = writeOutputs out ++ writeOutputs out' := List.filterMap_append

/-- The messages written in two stretches of a run. -/
@[simp] lemma transferredMsgs_append (out out' : List ClientOutput) :
    transferredMsgs (out ++ out') = transferredMsgs out ++ transferredMsgs out' :=
  List.filterMap_append

/-- The record of a stretch in which only the write side does something. -/
lemma record_map_write (out : List WriteOutput) :
    ranCalls (out.map ClientOutput.write) = [] ∧
      writeOutputs (out.map ClientOutput.write) = out ∧
      transferredMsgs (out.map ClientOutput.write) = [] := by
  induction out with
  | nil => exact ⟨rfl, rfl, rfl⟩
  | cons o out ih => exact ⟨ih.1, congrArg (o :: ·) ih.2.1, ih.2.2⟩

/-- The record of a stretch in which only the read side does something. -/
lemma record_map_read (out : List ReadOutput) :
    ranCalls (out.map ClientOutput.read) = [] ∧ writeOutputs (out.map ClientOutput.read) = [] ∧
      transferredMsgs (out.map ClientOutput.read) = [] := by
  induction out with
  | nil => exact ⟨rfl, rfl, rfl⟩
  | cons o out ih => exact ih

/-! ## The invariant -/

/-- The messages whose writes have transferred everything and whose handlers have not run. -/
def ClientState.finished (c : ClientState) : List ChatMessage :=
  (c.writeMsgs.inFlight.zip c.writeResults).filterMap fun x =>
    if x.2 = some true then some x.1 else none

/-- The invariant of the client, after the given events and what they have led to. -/
structure ClientState.Inv (c : ClientState) (events : List ClientEvent)
    (out : List ClientOutput) : Prop where
  /-- The posted handlers run in their order, and each of them once. -/
  posts : postedCalls events = ranCalls out ++ c.posted
  /-- The write side is a single writer, to which the messages come in the order of the calls. -/
  writer : ∃ wes, c.writeMsgs.Inv wes (writeOutputs out) ∧
    SingleWriter.enqueued wes = writeCalls (ranCalls out)
  /-- Each outstanding write has its result. -/
  results_length : c.writeResults.length = c.writeMsgs.inFlight.length
  /-- What has been transferred are the messages whose handlers have run, and the finished ones. -/
  transferred : transferredMsgs out = SingleWriter.written (writeOutputs out) ++ c.finished
  /-- As long as the connection is being made, it is not there. -/
  connecting : c.connect = some none → c.connected = false
  /-- Something was transferred only over the connection. -/
  finished_connected : some true ∈ c.writeResults → c.connected = true

/-- The invariant holds when the client has been constructed. -/
lemma clientInv_new (content : Bytes) : (ClientState.new content).Inv [] [] where
  posts := rfl
  writer := ⟨[], SingleWriter.inv_new, rfl⟩
  results_length := rfl
  transferred := rfl
  connecting := fun _ => rfl
  finished_connected := by simp [ClientState.new]

/-- Closing the socket finishes no write. -/
lemma mem_map_abort {results : List (Option Bool)} :
    some true ∈ results.map (fun r => some (r.getD false)) ↔ some true ∈ results := by
  rw [List.mem_map]
  constructor
  · rintro ⟨r, hr, heq⟩
    cases r with
    | none => cases heq
    | some ok =>
      have hok : ok = true := Option.some.inj heq
      rw [← hok]
      exact hr
  · intro h
    exact ⟨some true, h, rfl⟩

/-- Closing the socket finishes no write. -/
lemma finished_closeSocket (c : ClientState) : c.closeSocket.finished = c.finished := by
  unfold ClientState.finished ClientState.closeSocket
  simp only [List.zip_map_right, List.filterMap_map]
  congr 1
  funext ⟨msg, r⟩
  rcases r with _ | _ | _ <;> rfl

/-- Closing the socket keeps the invariant. -/
lemma ClientState.Inv.closeSocket {c : ClientState} {events : List ClientEvent}
    {out : List ClientOutput} (h : c.Inv events out) :
    c.closeSocket.Inv events (out ++ [.closed]) where
  posts := by
    rw [ranCalls_append, h.posts]
    simp [ranCalls, ClientState.closeSocket]
  writer := by
    obtain ⟨wes, hinv, hqueued⟩ := h.writer
    refine ⟨wes, ?_, ?_⟩
    · rw [writeOutputs_append]
      exact (List.append_nil (writeOutputs out)).symm ▸ hinv
    · rw [ranCalls_append]
      exact (List.append_nil (ranCalls out)).symm ▸ hqueued
  results_length := by simpa [ClientState.closeSocket] using h.results_length
  transferred := by
    rw [finished_closeSocket, transferredMsgs_append, writeOutputs_append, h.transferred]
    simp [transferredMsgs, writeOutputs]
  connecting := by simp [ClientState.closeSocket]
  finished_connected := fun hmem => h.finished_connected (mem_map_abort.mp hmem)

/-- An event that touches neither the posted handlers nor the write side keeps the invariant. -/
lemma ClientState.Inv.frame {c c' : ClientState} {events : List ClientEvent}
    {out o : List ClientOutput} (h : c.Inv events out) {e : ClientEvent}
    (he : postedCalls [e] = []) (hposted : c'.posted = c.posted)
    (hmsgs : c'.writeMsgs = c.writeMsgs) (hresults : c'.writeResults = c.writeResults)
    (hconnected : c.connected = true → c'.connected = true)
    (hconnecting : c'.connect = some none → c'.connected = false)
    (ho : ranCalls o = [] ∧ writeOutputs o = [] ∧ transferredMsgs o = []) :
    c'.Inv (events ++ [e]) (out ++ o) := by
  obtain ⟨hran, hwrite, htransferred⟩ := ho
  have hfinished : c'.finished = c.finished := by
    rw [ClientState.finished, hmsgs, hresults]
    rfl
  refine ⟨?_, ?_, ?_, ?_, hconnecting, ?_⟩
  · rw [postedCalls_append, ranCalls_append, he, hran, hposted, List.append_nil, List.append_nil]
    exact h.posts
  · rw [writeOutputs_append, ranCalls_append, hwrite, hran, hmsgs, List.append_nil,
      List.append_nil]
    exact h.writer
  · rw [hresults, hmsgs]
    exact h.results_length
  · rw [transferredMsgs_append, writeOutputs_append, htransferred, hwrite, hfinished,
      List.append_nil, List.append_nil]
    exact h.transferred
  · rw [hresults]
    exact fun hmem => hconnected (h.finished_connected hmem)

/-- The front message is among the outstanding writes after its write was started. -/
lemma inFlight_start (q : WriteQueue) :
    (q.start : WriteQueue × List WriteOutput).1.inFlight = q.inFlight ++ startedMsgs q.start.2 := by
  unfold SingleWriter.Writer.start
  split
  · exact (List.append_nil _).symm
  · rfl

/-- What is outstanding after a message was queued. -/
lemma inFlight_writePosted (q : WriteQueue) (msg : ChatMessage) :
    (ChatClient.writePosted q msg).1.inFlight =
      q.inFlight ++ startedMsgs (ChatClient.writePosted q msg).2 := by
  unfold ChatClient.writePosted SingleWriter.Writer.enqueue
  simp only
  split
  · exact inFlight_start _
  · exact (List.append_nil _).symm

/-- What is outstanding after the handler of a write. -/
lemma inFlight_writeHandler (q : WriteQueue) (ok : Bool) :
    (ChatClient.writeHandler q ok).1.inFlight =
      q.inFlight ++ startedMsgs (ChatClient.writeHandler q ok).2 := by
  have hpop : (q.popFront).inFlight = q.inFlight := by
    unfold SingleWriter.Writer.popFront
    split <;> rfl
  unfold ChatClient.writeHandler SingleWriter.Writer.completed
  simp only
  split
  · split
    · rw [inFlight_start, hpop]
    · rw [hpop]
      exact (List.append_nil _).symm
  · exact (List.append_nil _).symm

/-- The start of a write completes none. -/
lemma written_start (q : WriteQueue) :
    SingleWriter.written (q.start : WriteQueue × List WriteOutput).2 = [] := by
  unfold SingleWriter.Writer.start
  split <;> rfl

/-- Queueing a message completes no write. -/
lemma written_writePosted (q : WriteQueue) (msg : ChatMessage) :
    SingleWriter.written (ChatClient.writePosted q msg).2 = [] := by
  unfold ChatClient.writePosted SingleWriter.Writer.enqueue
  simp only
  split
  · exact written_start _
  · rfl

/-- The handler of a write completes no other one. -/
lemma written_writeHandler (q : WriteQueue) (ok : Bool) :
    SingleWriter.written (ChatClient.writeHandler q ok).2 = [] := by
  unfold ChatClient.writeHandler SingleWriter.Writer.completed
  simp only
  split
  · split
    · exact written_start _
    · rfl
  · rfl

/-- The results of writes that have just been started are not successes. -/
lemma mem_writeResults_setWrites {c : ClientState} {q : WriteQueue} {wout : List WriteOutput}
    {results : List (Option Bool)}
    (h : some true ∈ (c.setWrites q wout results).writeResults) : some true ∈ results := by
  rcases List.mem_append.mp h with h | h
  · exact h
  · obtain ⟨_, -, heq⟩ := List.mem_map.mp h
    cases hclosed : c.closed <;> simp [hclosed] at heq

/-- Writes that have just been started are not finished. -/
lemma finished_setWrites (c : ClientState) {q : WriteQueue} {wout : List WriteOutput}
    (results : List (Option Bool)) {flight : List ChatMessage}
    (hflight : q.inFlight = flight ++ startedMsgs wout) (hlen : results.length = flight.length) :
    (c.setWrites q wout results).finished =
      (flight.zip results).filterMap (fun x => if x.2 = some true then some x.1 else none) := by
  have hnew : ∀ msgs : List ChatMessage,
      (msgs.zip (msgs.map fun _ => if c.closed then some false else none)).filterMap
        (fun x => if x.2 = some true then some x.1 else none) = [] := by
    intro msgs
    rw [List.filterMap_eq_nil_iff]
    rintro ⟨msg, r⟩ hmem
    have hr := (List.of_mem_zip hmem).2
    obtain ⟨_, -, rfl⟩ := List.mem_map.mp hr
    cases c.closed <;> rfl
  rw [ClientState.finished, ClientState.setWrites]
  simp only
  rw [hflight, List.zip_append hlen.symm, List.filterMap_append, hnew, List.append_nil]

/-- The handler that `write(msg)` has posted keeps the invariant. -/
lemma ClientState.Inv.writeHandler {c : ClientState} {events : List ClientEvent}
    {out : List ClientOutput} (h : c.Inv events out) {msg : ChatMessage} {rest : List Posted}
    (hposted : c.posted = .write msg :: rest) :
    (ClientState.writeHandler { c with posted := rest } msg).1.Inv (events ++ [.runPosted])
      (out ++ .ran (.write msg) ::
        (ClientState.writeHandler { c with posted := rest } msg).2) := by
  obtain ⟨wes, hinv, hqueued⟩ := h.writer
  obtain ⟨hran, hwrite, htransferred⟩ :=
    record_map_write (ChatClient.writePosted c.writeMsgs msg).2
  have hflight := inFlight_writePosted c.writeMsgs msg
  have hfinished := finished_setWrites { c with posted := rest } _ hflight h.results_length
  have hout : ∀ o, ClientOutput.ran (.write msg) :: o = [.ran (.write msg)] ++ o := fun _ => rfl
  unfold ClientState.writeHandler
  simp only
  rw [hout]
  refine ⟨?_, ⟨wes ++ [.enqueue msg], ?_, ?_⟩, ?_, ?_, h.connecting, ?_⟩
  · rw [postedCalls_append, h.posts, hposted, ranCalls_append, ranCalls_append, hran]
    simp [postedCalls, ranCalls, ClientState.setWrites]
  · rw [writeOutputs_append, writeOutputs_append, hwrite]
    exact hinv.enqueue msg
  · rw [ranCalls_append, ranCalls_append, hran, SingleWriter.enqueued_append, hqueued,
      writeCalls_append]
    rfl
  · simp only [ClientState.setWrites, hflight, List.length_append, List.length_map,
      h.results_length]
  · rw [hfinished, transferredMsgs_append, transferredMsgs_append, htransferred,
      writeOutputs_append, writeOutputs_append, hwrite, SingleWriter.written_append,
      SingleWriter.written_append, written_writePosted, h.transferred]
    simp [transferredMsgs, writeOutputs, SingleWriter.written, ClientState.finished]
  · exact fun hmem => h.finished_connected (mem_writeResults_setWrites hmem)

/-- What is known when the handler of a write runs: it is the only one, the write of the front
message. -/
lemma ClientState.Inv.of_writeResults {c : ClientState} {events : List ClientEvent}
    {out : List ClientOutput} (h : c.Inv events out) {k : ℕ} {ok : Bool}
    (hk : c.writeResults[k]? = some (some ok)) :
    k = 0 ∧ c.writeResults = [some ok] ∧ ∃ msg ms, c.writeMsgs.inFlight = [msg] ∧
      c.writeMsgs.queue = msg :: ms ∧ SingleWriter.hasFailed (writeOutputs out) = false := by
  obtain ⟨wes, hinv, -⟩ := h.writer
  have hlt : k < c.writeMsgs.inFlight.length := by
    rw [← h.results_length]
    exact (List.getElem?_eq_some_iff.mp hk).1
  obtain ⟨hok, rfl, hflight, ms, hqueue⟩ := hinv.of_inFlight (List.getElem?_eq_getElem hlt)
  have hlen := h.results_length
  rw [hflight, List.length_singleton] at hlen
  obtain ⟨r, hr⟩ := List.length_eq_one_iff.mp hlen
  rw [hr] at hk
  cases hk
  exact ⟨rfl, hr, _, ms, hflight, hqueue, hok⟩

/-- The handler of a write keeps the invariant. -/
lemma ClientState.Inv.handleWrite {c : ClientState} {events : List ClientEvent}
    {out : List ClientOutput} (h : c.Inv events out) {k : ℕ} {ok : Bool}
    (hk : c.writeResults[k]? = some (some ok)) {q : WriteQueue} {wout : List WriteOutput}
    (hstep : ChatClient.writeStep c.writeMsgs (.complete k ok) = some (q, wout)) :
    (c.setWrites q wout (c.writeResults.eraseIdx k)).Inv (events ++ [.handleWrite k])
      (out ++ wout.map ClientOutput.write) := by
  obtain ⟨rfl, hresults, msg, ms, hflight, hqueue, -⟩ := h.of_writeResults hk
  obtain ⟨wes, hinv, hqueued⟩ := h.writer
  obtain ⟨hran, hwrite, htransferred⟩ := record_map_write wout
  rw [ChatClient.writeStep_eq] at hstep
  have hinv' := hinv.step hstep
  obtain ⟨rfl, rfl⟩ : q = (ChatClient.writeHandler { c.writeMsgs with inFlight := [] } ok).1 ∧
      wout = (if ok then [.written msg] else []) ++
        (ChatClient.writeHandler { c.writeMsgs with inFlight := [] } ok).2 := by
    rw [SingleWriter.step, hflight] at hstep
    have heq := Option.some.inj hstep
    exact ⟨(congrArg Prod.fst heq).symm, (congrArg Prod.snd heq).symm⟩
  have hstarted := inFlight_writeHandler { c.writeMsgs with inFlight := [] } ok
  have hmsgs : startedMsgs ((if ok then [.written msg] else []) ++
      (ChatClient.writeHandler { c.writeMsgs with inFlight := [] } ok).2) =
        startedMsgs (ChatClient.writeHandler { c.writeMsgs with inFlight := [] } ok).2 := by
    cases ok <;> rfl
  rw [← hmsgs] at hstarted
  have hwritten : SingleWriter.written ((if ok then [.written msg] else []) ++
      (ChatClient.writeHandler { c.writeMsgs with inFlight := [] } ok).2) = c.finished := by
    rw [SingleWriter.written_append, written_writeHandler, ClientState.finished, hflight, hresults]
    cases ok <;> rfl
  have hfinished := finished_setWrites c [] hstarted rfl
  have herase : c.writeResults.eraseIdx 0 = [] := by
    rw [hresults]
    rfl
  rw [herase]
  refine ⟨?_, ⟨wes ++ [.complete 0 ok], ?_, ?_⟩, ?_, ?_, h.connecting, ?_⟩
  · rw [postedCalls_append, h.posts, ranCalls_append, hran]
    simp [postedCalls, ClientState.setWrites]
  · rw [writeOutputs_append, hwrite]
    exact hinv'
  · rw [ranCalls_append, hran, SingleWriter.enqueued_append, hqueued, List.append_nil]
    exact List.append_nil _
  · simp only [ClientState.setWrites, hstarted, List.length_append, List.length_map,
      List.length_nil]
  · rw [hfinished, transferredMsgs_append, htransferred, writeOutputs_append, hwrite,
      SingleWriter.written_append, hwritten, h.transferred]
    rfl
  · exact fun hmem => absurd (mem_writeResults_setWrites hmem) List.not_mem_nil

/-- The completion of a write keeps the invariant. -/
lemma ClientState.Inv.writeDone {c : ClientState} {events : List ClientEvent}
    {out : List ClientOutput} (h : c.Inv events out) {k : ℕ} {msg : ChatMessage}
    (hmsg : c.writeMsgs.inFlight[k]? = some msg) (hk : c.writeResults[k]? = some none) {ok : Bool}
    (hconnected : ok = true → c.connected = true) :
    ClientState.Inv { c with writeResults := c.writeResults.set k (some ok) }
      (events ++ [.writeDone k ok]) (out ++ if ok then [.transferred msg] else []) := by
  obtain ⟨wes, hinv, hqueued⟩ := h.writer
  obtain ⟨-, rfl, hflight, -⟩ := hinv.of_inFlight hmsg
  have hresults : c.writeResults = [none] := by
    have hlen := h.results_length
    rw [hflight, List.length_singleton] at hlen
    obtain ⟨r, hr⟩ := List.length_eq_one_iff.mp hlen
    rw [hr] at hk ⊢
    cases hk
    rfl
  have hfinished : c.finished = [] := by
    rw [ClientState.finished, hflight, hresults]
    rfl
  obtain ⟨hran, hwrite⟩ : ranCalls (if ok then [.transferred msg] else []) = [] ∧
      writeOutputs (if ok then [.transferred msg] else []) = [] := by
    cases ok <;> exact ⟨rfl, rfl⟩
  refine ⟨?_, ⟨wes, ?_, ?_⟩, ?_, ?_, h.connecting, ?_⟩
  · rw [postedCalls_append, h.posts, ranCalls_append, hran]
    simp [postedCalls]
  · rw [writeOutputs_append, hwrite, List.append_nil]
    exact hinv
  · rw [ranCalls_append, hran, List.append_nil]
    exact hqueued
  · rw [List.length_set]
    exact h.results_length
  · rw [transferredMsgs_append, writeOutputs_append, hwrite, List.append_nil, h.transferred,
      hfinished, List.append_nil, ClientState.finished, hflight, hresults]
    cases ok <;> rfl
  · rw [hresults]
    cases ok with
    | true => exact fun _ => hconnected rfl
    | false => simp

/-- A handler that may close the socket keeps the invariant. -/
lemma ClientState.Inv.closeIf {c : ClientState} {events : List ClientEvent}
    {out : List ClientOutput} (h : c.Inv events out) (error : Bool) :
    (c.closeIf error).1.Inv events (out ++ (c.closeIf error).2) := by
  unfold ClientState.closeIf
  cases error with
  | true => exact h.closeSocket
  | false =>
    rw [if_neg Bool.false_ne_true, List.append_nil]
    exact h

/-- The handler that `close()` has posted keeps the invariant. -/
lemma ClientState.Inv.closePosted {c : ClientState} {events : List ClientEvent}
    {out : List ClientOutput} (h : c.Inv events out) {rest : List Posted}
    (hposted : c.posted = .close :: rest) :
    (ClientState.closeSocket { c with posted := rest }).Inv (events ++ [.runPosted])
      (out ++ [.ran .close, .closed]) := by
  have hran : ClientState.Inv { c with posted := rest } (events ++ [.runPosted])
      (out ++ [.ran .close]) := by
    obtain ⟨wes, hinv, hqueued⟩ := h.writer
    refine ⟨?_, ⟨wes, ?_, ?_⟩, h.results_length, ?_, h.connecting, h.finished_connected⟩
    · rw [postedCalls_append, h.posts, hposted, ranCalls_append]
      simp [postedCalls, ranCalls]
    · rw [writeOutputs_append]
      simpa [writeOutputs] using hinv
    · rw [ranCalls_append, writeCalls_append, hqueued]
      exact (List.append_nil _).symm
    · rw [transferredMsgs_append, writeOutputs_append, h.transferred]
      simp [transferredMsgs, writeOutputs, ClientState.finished]
  have hclose := hran.closeSocket
  rw [List.append_assoc] at hclose
  exact hclose

/-- Every event keeps the invariant. -/
lemma ClientState.Inv.step {c c' : ClientState} {events : List ClientEvent} {e : ClientEvent}
    {out o : List ClientOutput} (h : c.Inv events out) (hstep : c.step e = some (c', o)) :
    c'.Inv (events ++ [e]) (out ++ o) := by
  cases e with
  | post p =>
    cases hstep
    refine ⟨?_, ?_, h.results_length, ?_, h.connecting, h.finished_connected⟩
    · rw [postedCalls_append, h.posts, List.append_nil, List.append_assoc]
      rfl
    · rw [List.append_nil]
      exact h.writer
    · rw [List.append_nil]
      exact h.transferred
  | runPosted =>
    rcases ClientState.step_runPosted hstep with
      ⟨msg, rest, hposted, rfl, rfl⟩ | ⟨rest, hposted, rfl, rfl⟩
    · exact h.writeHandler hposted
    · exact h.closePosted hposted
  | connectDone ok =>
    obtain ⟨hconnect, heq⟩ := Option.ite_none_right_eq_some.mp hstep
    cases heq
    have hnot := h.connecting hconnect
    exact h.frame rfl rfl rfl rfl (by simp [hnot]) (by simp) ⟨rfl, rfl, rfl⟩
  | handleConnect =>
    rw [ClientState.step] at hstep
    split at hstep
    · cases hstep
      exact h.frame rfl rfl rfl rfl id (by simp [ClientState.startRead]) ⟨rfl, rfl, rfl⟩
    · cases hstep
      exact h.frame rfl rfl rfl rfl id (by simp) ⟨rfl, rfl, rfl⟩
    · cases hstep
  | readDone ok data =>
    obtain ⟨-, heq⟩ := Option.ite_none_right_eq_some.mp hstep
    cases heq
    exact h.frame rfl rfl rfl rfl id h.connecting ⟨rfl, rfl, rfl⟩
  | handleRead =>
    simp only [ClientState.step, Option.bind_eq_bind, Option.bind_eq_some_iff] at hstep
    obtain ⟨⟨ok, data⟩, hresult, heq⟩ := hstep
    cases heq
    rw [← List.append_assoc]
    refine ClientState.Inv.closeIf ?_ _
    have hrecord := record_map_read (ChatClient.readHandler c.readLoop ok data).2
    split
    · exact h.frame rfl rfl rfl rfl id h.connecting hrecord
    · exact h.frame rfl rfl rfl rfl id h.connecting hrecord
  | writeDone k ok =>
    simp only [ClientState.step, Option.bind_eq_bind, Option.bind_eq_some_iff] at hstep
    obtain ⟨msg, hmsg, hstep⟩ := hstep
    obtain ⟨⟨hk, hconnected⟩, heq⟩ := Option.ite_none_right_eq_some.mp hstep
    cases heq
    exact h.writeDone hmsg hk hconnected
  | handleWrite k =>
    simp only [ClientState.step, Option.bind_eq_bind, Option.bind_eq_some_iff] at hstep
    obtain ⟨result, hk, ok, rfl, ⟨q, wout⟩, hwrite, heq⟩ := hstep
    cases heq
    rw [← List.append_assoc]
    exact (h.handleWrite hk hwrite).closeIf _

/-- The invariant holds after every run. -/
theorem clientInv_of_run {content : Bytes} {events : List ClientEvent} {c : ClientState}
    {out : List ClientOutput}
    (hrun : Machine.run ClientState.step (ClientState.new content) events = some (c, out)) :
    c.Inv events out :=
  Machine.run_history (I := fun c es out => c.Inv es out) hrun (clientInv_new content)
    fun _ _ _ _ _ _ h hstep => h.step hstep

/-! ## What `close()` loses -/

/-- Everything that was queued has been written: nothing is queued, or the front message is the only
one and its write has transferred all its bytes. -/
def ClientState.Drained (c : ClientState) : Prop :=
  c.writeMsgs.queue = [] ∨ ∃ msg, c.writeMsgs.queue = [msg] ∧ c.writeResults = [some true]

/-- The finished writes are the whole deque exactly if the client is drained. -/
lemma ClientState.Inv.finished_eq_queue_iff {c : ClientState} {events : List ClientEvent}
    {out : List ClientOutput} (h : c.Inv events out) :
    c.finished = c.writeMsgs.queue ↔ c.Drained := by
  obtain ⟨wes, hinv, -⟩ := h.writer
  have hlen := h.results_length
  unfold ClientState.Drained ClientState.finished
  rcases Bool.eq_false_or_eq_true (SingleWriter.hasFailed (writeOutputs out)) with hfail | hok
  · -- after an error the front message stays in the deque for ever
    obtain ⟨hflight, hne⟩ := hinv.failed hfail
    rw [hflight, List.length_nil, List.length_eq_zero_iff] at hlen
    rw [hflight, hlen]
    refine iff_of_false (fun heq => hne heq.symm) ?_
    rintro (hnil | ⟨msg, -, hresults⟩)
    · exact hne hnil
    · cases hresults
  · have hflight := hinv.inFlight_eq hok
    rw [hflight] at hlen ⊢
    cases hqueue : c.writeMsgs.queue with
    | nil => exact iff_of_true rfl (Or.inl rfl)
    | cons msg ms =>
      rw [hqueue] at hlen
      obtain ⟨r, hr⟩ := List.length_eq_one_iff.mp hlen
      rw [hr]
      rcases r with _ | _ | _
      · simp
      · simp
      · simp [eq_comm]

/-- **What `close()` loses.**  In every run, with any calls of the input thread and in any order of
handlers, completions and errors: let the next posted handler be the one of a call of `close()`, and
let `before` be the calls before it.  All the messages of these calls have been written completely
if and only if the deque is empty or holds one message whose write has transferred all its bytes. -/
theorem close_loses_nothing_iff (content : Bytes) (events : List ClientEvent) (c : ClientState)
    (out : List ClientOutput)
    (hrun : Machine.run ClientState.step (ClientState.new content) events = some (c, out))
    (before rest : List Posted) (hcalls : postedCalls events = before ++ .close :: rest)
    (hnext : c.posted = .close :: rest) :
    transferredMsgs out = writeCalls before ↔ c.Drained := by
  have hinv := clientInv_of_run hrun
  obtain ⟨wes, hwriter, hqueued⟩ := hinv.writer
  have hran : ranCalls out = before := by
    have hposts := hinv.posts
    rw [hcalls, hnext] at hposts
    exact (List.append_cancel_right hposts).symm
  have hsent : writeCalls before =
      SingleWriter.written (writeOutputs out) ++ c.writeMsgs.queue := by
    rw [← hran, ← hqueued, hwriter.conserved]
  rw [hinv.transferred, hsent, List.append_cancel_left_eq]
  exact hinv.finished_eq_queue_iff

/-- A message of one byte. -/
def oneByteMessage : ChatMessage := ⟨bytes "   1a", 1⟩

/-- A client that has written its only message when `close()` is called. -/
theorem close_loses_nothing_iff_written :
    ∃ c out, Machine.run ClientState.step (ClientState.new [])
        [.connectDone true, .handleConnect, .post (.write oneByteMessage), .runPosted,
          .writeDone 0 true, .post .close] = some (c, out) ∧
      (transferredMsgs out = writeCalls [.write oneByteMessage] ↔ c.Drained) := by
  have hrun : (Machine.run ClientState.step (ClientState.new [])
      [.connectDone true, .handleConnect, .post (.write oneByteMessage), .runPosted,
        .writeDone 0 true, .post .close]).map (fun r => r.1.posted) = some [.close] := by
    decide +kernel
  obtain ⟨⟨c, out⟩, hrun, hposted⟩ := Option.map_eq_some_iff.mp hrun
  exact ⟨c, out, hrun, close_loses_nothing_iff [] _ c out hrun [.write oneByteMessage] [] rfl
    hposted⟩

/-- The input ends right after two lines: the first one has been sent at once, but its handler and
with it the write of the second one come after the handler of `close()`. -/
theorem close_loses_message :
    ∃ c out, Machine.run ClientState.step (ClientState.new [])
        [.connectDone true, .handleConnect, .post (.write oneByteMessage),
          .post (.write ⟨bytes "   1b", 1⟩), .post .close, .runPosted, .writeDone 0 true,
          .runPosted] = some (c, out) ∧
      c.posted = [.close] ∧ c.closed = false ∧
      transferredMsgs out ≠ [oneByteMessage, ⟨bytes "   1b", 1⟩] := by
  have hrun : (Machine.run ClientState.step (ClientState.new [])
      [.connectDone true, .handleConnect, .post (.write oneByteMessage),
        .post (.write ⟨bytes "   1b", 1⟩), .post .close, .runPosted, .writeDone 0 true,
        .runPosted]).map (fun r => (r.1.posted, r.1.closed, transferredMsgs r.2)) =
          some ([.close], false, [oneByteMessage]) := by decide +kernel
  obtain ⟨⟨c, out⟩, hrun, hout⟩ := Option.map_eq_some_iff.mp hrun
  obtain ⟨hposted, hclosed, hfirst⟩ : c.posted = [.close] ∧ c.closed = false ∧
      transferredMsgs out = [oneByteMessage] := by simpa using hout
  exact ⟨c, out, hrun, hposted, hclosed, by rw [hfirst]; decide⟩

/-! ## On what sockets writes are started -/

/-- Every `async_write` that the event starts is started on a connected and open socket. -/
def StartsOnUsableSocket (c : ClientState) (e : ClientEvent) : Prop :=
  ∀ c' o, c.step e = some (c', o) → ∀ msg, .write (.started msg) ∈ o →
    c.connected = true ∧ c.closed = false

/-- The handler of `write(msg)` runs after the connection was made, and if the socket has been
closed the deque is not empty; the handler of a successful write does not find a further message
when the socket has been closed. -/
def RunsInTime (c : ClientState) (e : ClientEvent) : Prop :=
  match e with
  | .runPosted => ∀ msg rest, c.posted = .write msg :: rest →
      c.connected = true ∧ (c.closed = true → c.writeMsgs.queue ≠ [])
  | .handleWrite k => c.closed = true → c.writeResults[k]? = some (some true) →
      c.writeMsgs.queue.length ≤ 1
  | _ => True

/-- What is known about a client whose writes have all been started in time: its invariant, and that
nothing is queued before the connection is there. -/
def ClientState.InTime (c : ClientState) : Prop :=
  (∃ events out, c.Inv events out) ∧ (c.connected = false → c.writeMsgs.queue = [])

/-- A message that is queued is written at once exactly if the deque was empty. -/
lemma started_mem_writePosted {q : WriteQueue} (msg : ChatMessage) :
    (∃ m, .started m ∈ (ChatClient.writePosted q msg).2) ↔ q.queue = [] := by
  unfold ChatClient.writePosted SingleWriter.Writer.enqueue SingleWriter.Writer.start
  cases hq : q.queue with
  | nil => simp
  | cons m ms => simp

/-- The handler of a write starts another one exactly if the write has succeeded and a further
message is queued. -/
lemma started_mem_writeStep {q q' : WriteQueue} {msg : ChatMessage} {ms : List ChatMessage}
    {ok : Bool} {wout : List WriteOutput} (hflight : q.inFlight = [msg])
    (hqueue : q.queue = msg :: ms)
    (hstep : ChatClient.writeStep q (.complete 0 ok) = some (q', wout)) :
    (∃ m, .started m ∈ wout) ↔ ok = true ∧ ms ≠ [] := by
  rw [ChatClient.writeStep_eq, SingleWriter.step, hflight] at hstep
  cases hstep
  cases ok with
  | true =>
    cases ms with
    | nil => simp [SingleWriter.Writer.completed, SingleWriter.Writer.popFront, hqueue]
    | cons m ms =>
      simp [SingleWriter.Writer.completed, SingleWriter.Writer.popFront, hqueue,
        SingleWriter.Writer.start]
  | false => simp [SingleWriter.Writer.completed]

/-- Closing the socket on an error starts no write. -/
lemma closeIf_spec (c : ClientState) (error : Bool) :
    (c.closeIf error).1.writeMsgs = c.writeMsgs ∧ (c.closeIf error).1.connected = c.connected ∧
      ∀ m, .write (.started m) ∉ (c.closeIf error).2 := by
  unfold ClientState.closeIf
  cases error <;> simp [ClientState.closeSocket]

/-- The events that may start a write. -/
inductive WriteCase (c c' : ClientState) (e : ClientEvent) (o : List ClientOutput) : Prop where
  /-- The handler of `write(msg)` runs. -/
  | posted (msg : ChatMessage) (rest : List Posted) (he : e = .runPosted)
      (hposted : c.posted = .write msg :: rest) (hconnected : c'.connected = c.connected)
      (hstarted : (∃ m, .write (.started m) ∈ o) ↔ c.writeMsgs.queue = [])
  /-- The handler of the only outstanding write runs. -/
  | handled (k : ℕ) (ok : Bool) (msg : ChatMessage) (ms : List ChatMessage)
      (he : e = .handleWrite k) (hk : c.writeResults[k]? = some (some ok))
      (hqueue : c.writeMsgs.queue = msg :: ms) (hconnected : c'.connected = c.connected)
      (hstarted : (∃ m, .write (.started m) ∈ o) ↔ ok = true ∧ ms ≠ [])
  /-- Nothing happens on the write side. -/
  | other (hmsgs : c'.writeMsgs = c.writeMsgs) (hconnected : c'.connected = false →
      c.connected = false) (hstarted : ∀ m, .write (.started m) ∉ o)
      (hcond : RunsInTime c e)

/-- Every event is of one of these kinds. -/
lemma ClientState.Inv.writeCase {c c' : ClientState} {events : List ClientEvent}
    {out o : List ClientOutput} {e : ClientEvent} (h : c.Inv events out)
    (hstep : c.step e = some (c', o)) : WriteCase c c' e o := by
  cases e with
  | post p =>
    cases hstep
    exact .other rfl id (by simp) trivial
  | runPosted =>
    rcases ClientState.step_runPosted hstep with
      ⟨msg, rest, hposted, rfl, rfl⟩ | ⟨rest, hposted, rfl, rfl⟩
    · refine .posted msg rest rfl hposted rfl ?_
      rw [← started_mem_writePosted msg]
      simp [ClientState.writeHandler]
    · refine .other rfl id (by simp) ?_
      intro msg rest' heq
      rw [hposted] at heq
      cases heq
  | connectDone ok =>
    obtain ⟨hconnect, heq⟩ := Option.ite_none_right_eq_some.mp hstep
    cases heq
    exact .other rfl (fun _ => h.connecting hconnect) (by simp) trivial
  | handleConnect =>
    rw [ClientState.step] at hstep
    split at hstep
    · cases hstep
      exact .other rfl id (by simp) trivial
    · cases hstep
      exact .other rfl id (by simp) trivial
    · cases hstep
  | readDone ok data =>
    obtain ⟨-, heq⟩ := Option.ite_none_right_eq_some.mp hstep
    cases heq
    exact .other rfl id (by simp) trivial
  | handleRead =>
    simp only [ClientState.step, Option.bind_eq_bind, Option.bind_eq_some_iff] at hstep
    obtain ⟨⟨ok, data⟩, hresult, heq⟩ := hstep
    cases heq
    obtain ⟨hmsgs, hconnected, hnone⟩ := closeIf_spec
      (if decide (ReadOutput.reacted .socketClose ∈ (ChatClient.readHandler c.readLoop ok data).2)
        then
          { c with readLoop := (ChatClient.readHandler c.readLoop ok data).1, readResult := none }
        else ClientState.startRead
          { c with readLoop := (ChatClient.readHandler c.readLoop ok data).1, readResult := none })
      (decide (ReadOutput.reacted .socketClose ∈ (ChatClient.readHandler c.readLoop ok data).2))
    refine .other (hmsgs.trans ?_) (fun hnot => ?_) (fun m hmem => ?_) trivial
    · split <;> rfl
    · rw [← hnot, hconnected]
      split <;> rfl
    · rcases List.mem_append.mp hmem with hmem | hmem
      · simp at hmem
      · exact hnone m hmem
  | writeDone k ok =>
    simp only [ClientState.step, Option.bind_eq_bind, Option.bind_eq_some_iff] at hstep
    obtain ⟨msg, hmsg, hstep⟩ := hstep
    obtain ⟨-, heq⟩ := Option.ite_none_right_eq_some.mp hstep
    cases heq
    exact .other rfl id (by cases ok <;> simp) trivial
  | handleWrite k =>
    simp only [ClientState.step, Option.bind_eq_bind, Option.bind_eq_some_iff] at hstep
    obtain ⟨result, hk, ok, rfl, ⟨q, wout⟩, hwrite, heq⟩ := hstep
    cases heq
    obtain ⟨rfl, -, msg, ms, hflight, hqueue, -⟩ := h.of_writeResults hk
    obtain ⟨-, hconnected, hnone⟩ := closeIf_spec
      (c.setWrites q wout (c.writeResults.eraseIdx 0)) (SingleWriter.hasFailed wout)
    refine .handled 0 ok msg ms rfl hk hqueue hconnected ?_
    rw [← started_mem_writeStep hflight hqueue hwrite]
    simp only [List.mem_append, hnone, or_false, List.mem_map, ClientOutput.write.injEq,
      exists_eq_right]

/-- In a state in which all writes have been started in time, the two conditions are the same. -/
lemma ClientState.InTime.startsOnUsableSocket_iff {c c' : ClientState} {e : ClientEvent}
    {o : List ClientOutput} (h : c.InTime) (hstep : c.step e = some (c', o)) :
    StartsOnUsableSocket c e ↔ RunsInTime c e := by
  obtain ⟨⟨events, out, hinv⟩, hempty⟩ := h
  have hstarts : StartsOnUsableSocket c e ↔
      ((∃ m, .write (.started m) ∈ o) → c.connected = true ∧ c.closed = false) := by
    constructor
    · rintro hall ⟨m, hm⟩
      exact hall c' o hstep m hm
    · intro hall c'' o'' hstep'' m hm
      rw [hstep] at hstep''
      cases hstep''
      exact hall ⟨m, hm⟩
  rw [hstarts]
  rcases hinv.writeCase hstep with ⟨msg, rest, rfl, hposted, -, hstarted⟩ |
    ⟨k, ok, msg, ms, rfl, hk, hqueue, -, hstarted⟩ | ⟨-, -, hstarted, hcond⟩
  · rw [hstarted]
    constructor
    · intro hall msg' rest' _
      have hconnected : c.connected = true := by
        rw [← Bool.not_eq_false]
        intro hnot
        rw [(hall (hempty hnot)).1] at hnot
        cases hnot
      refine ⟨hconnected, fun hclosed hnil => ?_⟩
      rw [(hall hnil).2] at hclosed
      cases hclosed
    · intro hall hnil
      obtain ⟨hconnected, hclosed⟩ := hall msg rest hposted
      exact ⟨hconnected, Bool.not_eq_true _ ▸ fun hc => hclosed hc hnil⟩
  · rw [hstarted]
    have hlen : c.writeMsgs.queue.length ≤ 1 ↔ ms = [] := by
      rw [hqueue, List.length_cons, ← List.length_eq_zero_iff]
      omega
    rw [RunsInTime, hk, hlen]
    constructor
    · intro hall hclosed hok
      by_contra hne
      have hok' : ok = true := Option.some.inj (Option.some.inj hok)
      rw [(hall ⟨hok', hne⟩).2] at hclosed
      cases hclosed
    · rintro hall ⟨rfl, hne⟩
      exact ⟨hinv.finished_connected (List.mem_of_getElem? hk),
        Bool.not_eq_true _ ▸ fun hc => hne (hall hc rfl)⟩
  · exact iff_of_true (fun ⟨m, hm⟩ => absurd hm (hstarted m)) hcond

/-- An event that starts no write too early keeps all writes in time. -/
lemma ClientState.InTime.step {c c' : ClientState} {e : ClientEvent} {o : List ClientOutput}
    (h : c.InTime) (hstarts : StartsOnUsableSocket c e) (hstep : c.step e = some (c', o)) :
    c'.InTime := by
  obtain ⟨⟨events, out, hinv⟩, hempty⟩ := h
  refine ⟨⟨_, _, hinv.step hstep⟩, fun hnot => ?_⟩
  rcases hinv.writeCase hstep with ⟨msg, rest, -, -, hconnected, hstarted⟩ |
    ⟨k, ok, msg, ms, -, -, hqueue, hconnected, -⟩ | ⟨hmsgs, hconnected, -, -⟩
  · -- the deque was empty, so that the write was started before the connection was there
    rw [hconnected] at hnot
    obtain ⟨m, hm⟩ := hstarted.mpr (hempty hnot)
    rw [(hstarts c' o hstep m hm).1] at hnot
    cases hnot
  · rw [hconnected] at hnot
    rw [hempty hnot] at hqueue
    cases hqueue
  · rw [hmsgs]
    exact hempty (hconnected hnot)

/-- **On what sockets writes are started.**  In every run, with any calls of the input thread and in
any order of handlers, completions and errors: every write is started after the connection was made
and before the socket was closed, if and only if no handler of `write(msg)` runs before the
connection was made, and after the socket was closed none of them finds the deque empty and no
handler of a successful write finds a further message in it. -/
theorem writes_usable_iff (content : Bytes) (events : List ClientEvent) (c : ClientState)
    (out : List ClientOutput)
    (hrun : Machine.run ClientState.step (ClientState.new content) events = some (c, out)) :
    Machine.AtEach ClientState.step StartsOnUsableSocket (ClientState.new content) events ↔
      Machine.AtEach ClientState.step RunsInTime (ClientState.new content) events := by
  have hinit : (ClientState.new content).InTime := ⟨⟨[], [], clientInv_new content⟩, fun _ => rfl⟩
  exact Machine.atEach_congr (fun _ _ _ _ h hstarts hstep => h.step hstarts hstep)
    (fun _ _ _ _ h hstep => h.startsOnUsableSocket_iff hstep) hrun hinit

/-- A message that is written over a connection which is there. -/
theorem writes_usable_iff_connected :
    Machine.AtEach ClientState.step StartsOnUsableSocket (ClientState.new [])
        [.connectDone true, .handleConnect, .post (.write oneByteMessage), .runPosted] ↔
      Machine.AtEach ClientState.step RunsInTime (ClientState.new [])
        [.connectDone true, .handleConnect, .post (.write oneByteMessage), .runPosted] := by
  have hrun : (Machine.run ClientState.step (ClientState.new [])
      [.connectDone true, .handleConnect, .post (.write oneByteMessage), .runPosted]).isSome := by
    decide +kernel
  obtain ⟨⟨c, out⟩, hrun⟩ := Option.isSome_iff_exists.mp hrun
  exact writes_usable_iff [] _ c out hrun

/-- A line is entered before the connection is there: its write is started at once. -/
theorem write_before_connection :
    ∃ c o, (ClientState.new []).step (.post (.write oneByteMessage)) = some (c, []) ∧
      c.step .runPosted = some o ∧ .write (.started oneByteMessage) ∈ o.2 ∧
      c.connected = false :=
  ⟨_, _, rfl, rfl, by decide +kernel, rfl⟩

end Chat

end AsioStudy
