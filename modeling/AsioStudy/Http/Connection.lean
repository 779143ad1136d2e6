import AsioStudy.Foundation.Machine
import AsioStudy.Http.RequestHandler
import AsioStudy.Http.RequestParser

/-!
# Connections

The class `connection` of `http_server1` and of `http_server2`.  The two classes read, parse and
write in the same way and differ in what their handlers do on errors and after a write.

A handler is a function from the connection and the arguments of the handler to the connection
afterwards and the actions it performs.  A `Session` is a connection together with the operation it
has outstanding; its events are the completions of that operation.  The main result of the file is
that everything a connection of `http_server1` ever sends is a correctly framed reply
(`sent_isFramed`).
-/

namespace AsioStudy

namespace Http

/-! ## The class -/

/-- The error code that a completion handler receives, as far as the handlers look at it. -/
inductive ErrorCode where
  | success
  | operationAborted
  | other
  deriving DecidableEq, Repr

/-- An asynchronous operation on the socket of a connection: a read into `buffer_`, or a write of
the buffers of a reply, given by their bytes. -/
inductive Operation where
  | asyncReadSome
  | asyncWrite (buffers : Bytes)
  deriving DecidableEq, Repr

/-- What a handler does besides changing its connection: it starts an operation, shuts the socket
down, or calls `connection_manager_.stop` on the connection. -/
inductive Action where
  | start (op : Operation)
  | shutdown
  | managerStop
  deriving DecidableEq, Repr

/-- A single connection from a client, `class connection`. -/
structure Connection where
  /-- Buffer for incoming data. -/
  buffer : Bytes
  /-- The incoming request. -/
  request : Request
  /-- The parser for the incoming request. -/
  requestParser : RequestParser
  /-- The reply to be sent back to the client. -/
  reply : Reply
  deriving DecidableEq, Repr

/-- A new connection.  Its buffer is not initialised, hence the bytes in it are given. -/
def Connection.fresh (buffer : Bytes) : Connection :=
  ⟨buffer, Request.empty, RequestParser.fresh, Reply.empty⟩

/-- The data of a read arrive in the buffer. -/
def Connection.fill (c : Connection) (data : Bytes) : Connection :=
  { c with buffer := overwrite c.buffer 0 data }

/-- How the handler in `do_read` goes on after the call of `parse`: it calls `do_write` with the
reply to the request or with a rejection, or it calls `do_read` again. -/
def Connection.proceed (docRoot : Bytes) (fs : FileSystem) (c : Connection) (o : ParseOutcome) :
    Connection × Operation :=
  let c := { c with request := o.request, requestParser := o.parser }
  match o.result with
  | .good =>
    let c := { c with reply := (handleRequest docRoot fs c.request c.reply).rep }
    (c, .asyncWrite c.reply.wire)
  | .bad =>
    let c := { c with reply := stockReply .badRequest }
    (c, .asyncWrite c.reply.wire)
  | .indeterminate => (c, .asyncReadSome)

/-- The branch `!ec` of the handler in `do_read`. -/
def Connection.received (docRoot : Bytes) (fs : FileSystem) (c : Connection)
    (bytesTransferred : ℕ) : Connection × Operation :=
  c.proceed docRoot fs (c.requestParser.parse c.request (c.buffer.take bytesTransferred))

/-- The parser sees the data that have just arrived. -/
lemma received_fill (docRoot : Bytes) (fs : FileSystem) (c : Connection) (data : Bytes) :
    (c.fill data).received docRoot fs data.length =
      (c.fill data).proceed docRoot fs (c.requestParser.parse c.request data) := by
  have htake : (c.fill data).buffer.take data.length = data :=
    take_drop_overwrite (Nat.zero_le _) data
  rw [Connection.received, htake]
  rfl

/-- The reply and the operation after a call of `parse`: the connection reads on with the reply it
had, or it writes the reply it has composed. -/
lemma proceed_cases (docRoot : Bytes) (fs : FileSystem) (c : Connection) (o : ParseOutcome) :
    (o.result = .indeterminate ∧ (c.proceed docRoot fs o).2 = .asyncReadSome ∧
        (c.proceed docRoot fs o).1.reply = c.reply) ∨
      (o.result ≠ .indeterminate ∧
        (c.proceed docRoot fs o).2 = .asyncWrite (c.proceed docRoot fs o).1.reply.wire ∧
        ((c.proceed docRoot fs o).1.reply = (handleRequest docRoot fs o.request c.reply).rep ∨
          (c.proceed docRoot fs o).1.reply = stockReply .badRequest)) := by
  unfold Connection.proceed
  cases o.result with
  | good => exact Or.inr ⟨by decide, rfl, Or.inl rfl⟩
  | bad => exact Or.inr ⟨by decide, rfl, Or.inr rfl⟩
  | indeterminate => exact Or.inl ⟨rfl, rfl, rfl⟩

/-- The request of the connection is the one that `parse` leaves. -/
@[simp] lemma request_proceed (docRoot : Bytes) (fs : FileSystem) (c : Connection)
    (o : ParseOutcome) : (c.proceed docRoot fs o).1.request = o.request := by
  unfold Connection.proceed
  cases o.result <;> rfl

/-- The parser of the connection is the one that `parse` leaves. -/
@[simp] lemma requestParser_proceed (docRoot : Bytes) (fs : FileSystem) (c : Connection)
    (o : ParseOutcome) : (c.proceed docRoot fs o).1.requestParser = o.parser := by
  unfold Connection.proceed
  cases o.result <;> rfl

namespace Server1

/-- The handler of the read in `do_read` of `http_server1`. -/
def readHandler (docRoot : Bytes) (fs : FileSystem) (c : Connection) (ec : ErrorCode)
    (bytesTransferred : ℕ) : Connection × List Action :=
  if ec = .success then
    ((c.received docRoot fs bytesTransferred).1,
      [.start (c.received docRoot fs bytesTransferred).2])
  else if ec ≠ .operationAborted then (c, [.managerStop])
  else (c, [])

/-- The handler of the write in `do_write` of `http_server1`. -/
def writeHandler (ec : ErrorCode) : List Action :=
  (if ec = .success then [.shutdown] else []) ++
    (if ec ≠ .operationAborted then [.managerStop] else [])

end Server1

namespace Server2

/-- The handler of the read in `do_read` of `http_server2`. -/
def readHandler (docRoot : Bytes) (fs : FileSystem) (c : Connection) (ec : ErrorCode)
    (bytesTransferred : ℕ) : Connection × List Action :=
  if ec = .success then
    ((c.received docRoot fs bytesTransferred).1,
      [.start (c.received docRoot fs bytesTransferred).2])
  else (c, [])

/-- The handler of the write in `do_write` of `http_server2`. -/
def writeHandler (ec : ErrorCode) : List Action :=
  if ec = .success then [.shutdown] else []

end Server2

/-! ## Sessions -/

/-- The completion of an operation: a read with an error code and the bytes it delivered, or a
write with an error code. -/
inductive Completion where
  | read (ec : ErrorCode) (data : Bytes)
  | write (ec : ErrorCode)
  deriving DecidableEq, Repr

/-- What a read can deliver: between one byte and a full buffer when it succeeds, nothing when it
fails. -/
def IsReadResult (ec : ErrorCode) (data : Bytes) : Prop :=
  if ec = .success then 1 ≤ data.length ∧ data.length ≤ 8192 else data = []

instance (ec : ErrorCode) (data : Bytes) : Decidable (IsReadResult ec data) := by
  unfold IsReadResult
  infer_instance

/-- A connection with the operation it has outstanding. -/
structure Session where
  /-- The connection. -/
  connection : Connection
  /-- The operation that was started and whose handler has not run. -/
  outstanding : Option Operation
  deriving DecidableEq, Repr

/-- The operation that a list of actions starts. -/
def startedOperation (actions : List Action) : Option Operation :=
  actions.findSome? fun a =>
    match a with
    | .start op => some op
    | _ => none

/-- `start()` of a new connection: the first read is outstanding. -/
def Session.started (buffer : Bytes) : Session := ⟨Connection.fresh buffer, some .asyncReadSome⟩

/-- The outstanding operation completes and its handler runs; `readHandler` and `writeHandler` are
the handlers of the class. -/
def Session.step (readHandler : Connection → ErrorCode → ℕ → Connection × List Action)
    (writeHandler : ErrorCode → List Action) (s : Session) (e : Completion) :
    Option (Session × List Action) :=
  match s.outstanding, e with
  | some .asyncReadSome, .read ec data =>
    if IsReadResult ec data then
      let r := readHandler (s.connection.fill data) ec data.length
      some (⟨r.1, startedOperation r.2⟩, r.2)
    else none
  | some (.asyncWrite _), .write ec =>
    some (⟨s.connection, startedOperation (writeHandler ec)⟩, writeHandler ec)
  | _, _ => none

/-- One event of a connection of `http_server1`. -/
def Server1.sessionStep (docRoot : Bytes) (fs : FileSystem) :
    Session → Completion → Option (Session × List Action) :=
  Session.step (Server1.readHandler docRoot fs) Server1.writeHandler

/-- One event of a connection of `http_server2`. -/
def Server2.sessionStep (docRoot : Bytes) (fs : FileSystem) :
    Session → Completion → Option (Session × List Action) :=
  Session.step (Server2.readHandler docRoot fs) Server2.writeHandler

/-- What a session step is: the handler of the outstanding read runs after the data have arrived,
or the handler of the outstanding write. -/
lemma Session.step_cases {readHandler : Connection → ErrorCode → ℕ → Connection × List Action}
    {writeHandler : ErrorCode → List Action} {s s' : Session} {e : Completion}
    {out : List Action} (h : s.step readHandler writeHandler e = some (s', out)) :
    (∃ ec data, s.outstanding = some .asyncReadSome ∧ e = .read ec data ∧ IsReadResult ec data ∧
        s' = ⟨(readHandler (s.connection.fill data) ec data.length).1, startedOperation out⟩ ∧
        out = (readHandler (s.connection.fill data) ec data.length).2) ∨
      ∃ buffers ec, s.outstanding = some (.asyncWrite buffers) ∧ e = .write ec ∧
        s' = ⟨s.connection, startedOperation out⟩ ∧ out = writeHandler ec := by
  unfold Session.step at h
  split at h
  · rename_i ec data hout
    split at h
    · rename_i hread
      cases h
      exact Or.inl ⟨ec, data, hout, rfl, hread, rfl, rfl⟩
    · cases h
  · rename_i buffers ec hout
    cases h
    exact Or.inr ⟨buffers, ec, hout, rfl, rfl, rfl⟩
  · cases h

/-- The outstanding read completes: its handler sees the data in the buffer. -/
lemma Session.step_read (readHandler : Connection → ErrorCode → ℕ → Connection × List Action)
    (writeHandler : ErrorCode → List Action) {s : Session} {ec : ErrorCode} {data : Bytes}
    (hout : s.outstanding = some .asyncReadSome) (hread : IsReadResult ec data) :
    s.step readHandler writeHandler (.read ec data) =
      let r := readHandler (s.connection.fill data) ec data.length
      some (⟨r.1, startedOperation r.2⟩, r.2) := by
  unfold Session.step
  simp only [hout, if_pos hread]

/-- A successful read of a connection of `http_server2`. -/
lemma Server2.sessionStep_read (docRoot : Bytes) (fs : FileSystem) {s : Session} {data : Bytes}
    (hout : s.outstanding = some .asyncReadSome) (hread : IsReadResult .success data) :
    Server2.sessionStep docRoot fs s (.read .success data) =
      let r := (s.connection.fill data).proceed docRoot fs
        (s.connection.requestParser.parse s.connection.request data)
      some (⟨r.1, some r.2⟩, [.start r.2]) := by
  unfold Server2.sessionStep
  rw [Session.step_read _ _ hout hread]
  simp only [Server2.readHandler, if_true, received_fill]
  rfl

/-- A failed read of a connection of `http_server2` ends it. -/
lemma Server2.sessionStep_read_error (docRoot : Bytes) (fs : FileSystem) {s : Session}
    {ec : ErrorCode} {data : Bytes} (hout : s.outstanding = some .asyncReadSome)
    (hread : IsReadResult ec data) (hec : ec ≠ .success) :
    Server2.sessionStep docRoot fs s (.read ec data) =
      some (⟨s.connection.fill data, none⟩, []) := by
  unfold Server2.sessionStep
  rw [Session.step_read _ _ hout hread]
  simp only [Server2.readHandler, if_neg hec]
  rfl

/-- The end of the write ends a connection of `http_server2`, which shuts the socket down if the
write has succeeded. -/
lemma Server2.sessionStep_write (docRoot : Bytes) (fs : FileSystem) {s : Session} {buffers : Bytes}
    (hout : s.outstanding = some (.asyncWrite buffers)) (ec : ErrorCode) :
    Server2.sessionStep docRoot fs s (.write ec) =
      some (⟨s.connection, none⟩, if ec = .success then [.shutdown] else []) := by
  unfold Server2.sessionStep Session.step
  simp only [hout, Server2.writeHandler]
  split <;> rfl

/-! ## Framing of the replies -/

/-- A byte string is a correctly framed reply: a status line of 200, 400 or 404, exactly the two
header lines `Content-Length` and `Content-Type`, an empty line and a body.  The type is one of the
fixed table or `text/plain`, the length is the one of the body, and the first empty line is the one
before the body. -/
structure IsFramed (out : Bytes) (status : StatusType) (type body : Bytes) : Prop where
  /-- The reply is an answer, a rejection or a failure to find the file. -/
  status_mem : status ∈ [StatusType.ok, .badRequest, .notFound]
  /-- The type is known. -/
  type_mem : type ∈ bytes "text/plain" :: mappings.map Prod.snd
  /-- The lines of the head, the empty line and the body. -/
  layout : out = statusString status ++ (bytes "Content-Length: " ++ decimal body.length ++
    crlfBytes) ++ (bytes "Content-Type: " ++ type ++ crlfBytes) ++ crlfBytes ++ body
  /-- The announced length is the number of bytes after the first empty line, and these bytes are
  the body. -/
  body_eq : ∃ pos, find out blankLine = some pos ∧ out.drop (pos + 4) = body ∧
    decimalValue (decimal body.length) = (out.drop (pos + 4)).length

/-- None of the types contains a carriage return. -/
lemma cr_notMem_of_mem_types {type : Bytes}
    (h : type ∈ bytes "text/plain" :: mappings.map Prod.snd) : ch '\r' ∉ type := by
  have hall : ∀ t ∈ bytes "text/plain" :: mappings.map Prod.snd, ch '\r' ∉ t := by decide
  exact hall type h

/-- A reply with the two usual header lines is correctly framed. -/
lemma isFramed_wire {status : StatusType} {type : Bytes} (content : Bytes)
    (hstatus : status ∈ [StatusType.ok, .badRequest, .notFound])
    (htype : type ∈ bytes "text/plain" :: mappings.map Prod.snd) :
    IsFramed (Reply.wire ⟨some status, contentHeaders content.length type, content⟩) status type
      content := by
  have hdrop : (Reply.wire ⟨some status, contentHeaders content.length type, content⟩).drop
      ((headText status content.length type).length + 4) = content := by
    have hlen : (headText status content.length type ++ blankLine).length =
        (headText status content.length type).length + 4 := by
      rw [List.length_append]
      rfl
    rw [wire_eq_headText, ← hlen, List.drop_left]
  refine ⟨hstatus, htype, wire_contentHeaders _ _ _ _, _,
    find_blankLine_wire _ _ (cr_notMem_of_mem_types htype) _, hdrop, ?_⟩
  rw [hdrop, decimalValue_decimal]

/-- What a connection may send in answer to a request: a correctly framed reply whose body is the
whole file that the handler opened for this request, or a stock page. -/
def IsAnswer (docRoot : Bytes) (files : Bytes → Option Bytes) (req : Request) (out : Bytes) :
    Prop :=
  ∃ status type body, IsFramed out status type body ∧
    ((status = .ok ∧ ∃ path,
        (handleRequest docRoot (readableFiles files) req Reply.empty).opened = some path ∧
        files path = some body) ∨
      (status ≠ .ok ∧ body = stockContent status))

/-- The reply that rejects a request is an answer to any request. -/
lemma isAnswer_stockReply (docRoot : Bytes) (files : Bytes → Option Bytes) (req : Request)
    {status : StatusType} (h : status ∈ [StatusType.badRequest, .notFound]) :
    IsAnswer docRoot files req (stockReply status).wire := by
  have hstatus : status ∈ [StatusType.ok, .badRequest, .notFound] := List.mem_cons_of_mem _ h
  have hok : status ≠ .ok := by
    intro hok
    rw [hok] at h
    revert h
    decide
  exact ⟨status, bytes "text/html", stockContent status, isFramed_wire _ hstatus (by decide),
    Or.inr ⟨hok, rfl⟩⟩

/-- What the request handler puts into an empty reply is an answer to its request. -/
lemma isAnswer_handleRequest (docRoot : Bytes) (files : Bytes → Option Bytes) (req : Request) :
    IsAnswer docRoot files req
      (handleRequest docRoot (readableFiles files) req Reply.empty).rep.wire := by
  rcases handleRequest_cases docRoot (readableFiles files) req Reply.empty with
    h | ⟨requestPath, path, -, -, -, ⟨-, h⟩ | ⟨file, hfile, h⟩⟩
  · rw [h]
    exact isAnswer_stockReply docRoot files req (by decide)
  · rw [h]
    exact isAnswer_stockReply docRoot files req (by decide)
  · obtain ⟨content, hcontent, rfl⟩ : ∃ content, files path = some content ∧
        ⟨content, none⟩ = file := by
      simpa [readableFiles] using hfile
    have hread : readContent (OpenFile.stream ⟨content, none⟩) Reply.empty.content = content := by
      rw [OpenFile.stream, readContent_readable]
      rfl
    rw [hread] at h
    refine ⟨.ok, extensionToType (pathExtension (servedPath requestPath)), content, ?_,
      Or.inl ⟨rfl, path, by rw [h], hcontent⟩⟩
    rw [h]
    exact isFramed_wire content (by decide) (extensionToType_mem _)

/-- While a connection reads, its reply is untouched and it has sent nothing; whatever it has sent
is an answer to the request it has parsed. -/
def Session.Answered (docRoot : Bytes) (files : Bytes → Option Bytes) (s : Session)
    (actions : List Action) : Prop :=
  (s.outstanding = some .asyncReadSome →
      s.connection.reply = Reply.empty ∧ ∀ out, .start (.asyncWrite out) ∉ actions) ∧
    ∀ out, .start (.asyncWrite out) ∈ actions → IsAnswer docRoot files s.connection.request out

/-- A connection whose reply is untouched goes on reading with it, or it writes an answer to the
request it has parsed. -/
lemma proceed_answers (docRoot : Bytes) (files : Bytes → Option Bytes) {c : Connection}
    (hreply : c.reply = Reply.empty) (o : ParseOutcome) :
    ((c.proceed docRoot (readableFiles files) o).2 = .asyncReadSome ∧
        (c.proceed docRoot (readableFiles files) o).1.reply = Reply.empty) ∨
      ∃ out, (c.proceed docRoot (readableFiles files) o).2 = .asyncWrite out ∧
        IsAnswer docRoot files (c.proceed docRoot (readableFiles files) o).1.request out := by
  rw [request_proceed]
  rcases proceed_cases docRoot (readableFiles files) c o with
    ⟨-, hop, hrep⟩ | ⟨-, hop, hrep | hrep⟩
  · exact Or.inl ⟨hop, hrep.trans hreply⟩
  · refine Or.inr ⟨_, hop, ?_⟩
    rw [hrep, hreply]
    exact isAnswer_handleRequest docRoot files o.request
  · refine Or.inr ⟨_, hop, ?_⟩
    rw [hrep]
    exact isAnswer_stockReply docRoot files o.request (by decide)

/-- The handler of a write starts nothing. -/
lemma Server1.start_notMem_writeHandler (ec : ErrorCode) (op : Operation) :
    Action.start op ∉ Server1.writeHandler ec := by
  cases ec <;> simp [Server1.writeHandler]

/-- Every step keeps the answers right. -/
lemma Session.Answered.step {docRoot : Bytes} {files : Bytes → Option Bytes} {s s' : Session}
    {actions out : List Action} {e : Completion} (h : s.Answered docRoot files actions)
    (hstep : Server1.sessionStep docRoot (readableFiles files) s e = some (s', out)) :
    s'.Answered docRoot files (actions ++ out) := by
  rcases Session.step_cases hstep with
    ⟨ec, data, hread, -, -, rfl, rfl⟩ | ⟨buffers, ec, hwrite, -, rfl, rfl⟩
  · obtain ⟨hreply, hnone⟩ := h.1 hread
    unfold Server1.readHandler
    split
    · -- the data were parsed
      rw [received_fill]
      rcases proceed_answers docRoot files (c := s.connection.fill data) hreply
        (s.connection.requestParser.parse s.connection.request data) with
        ⟨hop, hrep⟩ | ⟨sent, hop, hanswer⟩
      · rw [hop]
        have hnone' : ∀ out, Action.start (.asyncWrite out) ∉
            actions ++ [.start .asyncReadSome] := by
          intro out hmem
          rcases List.mem_append.mp hmem with hmem | hmem
          · exact hnone out hmem
          · simp at hmem
        exact ⟨fun _ => ⟨hrep, hnone'⟩, fun out hmem => absurd hmem (hnone' out)⟩
      · rw [hop]
        refine ⟨fun hout => by simp [startedOperation] at hout, fun out hmem => ?_⟩
        rcases List.mem_append.mp hmem with hmem | hmem
        · exact absurd hmem (hnone out)
        · have hsent : out = sent := by simpa using hmem
          rw [hsent]
          exact hanswer
    · -- the read failed
      have hnone' : ∀ out (l : List Action), l = [.managerStop] ∨ l = [] →
          Action.start (.asyncWrite out) ∉ actions ++ l := by
        intro out l hl hmem
        rcases List.mem_append.mp hmem with hmem | hmem
        · exact hnone out hmem
        · rcases hl with rfl | rfl <;> simp at hmem
      split
      · exact ⟨fun hout => by simp [startedOperation] at hout,
          fun out hmem => absurd hmem (hnone' out _ (Or.inl rfl))⟩
      · exact ⟨fun hout => by simp [startedOperation] at hout,
          fun out hmem => absurd hmem (hnone' out _ (Or.inr rfl))⟩
  · -- the write is over
    have hmem : ∀ out, Action.start (.asyncWrite out) ∈ actions ++ Server1.writeHandler ec →
        Action.start (.asyncWrite out) ∈ actions := by
      intro out hmem
      rcases List.mem_append.mp hmem with hmem | hmem
      · exact hmem
      · exact absurd hmem (Server1.start_notMem_writeHandler ec _)
    refine ⟨fun hout => ?_, fun out hstart => h.2 out (hmem out hstart)⟩
    cases ec <;> simp [startedOperation, Server1.writeHandler] at hout

/-- **Everything a connection sends is a correctly framed reply.**  For every document root, every
map from C-string paths to contents, and every run of a connection of `http_server1` from its
start, whatever bytes arrive and however they are cut into reads: each write that the connection
starts is a correctly framed reply whose body is the whole file that was opened for the parsed
request, or a stock page. -/
theorem sent_isFramed (docRoot : Bytes) (files : Bytes → Option Bytes) (buffer : Bytes)
    (events : List Completion) (s : Session) (actions : List Action)
    (hrun : Machine.run (Server1.sessionStep docRoot (readableFiles files))
      (Session.started buffer) events = some (s, actions))
    (out : Bytes) (hsent : .start (.asyncWrite out) ∈ actions) :
    ∃ status type body, IsFramed out status type body ∧
      ((status = .ok ∧ ∃ path,
          (handleRequest docRoot (readableFiles files) s.connection.request Reply.empty).opened =
            some path ∧ files path = some body) ∨
        (status ≠ .ok ∧ body = stockContent status)) := by
  have hanswered : s.Answered docRoot files actions := by
    refine Machine.run_history (I := fun s _ o => s.Answered docRoot files o) hrun ?_ ?_
    · refine ⟨fun _ => ⟨rfl, by simp⟩, by simp⟩
    · intro s s' e es o o' h hstep
      exact h.step hstep
  exact hanswered.2 out hsent

/-- A directory with one file, which does not fit into the buffer through which it is read. -/
def longFile (path : Bytes) : Option Bytes :=
  if path = bytes "/srv/a" then some (List.replicate 600 (ch 'x')) else none

/-- The request for the file is received in two reads, and the whole file is sent. -/
theorem sent_isFramed_longFile :
    ∃ s actions, Machine.run (Server1.sessionStep (bytes "/srv") (readableFiles longFile))
        (Session.started []) [.read .success (bytes "GET /a HTT"),
          .read .success (bytes "P/1.0\r\n\r\n")] = some (s, actions) ∧
      ∃ status type body, IsFramed (bytes "HTTP/1.0 200 OK\r\nContent-Length: 600\r\n" ++
          (bytes "Content-Type: text/plain\r\n\r\n" ++ List.replicate 600 (ch 'x')))
          status type body ∧
        ((status = .ok ∧ ∃ path,
            (handleRequest (bytes "/srv") (readableFiles longFile) s.connection.request
              Reply.empty).opened = some path ∧ longFile path = some body) ∨
          (status ≠ .ok ∧ body = stockContent status)) := by
  obtain ⟨⟨s, actions⟩, hrun⟩ := Option.isSome_iff_exists.mp
    (show (Machine.run (Server1.sessionStep (bytes "/srv") (readableFiles longFile))
      (Session.started []) [.read .success (bytes "GET /a HTT"),
        .read .success (bytes "P/1.0\r\n\r\n")]).isSome by decide +kernel)
  have hactions : (Machine.run (Server1.sessionStep (bytes "/srv") (readableFiles longFile))
      (Session.started []) [.read .success (bytes "GET /a HTT"),
        .read .success (bytes "P/1.0\r\n\r\n")]).map Prod.snd =
      some [.start .asyncReadSome, .start (.asyncWrite
        (bytes "HTTP/1.0 200 OK\r\nContent-Length: 600\r\n" ++
          (bytes "Content-Type: text/plain\r\n\r\n" ++ List.replicate 600 (ch 'x'))))] := by
    decide +kernel
  rw [hrun, Option.map_some, Option.some.injEq] at hactions
  refine ⟨s, actions, hrun, sent_isFramed _ _ _ _ s actions hrun _ ?_⟩
  rw [show actions = _ from hactions]
  exact List.mem_cons_of_mem _ (List.mem_singleton_self _)

end Http

end AsioStudy
