import AsioStudy.Asio.StrandDriver
import AsioStudy.Http.Connection

/-!
# One context for several threads

`http_server3` runs one context in a pool of threads.  The socket of each connection is put into a
strand of its own, so that the handlers of a connection do not run concurrently, although any thread
may execute any of them.  The connections are those of `http_server2`, and their handlers are
modelled here access by access: the handler of a read parses, then handles the request, then starts
the next operation, which can complete on another thread before the handler has returned.

The bytes of a read are written into `buffer_` by the reactor when the operation completes, on
whichever thread that happens and outside the strand.  `Serving.step_eq` shows that a handler still
finds the bytes that it was called for.

The main result is `serves_session`: whatever the threads do, a connection goes through a session of
`http_server2`, whose handlers run one after another.  Hence all that the server sends are answers
to the requests of the same connection (`sent_isAnswer`).
-/

namespace AsioStudy

namespace Http

namespace Server3

open SerialQueue (Code submitted begun)
open Strand (handlers log)
open Strand.Driver (History Mark requested strandMarks)

/-! ## The handlers of a connection -/

/-- A connection with what its handlers have done besides changing it.  The handlers do not change
`buffer_`, which is kept outside the strand. -/
structure Served (ι : Type*) where
  /-- The connection, `this`. -/
  self : ι
  /-- The incoming request. -/
  request : Request
  /-- The parser for the incoming request. -/
  requestParser : RequestParser
  /-- The reply to be sent back to the client. -/
  reply : Reply
  /-- The operations that the handlers have started, and the shutdown of the socket. -/
  actions : List Action
  deriving DecidableEq, Repr

section Code

variable {ι : Type*}

/-- A new connection, whose first read is started by `start()`. -/
def Served.fresh (i : ι) : Served ι := ⟨i, Request.empty, RequestParser.fresh, Reply.empty, []⟩

/-- The members of a connection, and what its handlers have done. -/
def Served.of (i : ι) (c : Connection) (actions : List Action) : Served ι :=
  ⟨i, c.request, c.requestParser, c.reply, actions⟩

/-- All members of the connection, with the bytes in `buffer_`. -/
def Served.connection (b : Served ι) (buffer : Bytes) : Connection :=
  ⟨buffer, b.request, b.requestParser, b.reply⟩

/-- Something is done. -/
def Served.act (b : Served ι) (a : Action) : Served ι := { b with actions := b.actions ++ [a] }

/-- Where a handler is in its body. -/
inductive Position where
  /-- The handler of a read begins; `bytes_transferred` is the number of the data. -/
  | read (ec : ErrorCode) (data : Bytes)
  /-- `parse` has returned. -/
  | parsed (result : ResultType)
  /-- `do_write` is called. -/
  | doWrite
  /-- The handler of a write begins. -/
  | written (ec : ErrorCode)
  /-- The handler returns. -/
  | done
  deriving DecidableEq, Repr

/-- The next access of a handler to its connection; `received` is what the handler of a read
parses. -/
def serveStep (docRoot : Bytes) (fs : FileSystem) (received : Served ι → Bytes → Bytes) :
    Position → Served ι → Option (Position × Served ι)
  | .read ec data, b =>
    if ec = .success then
      let o := b.requestParser.parse b.request (received b data)
      some (.parsed o.result, { b with request := o.request, requestParser := o.parser })
    else none
  | .parsed .good, b =>
    some (.doWrite, { b with reply := (handleRequest docRoot fs b.request b.reply).rep })
  | .parsed .bad, b => some (.doWrite, { b with reply := stockReply .badRequest })
  | .parsed .indeterminate, b => some (.done, b.act (.start .asyncReadSome))
  | .doWrite, b => some (.done, b.act (.start (.asyncWrite b.reply.wire)))
  | .written ec, b => if ec = .success then some (.done, b.act .shutdown) else none
  | .done, _ => none

/-- How many accesses are left. -/
def Position.rank : Position → ℕ
  | .read _ _ => 3
  | .parsed _ => 2
  | .doWrite | .written _ => 1
  | .done => 0

/-- The handlers of a connection; an operation of its strand is the completion of a read or of a
write. -/
def serveCode (docRoot : Bytes) (fs : FileSystem) (received : Served ι → Bytes → Bytes) :
    Code Completion Position (Served ι) where
  enter
    | .read ec data => .read ec data
    | .write ec => .written ec
  access := serveStep docRoot fs received
  rank := Position.rank
  rank_lt := by
    intro r r' b b' h
    rcases r with ⟨ec, data⟩ | result | _ | ec | _
    · simp only [serveStep, Option.ite_none_right_eq_some, Option.some.injEq] at h
      obtain ⟨-, h⟩ := h
      cases h
      exact Nat.lt_succ_self 2
    · rcases result with _ | _ | _
      · cases h
        exact Nat.one_lt_two
      · cases h
        exact Nat.one_lt_two
      · cases h
        exact Nat.two_pos
    · cases h
      exact Nat.one_pos
    · simp only [serveStep, Option.ite_none_right_eq_some, Option.some.injEq] at h
      obtain ⟨-, h⟩ := h
      cases h
      exact Nat.one_pos
    · cases h

/-- What the handler of a read parses: the first `bytes_transferred` bytes of `buffer_`. -/
def inBuffer (buffer : ι → Bytes) (b : Served ι) (data : Bytes) : Bytes :=
  (buffer b.self).take data.length

/-- What the handler of a read is to parse: the bytes that the read has delivered. -/
def delivered (_ : Served ι) (data : Bytes) : Bytes := data

end Code

/-! ## The server -/

/-- What happens outside the strands. -/
inductive Happening (ι : Type*) where
  /-- The handler of an accept creates a connection in a new strand and calls `start()`. -/
  | accept (i : ι)
  /-- The outstanding operation of a connection completes. -/
  | complete (i : ι) (e : Completion)
  deriving DecidableEq, Repr

/-- What there is of the connections outside their strands. -/
structure Sockets (ι : Type*) where
  /-- The connections that have been accepted. -/
  accepted : ι → Bool
  /-- How the operations of a connection have completed. -/
  completed : ι → List Completion
  /-- The member `buffer_` of each connection. -/
  buffer : ι → Bytes

/-- The operation that an action starts. -/
def operation? : Action → Option Operation
  | .start op => some op
  | _ => none

/-- All operations of a connection: the first read and what its handlers have started. -/
def operations (actions : List Action) : List Operation :=
  .asyncReadSome :: actions.filterMap operation?

/-- How an operation can complete. -/
def Completes : Operation → Completion → Prop
  | .asyncReadSome, .read ec data => IsReadResult ec data
  | .asyncWrite _, .write _ => True
  | _, _ => False

instance decidableCompletes : ∀ op e, Decidable (Completes op e)
  | .asyncReadSome, .read ec data => inferInstanceAs (Decidable (IsReadResult ec data))
  | .asyncWrite _, .write _ => inferInstanceAs (Decidable True)
  | .asyncReadSome, .write _ | .asyncWrite _, .read _ _ => inferInstanceAs (Decidable False)

/-- What a completion does to `buffer_`: the data of a read are written to its beginning. -/
def arrive (buffer : Bytes) : Completion → Bytes
  | .read _ data => overwrite buffer 0 data
  | .write _ => buffer

section Server

variable {Θ ι : Type*} [DecidableEq Θ] [DecidableEq ι] [Fintype Θ]

/-- The accept of a connection, or the completion of its outstanding operation: the reactor has
written the data of a read into `buffer_`, and the handler is submitted to the strand of the
connection. -/
def happen (sockets : Sockets ι) (object : ι → Served ι) :
    Happening ι → Option (Sockets ι × Option (ι × Completion))
  | .accept i =>
    if sockets.accepted i then none
    else some ({ sockets with accepted := Function.update sockets.accepted i true }, none)
  | .complete i e =>
    if sockets.accepted i then
      match (operations (object i).actions)[(sockets.completed i).length]? with
      | none => none
      | some op =>
        if Completes op e then
          some ({ sockets with
            completed := Function.update sockets.completed i (sockets.completed i ++ [e])
            buffer := Function.update sockets.buffer i (arrive (sockets.buffer i) e) },
            some (i, e))
        else none
    else none

/-- The state of the server, with a strand for each connection. -/
abbrev State (Θ ι : Type*) := Strand.Driver.State Θ ι Completion Position (Served ι) (Sockets ι)

/-- One event of the server; a handler reads what is in `buffer_` at that time. -/
def step (docRoot : Bytes) (fs : FileSystem) (s : State Θ ι)
    (e : Strand.Driver.Event Θ ι Completion (Happening ι)) :
    Option (State Θ ι × List (Mark ι Completion)) :=
  Strand.Driver.step (serveCode docRoot fs (inBuffer s.env.buffer)) happen s e

omit [DecidableEq Θ] [DecidableEq ι] [Fintype Θ] in
/-- The server before its first accept; `buffer_` of a connection is not initialised. -/
def start (Θ : Type*) (buffer : ι → Bytes) : State Θ ι :=
  .init .fresh ⟨fun _ => false, fun _ => [], buffer⟩

/-- All members of a connection. -/
def connection (s : State Θ ι) (i : ι) : Connection :=
  (s.strands.object i).connection (s.env.buffer i)

end Server

/-! ## A handler as a whole -/

section Serve

variable {ι : Type*} {docRoot : Bytes} {fs : FileSystem}

/-- What the handler of `http_server2` makes of a connection, if `buffer_` was as given when the
operation completed. -/
def Served.serve (docRoot : Bytes) (fs : FileSystem) (buffer : Bytes) (b : Served ι) :
    Completion → Served ι
  | .read ec data =>
    let r := Server2.readHandler docRoot fs ((b.connection buffer).fill data) ec data.length
    .of b.self r.1 (b.actions ++ r.2)
  | .write ec => { b with actions := b.actions ++ Server2.writeHandler ec }

/-- A handler as a whole is the handler of `http_server2`. -/
lemma exec_eq_serve (docRoot : Bytes) (fs : FileSystem) (buffer : Bytes) (b : Served ι)
    (e : Completion) :
    (serveCode docRoot fs delivered).exec b e = b.serve docRoot fs buffer e := by
  rcases e with ⟨ec, data⟩ | ec
  · rw [Code.exec, show (serveCode docRoot fs (delivered (ι := ι))).enter (.read ec data) =
      .read ec data from rfl, Served.serve]
    by_cases hec : ec = .success
    · have hread : (serveCode docRoot fs delivered).access (.read ec data) b =
          some (.parsed (b.requestParser.parse b.request data).result,
            { b with
              request := (b.requestParser.parse b.request data).request
              requestParser := (b.requestParser.parse b.request data).parser }) := if_pos hec
      have hparse : (b.connection buffer).requestParser.parse (b.connection buffer).request data =
          b.requestParser.parse b.request data := rfl
      rw [SerialQueue.complete_of_some hread, Server2.readHandler, if_pos hec, received_fill,
        hparse]
      generalize b.requestParser.parse b.request data = o
      -- the two handlers go on in the same way
      rw [Connection.proceed]
      rcases o.result with _ | _ | _
      · rw [SerialQueue.complete_of_some (c := serveCode docRoot fs _) (r := .parsed .good) rfl,
          SerialQueue.complete_of_some (c := serveCode docRoot fs _) (r := .doWrite) rfl,
          SerialQueue.complete_of_none (c := serveCode docRoot fs _) (r := .done) rfl]
        rfl
      · rw [SerialQueue.complete_of_some (c := serveCode docRoot fs _) (r := .parsed .bad) rfl,
          SerialQueue.complete_of_some (c := serveCode docRoot fs _) (r := .doWrite) rfl,
          SerialQueue.complete_of_none (c := serveCode docRoot fs _) (r := .done) rfl]
        rfl
      · rw [SerialQueue.complete_of_some (c := serveCode docRoot fs _)
            (r := .parsed .indeterminate) rfl,
          SerialQueue.complete_of_none (c := serveCode docRoot fs _) (r := .done) rfl]
        rfl
    · have hread : (serveCode docRoot fs delivered).access (.read ec data) b = none := if_neg hec
      rw [SerialQueue.complete_of_none hread, Server2.readHandler, if_neg hec, List.append_nil]
      rfl
  · rw [Code.exec, show (serveCode docRoot fs (delivered (ι := ι))).enter (.write ec) =
      .written ec from rfl, Served.serve, Server2.writeHandler]
    by_cases hec : ec = .success
    · have hwritten : (serveCode docRoot fs delivered).access (.written ec) b =
          some (.done, b.act .shutdown) := if_pos hec
      rw [SerialQueue.complete_of_some hwritten,
        SerialQueue.complete_of_none (c := serveCode docRoot fs _) (r := .done) rfl, if_pos hec]
      rfl
    · have hwritten : (serveCode docRoot fs delivered).access (.written ec) b = none := if_neg hec
      rw [SerialQueue.complete_of_none hwritten, if_neg hec, List.append_nil]

/-- The handlers of a list of completions, one after another. -/
def Served.serveAll (docRoot : Bytes) (fs : FileSystem) (b : Served ι) (es : List Completion) :
    Served ι := es.foldl (serveCode docRoot fs delivered).exec b

/-- A handler only adds actions. -/
lemma actions_isPrefix_of_serveStep {received : Served ι → Bytes → Bytes} {r r' : Position}
    {b b' : Served ι} (h : serveStep docRoot fs received r b = some (r', b')) :
    b.actions <+: b'.actions := by
  rcases r with ⟨ec, data⟩ | result | _ | ec | _
  · simp only [serveStep, Option.ite_none_right_eq_some, Option.some.injEq] at h
    obtain ⟨-, h⟩ := h
    cases h
    exact List.prefix_refl _
  · rcases result with _ | _ | _
    · cases h
      exact List.prefix_refl _
    · cases h
      exact List.prefix_refl _
    · cases h
      exact List.prefix_append _ _
  · cases h
    exact List.prefix_append _ _
  · simp only [serveStep, Option.ite_none_right_eq_some, Option.some.injEq] at h
    obtain ⟨-, h⟩ := h
    cases h
    exact List.prefix_append _ _
  · cases h

/-- What has been done contains the operations that have been started. -/
lemma operations_isPrefix {actions actions' : List Action} (h : actions <+: actions') :
    operations actions <+: operations actions' :=
  List.cons_prefix_cons.mpr ⟨rfl, h.filterMap operation?⟩

/-- The handler of a read is where it begins only before its first access. -/
lemma reaches_read {received : Served ι → Bytes → Bytes} {e : Completion} {b b' : Served ι}
    {ec : ErrorCode} {data : Bytes}
    (h : (serveCode docRoot fs received).Reaches e b (.read ec data) b') :
    e = .read ec data ∧ b' = b := by
  generalize hr : Position.read ec data = r at h
  rcases h with _ | ⟨_, haccess⟩
  · rcases e with ⟨ec', data'⟩ | ec'
    · obtain ⟨rfl, rfl⟩ := Position.read.inj hr
      exact ⟨rfl, rfl⟩
    · cases hr
  · subst hr
    rename_i r₀ b₀ _
    change serveStep docRoot fs received r₀ b₀ = _ at haccess
    rcases r₀ with ⟨ec', data'⟩ | result | _ | ec' | _
    · simp [serveStep] at haccess
    · rcases result with _ | _ | _
      · simp [serveStep] at haccess
      · simp [serveStep] at haccess
      · simp [serveStep] at haccess
    · simp [serveStep] at haccess
    · simp [serveStep] at haccess
    · simp [serveStep] at haccess

/-! ## Sessions -/

/-- A handler starts at most one operation. -/
lemma serve_cases (docRoot : Bytes) (fs : FileSystem) (buffer : Bytes) (b : Served ι)
    (e : Completion) :
    ∃ actions, (b.serve docRoot fs buffer e).actions = b.actions ++ actions ∧
      startedOperation actions = (actions.filterMap operation?)[0]? ∧
      (actions.filterMap operation?).length ≤ 1 := by
  rcases e with ⟨ec, data⟩ | ec
  · refine ⟨_, rfl, ?_⟩
    unfold Server2.readHandler
    split_ifs
    · exact ⟨rfl, le_refl _⟩
    · exact ⟨rfl, Nat.zero_le _⟩
  · refine ⟨_, rfl, ?_⟩
    unfold Server2.writeHandler
    split_ifs
    · exact ⟨rfl, Nat.zero_le _⟩
    · exact ⟨rfl, Nat.zero_le _⟩

/-- A session of `http_server2` is what the handlers make of a new connection, and its outstanding
operation is the one after those that have completed. -/
lemma session_eq_serveAll (i : ι) {buffer : Bytes} {es : List Completion} {session : Session}
    {actions : List Action}
    (hrun : Machine.run (Server2.sessionStep docRoot fs) (Session.started buffer) es =
      some (session, actions)) :
    (Served.fresh i).serveAll docRoot fs es = .of i session.connection actions ∧
      session.outstanding = (operations actions)[es.length]? ∧
      (operations actions).length ≤ es.length + 1 := by
  refine Machine.run_history (I := fun s es out =>
    (Served.fresh i).serveAll docRoot fs es = .of i s.connection out ∧
      s.outstanding = (operations out)[es.length]? ∧
      (operations out).length ≤ es.length + 1) hrun ⟨rfl, rfl, le_refl _⟩ ?_
  intro s s' e es out out' ⟨hserved, hout, hlength⟩ hstep
  have hserve : (Served.of i s.connection out).serve docRoot fs s.connection.buffer e =
        .of i s'.connection (out ++ out') ∧
      s'.outstanding = startedOperation out' ∧ ∃ op, s.outstanding = some op := by
    obtain ⟨ec, data, hop, rfl, -, rfl, rfl⟩ | ⟨buffers, ec, hop, rfl, rfl, rfl⟩ :=
      Session.step_cases hstep
    · exact ⟨rfl, rfl, _, hop⟩
    · exact ⟨rfl, rfl, _, hop⟩
  obtain ⟨hserve, hout', op, hop⟩ := hserve
  obtain ⟨started, hactions, hstarted, hone⟩ :=
    serve_cases docRoot fs s.connection.buffer (Served.of i s.connection out) e
  rw [hserve] at hactions
  have hstarted' : out' = started := List.append_cancel_left hactions
  subst hstarted'
  -- the operation that has completed is the last one of those that were started
  have hlength' : (operations out).length = es.length + 1 := by
    rw [hout] at hop
    obtain ⟨hlt, -⟩ := List.getElem?_eq_some_iff.mp hop
    omega
  have hoperations : operations (out ++ out') = operations out ++ out'.filterMap operation? := by
    rw [operations, operations, List.filterMap_append, List.cons_append]
  refine ⟨?_, ?_, ?_⟩
  · rw [Served.serveAll] at hserved ⊢
    rw [List.foldl_append, List.foldl_cons, List.foldl_nil, hserved,
      exec_eq_serve docRoot fs s.connection.buffer, hserve]
  · rw [hout', hstarted, hoperations, List.length_append, List.length_singleton, ← hlength',
      List.getElem?_append_right (le_refl _), Nat.sub_self]
  · rw [hoperations, List.length_append, List.length_append, List.length_singleton]
    omega

/-- The handlers of `http_server2` do not write into `buffer_`. -/
lemma buffer_readHandler (c : Connection) (ec : ErrorCode) (n : ℕ) :
    (Server2.readHandler docRoot fs c ec n).1.buffer = c.buffer := by
  unfold Server2.readHandler
  split_ifs
  · rw [Connection.received, Connection.proceed]
    rcases (c.requestParser.parse c.request (c.buffer.take n)).result with _ | _ | _
    · rfl
    · rfl
    · rfl
  · rfl

/-- What is in `buffer_` after a session is what its reads have written there. -/
lemma buffer_session {buffer : Bytes} {es : List Completion} {session : Session}
    {actions : List Action}
    (hrun : Machine.run (Server2.sessionStep docRoot fs) (Session.started buffer) es =
      some (session, actions)) : session.connection.buffer = es.foldl arrive buffer := by
  refine Machine.run_history (I := fun s es _ => s.connection.buffer = es.foldl arrive buffer)
    hrun rfl ?_
  intro s s' e es out out' ih hstep
  rw [List.foldl_append, ← ih, List.foldl_cons, List.foldl_nil]
  obtain ⟨ec, data, -, rfl, -, rfl, -⟩ | ⟨buffers, ec, -, rfl, rfl, -⟩ := Session.step_cases hstep
  · exact buffer_readHandler _ _ _
  · rfl

end Serve

/-- The outstanding operation of a session can complete. -/
lemma exists_sessionStep {docRoot : Bytes} {fs : FileSystem} {session : Session} {op : Operation}
    {e : Completion} (hop : session.outstanding = some op) (he : Completes op e) :
    ∃ r, Server2.sessionStep docRoot fs session e = some r := by
  rcases op with _ | buffers
  · rcases e with ⟨ec, data⟩ | ec
    · rw [Server2.sessionStep, Session.step_read _ _ hop he]
      exact ⟨_, rfl⟩
    · exact he.elim
  · rcases e with ⟨ec, data⟩ | ec
    · exact he.elim
    · rw [Server2.sessionStep_write docRoot fs hop]
      exact ⟨_, rfl⟩

/-! ## Whole runs -/

/-- A list that contains at most one entry begins with every list of which it contains the
entries. -/
lemma prefix_of_count_le {α : Type*} [DecidableEq α] {l l' : List α} (hl' : l'.length ≤ 1)
    (h : ∀ a, l.count a ≤ l'.count a) : l <+: l' := by
  have hsub : l.Subperm l' := List.subperm_ext_iff.mpr fun a _ => h a
  rcases l with _ | ⟨a, l⟩
  · exact List.nil_prefix
  · have hlength : (a :: l).length ≤ l'.length := hsub.length_le
    have hperm := hsub.perm_of_length_le (by simp only [List.length_cons] at hlength ⊢; omega)
    obtain ⟨b, rfl⟩ : ∃ b, l' = [b] := List.length_eq_one_iff.mp (by
      simp only [List.length_cons] at hlength
      omega)
    rw [List.perm_singleton.mp hperm]

section Runs

variable {Θ ι : Type*} [DecidableEq Θ] [DecidableEq ι] [Fintype Θ]
variable {docRoot : Bytes} {fs : FileSystem} {buffer : ι → Bytes} {s s' : State Θ ι}
variable {out out' : List (Mark ι Completion)}

/-- The completions whose handlers have begun. -/
def handled (i : ι) (out : List (Mark ι Completion)) : List Completion :=
  begun (log i (strandMarks out))

/-- The completions that the strand of a connection has accepted. -/
def accepted (i : ι) (out : List (Mark ι Completion)) : List Completion :=
  submitted (log i (strandMarks out))

/-- What every run of the server satisfies for a connection. -/
structure Serving (docRoot : Bytes) (fs : FileSystem) (buffer : ι → Bytes) (s : State Θ ι)
    (out : List (Mark ι Completion)) (i : ι) : Prop where
  /-- Every completion has submitted a handler. -/
  requested_eq : requested i out = s.env.completed i
  /-- The completions are those of a session of `http_server2`. -/
  exists_session : ∃ session actions, Machine.run (Server2.sessionStep docRoot fs)
    (Session.started (buffer i)) (s.env.completed i) = some (session, actions)
  /-- The strand accepts the handlers in the order in which the operations have completed. -/
  accepted_isPrefix : accepted i out <+: s.env.completed i
  /-- At most one handler has not begun. -/
  length_le : (s.env.completed i).length ≤ (handled i out).length + 1
  /-- Only operations that were started have completed. -/
  completed_le : (s.env.completed i).length ≤ (operations (s.strands.object i).actions).length
  /-- `buffer_` holds what the reads have written into it. -/
  buffer_eq : s.env.buffer i = (s.env.completed i).foldl arrive (buffer i)

/-- The handlers that have begun are among those that the strand has accepted. -/
lemma handled_isPrefix (h : History (serveCode docRoot fs delivered) .fresh s out)
    (i : ι) : handled i out <+: accepted i out := by
  obtain ⟨q, -, -, -, hqueue, -⟩ := h.worker i
  exact ⟨q.queue, hqueue⟩

/-- What a connection has done is the beginning of what it does when its handlers have returned. -/
lemma actions_isPrefix (h : History (serveCode docRoot fs delivered) .fresh s out)
    (i : ι) : (s.strands.object i).actions <+:
      ((Served.fresh i).serveAll docRoot fs (handled i out)).actions := by
  obtain ⟨q, -, -, hobject, -, hcomplete⟩ := h.worker i
  have hpre := SerialQueue.State.complete_rel (c := serveCode docRoot fs delivered)
    (R := fun b b' => b.actions <+: b'.actions) (fun _ => List.prefix_refl _)
    (fun h h' => h.trans h') actions_isPrefix_of_serveStep q
  rw [hobject, hcomplete] at hpre
  exact hpre

/-- The run of a session over the first completions. -/
lemma run_of_prefix {session₀ session : Session} {actions : List Action}
    {es fs' : List Completion} (hpre : fs' <+: es)
    (hrun : Machine.run (Server2.sessionStep docRoot fs) session₀ es = some (session, actions)) :
    ∃ session' actions', Machine.run (Server2.sessionStep docRoot fs) session₀ fs' =
      some (session', actions') := by
  obtain ⟨rest, rfl⟩ := hpre
  obtain ⟨session', actions', -, hrun', -⟩ := Machine.run_append_iff.mp hrun
  exact ⟨session', actions', hrun'⟩

/-- An operation completes: it is the one that the session has outstanding, although the handler
that has started it may not have returned. -/
lemma Serving.complete (h : History (serveCode docRoot fs delivered) .fresh s out)
    {i : ι} (hi : Serving docRoot fs buffer s out i) {op : Operation} {e : Completion}
    (hop : (operations (s.strands.object i).actions)[(s.env.completed i).length]? = some op)
    (he : Completes op e) :
    handled i out = s.env.completed i ∧ ∃ session actions,
      Machine.run (Server2.sessionStep docRoot fs) (Session.started (buffer i))
        (s.env.completed i ++ [e]) = some (session, actions) := by
  obtain ⟨session, actions, hrun⟩ := hi.exists_session
  have hpre : handled i out <+: s.env.completed i :=
    (handled_isPrefix h i).trans hi.accepted_isPrefix
  obtain ⟨session', actions', hrun'⟩ := run_of_prefix hpre hrun
  obtain ⟨hserved, -, hlength⟩ := session_eq_serveAll i hrun'
  have hactions := actions_isPrefix h i
  rw [hserved] at hactions
  have hoperations : operations (s.strands.object i).actions <+: operations actions' :=
    operations_isPrefix hactions
  obtain ⟨hlt, -⟩ := List.getElem?_eq_some_iff.mp hop
  have hle := hoperations.length_le
  have heq : handled i out = s.env.completed i :=
    hpre.eq_of_length_le (by omega)
  refine ⟨heq, ?_⟩
  rw [heq] at hrun'
  obtain ⟨rfl, rfl⟩ : session = session' ∧ actions = actions' := by
    rw [hrun] at hrun'
    cases hrun'
    exact ⟨rfl, rfl⟩
  obtain ⟨-, hout, -⟩ := session_eq_serveAll i hrun
  have hop' : session.outstanding = some op := by
    obtain ⟨rest, hrest⟩ := hoperations
    rw [hout, ← hrest, List.getElem?_append_left hlt, hop]
  obtain ⟨⟨session'', out''⟩, hstep⟩ :
      ∃ r, Server2.sessionStep docRoot fs session e = some r := exists_sessionStep hop' he
  exact ⟨_, _, Machine.run_concat_iff.mpr ⟨_, _, _, hrun, hstep, rfl⟩⟩

/-- What happens outside the strands to the connections that it is not about. -/
lemma happen_cases {sockets sockets' : Sockets ι} {object : ι → Served ι} {x : Happening ι}
    {o : Option (ι × Completion)} (h : happen sockets object x = some (sockets', o)) :
    (o = none ∧ sockets'.completed = sockets.completed ∧ sockets'.buffer = sockets.buffer) ∨
      ∃ i op e, x = .complete i e ∧ o = some (i, e) ∧
        (operations (object i).actions)[(sockets.completed i).length]? = some op ∧
        Completes op e ∧
        sockets'.completed = Function.update sockets.completed i (sockets.completed i ++ [e]) ∧
        sockets'.buffer = Function.update sockets.buffer i (arrive (sockets.buffer i) e) := by
  rcases x with i | ⟨i, e⟩
  · simp only [happen] at h
    split_ifs at h
    obtain ⟨rfl, rfl⟩ := Prod.mk.inj (Option.some.inj h)
    exact Or.inl ⟨rfl, rfl, rfl⟩
  · simp only [happen] at h
    split_ifs at h
    rcases hop : (operations (object i).actions)[(sockets.completed i).length]? with _ | op
    · simp [hop] at h
    · simp only [hop, Option.ite_none_right_eq_some, Option.some.injEq] at h
      obtain ⟨he, h⟩ := h
      obtain ⟨rfl, rfl⟩ := Prod.mk.inj h
      exact Or.inr ⟨i, op, e, rfl, rfl, hop, he, rfl, rfl⟩

/-- More handlers have begun when more has happened. -/
lemma handled_append (i : ι) (out out' : List (Mark ι Completion)) :
    handled i (out ++ out') = handled i out ++ handled i out' := by
  rw [handled, Strand.Driver.strandMarks_append, Strand.log_append, SerialQueue.begun_append]
  rfl

/-- More handlers have been accepted when more has happened. -/
lemma accepted_append (i : ι) (out out' : List (Mark ι Completion)) :
    accepted i (out ++ out') = accepted i out ++ accepted i out' := by
  rw [accepted, Strand.Driver.strandMarks_append, Strand.log_append,
    SerialQueue.submitted_append]
  rfl

/-- **The buffer is read in time.**  A handler that parses finds in `buffer_` the bytes that its
read has delivered: no other read completes before it has started one. -/
lemma Serving.step_eq (h : History (serveCode docRoot fs delivered) .fresh s out)
    (hall : ∀ i, Serving docRoot fs buffer s out i)
    (e : Strand.Driver.Event Θ ι Completion (Happening ι)) :
    step docRoot fs s e = Strand.Driver.step (serveCode docRoot fs delivered) happen s e := by
  refine Strand.Driver.step_congr s e rfl fun θ i r tail hstack => ?_
  obtain ⟨completions, e', hhandled, hreaches⟩ : ∃ completions e',
      handled i out = completions ++ [e'] ∧ (serveCode docRoot fs delivered).Reaches e'
        ((Served.fresh i).serveAll docRoot fs completions) r (s.strands.object i) := by
    rcases hstack with hstack | hstack
    · exact h.running hstack (if_pos rfl)
    · exact h.running hstack (if_pos rfl)
  rcases r with ⟨ec, data⟩ | result | _ | ec | _
  · obtain ⟨rfl, hobject⟩ := reaches_read hreaches
    obtain ⟨session₀, actions₀, hrun₀⟩ := (hall i).exists_session
    obtain ⟨rest, hrest⟩ := (handled_isPrefix h i).trans (hall i).accepted_isPrefix
    have hpre : completions <+: s.env.completed i := by
      rw [← hrest, hhandled, List.append_assoc]
      exact List.prefix_append _ _
    obtain ⟨session, actions, hrun⟩ := run_of_prefix hpre hrun₀
    obtain ⟨hserved, -, hlength⟩ := session_eq_serveAll i hrun
    rw [hserved] at hobject
    -- the handler has started nothing yet, so this completion is the last one
    have hrest' : rest = [] := by
      have hle := (hall i).completed_le
      rw [hobject, ← hrest, hhandled, List.length_append, List.length_append,
        List.length_singleton] at hle
      change _ ≤ (operations actions).length at hle
      exact List.eq_nil_of_length_eq_zero (by omega)
    rw [hrest', List.append_nil, hhandled] at hrest
    have hbuffer := (hall i).buffer_eq
    rw [← hrest, List.foldl_append, List.foldl_cons, List.foldl_nil, arrive] at hbuffer
    have hreceived : inBuffer s.env.buffer (s.strands.object i) data = data := by
      rw [hobject, inBuffer, Served.of, hbuffer]
      exact take_drop_overwrite (Nat.zero_le _) data
    change serveStep docRoot fs (inBuffer s.env.buffer) (.read ec data) _ =
      serveStep docRoot fs delivered (.read ec data) _
    rw [serveStep, hreceived]
    rfl
  · rcases result with _ | _ | _
    · rfl
    · rfl
    · rfl
  · rfl
  · rfl
  · rfl

/-- An operation of some connection has completed, and requests its handler. -/
lemma Serving.request (h : History (serveCode docRoot fs delivered) .fresh s out)
    {i j : ι} (hi : Serving docRoot fs buffer s out i) {op : Operation} {e : Completion}
    (hop : (operations (s.strands.object j).actions)[(s.env.completed j).length]? = some op)
    (he : Completes op e)
    (hcompleted :
      s'.env.completed = Function.update s.env.completed j (s.env.completed j ++ [e]))
    (hbuffer : s'.env.buffer = Function.update s.env.buffer j (arrive (s.env.buffer j) e))
    (hgrows : (operations (s.strands.object i).actions).length ≤
      (operations (s'.strands.object i).actions).length) :
    Serving docRoot fs buffer s' (out ++ [.request j e]) i := by
  have haccepted : accepted i (out ++ [.request j e]) = accepted i out := by
    rw [accepted_append]
    exact List.append_nil _
  have hhandled : handled i (out ++ [.request j e]) = handled i out := by
    rw [handled_append]
    exact List.append_nil _
  by_cases hij : j = i
  · subst hij
    obtain ⟨hall, hsession⟩ := hi.complete h hop he
    obtain ⟨hlt, -⟩ := List.getElem?_eq_some_iff.mp hop
    have hcompleted' : s'.env.completed j = s.env.completed j ++ [e] := by
      rw [hcompleted, Function.update_self]
    refine ⟨?_, hcompleted' ▸ hsession, ?_, ?_, ?_, ?_⟩
    · rw [Strand.Driver.requested_append, Strand.Driver.requested_request, if_pos rfl,
        hi.requested_eq, hcompleted']
    · rw [haccepted, hcompleted']
      exact hi.accepted_isPrefix.trans (List.prefix_append _ _)
    · rw [hhandled, hcompleted', hall, List.length_append, List.length_singleton]
    · rw [hcompleted', List.length_append, List.length_singleton]
      omega
    · rw [hbuffer, Function.update_self, hcompleted', List.foldl_append, ← hi.buffer_eq]
      rfl
  · have hcompleted' : s'.env.completed i = s.env.completed i := by
      rw [hcompleted, Function.update_of_ne fun h => hij h.symm]
    refine ⟨?_, hcompleted' ▸ hi.exists_session, ?_, ?_, ?_, ?_⟩
    · rw [Strand.Driver.requested_append, Strand.Driver.requested_request, if_neg hij,
        List.append_nil, hi.requested_eq, hcompleted']
    · rw [haccepted, hcompleted']
      exact hi.accepted_isPrefix
    · rw [hhandled, hcompleted']
      exact hi.length_le
    · rw [hcompleted']
      exact hi.completed_le.trans hgrows
    · rw [hbuffer, Function.update_of_ne fun h => hij h.symm, hcompleted', hi.buffer_eq]

/-- A thread has made a step in the strands.  What the strand of the connection accepts in it is the
only completion that it has not accepted before. -/
lemma Serving.thread (h : History (serveCode docRoot fs delivered) .fresh s out)
    {o : List (ι × SerialQueue.Event Completion)}
    (h' : History (serveCode docRoot fs delivered) .fresh s'
      (out ++ o.map fun p => .strand p.1 p.2))
    {i : ι} (hi : Serving docRoot fs buffer s out i) (henv : s'.env = s.env)
    (hgrows : (operations (s.strands.object i).actions).length ≤
      (operations (s'.strands.object i).actions).length) :
    Serving docRoot fs buffer s' (out ++ o.map fun p => .strand p.1 p.2) i := by
  have hcompleted' : s'.env.completed i = s.env.completed i := by rw [henv]
  refine ⟨?_, hcompleted' ▸ hi.exists_session, ?_, ?_, ?_, ?_⟩
  · rw [Strand.Driver.requested_append, Strand.Driver.requested_map, List.append_nil,
      hi.requested_eq, hcompleted']
  · obtain ⟨rest, hrest⟩ := hi.accepted_isPrefix
    have hle : (handled i out).length ≤ (accepted i out).length := (handled_isPrefix h i).length_le
    have hlength := hi.length_le
    rw [← hrest, List.length_append] at hlength
    rw [hcompleted', ← hrest, accepted_append]
    refine (List.prefix_append_right_inj _).mpr (prefix_of_count_le (by omega) fun a => ?_)
    have hcalls := h'.hcalls i a
    rw [Strand.Driver.requested_append, Strand.Driver.requested_map, List.append_nil,
      hi.requested_eq, ← hrest, List.count_append] at hcalls
    change _ = (accepted i (out ++ _)).count a + _ at hcalls
    rw [accepted_append, List.count_append] at hcalls
    omega
  · rw [hcompleted', handled_append, List.length_append]
    have hlength := hi.length_le
    omega
  · rw [hcompleted']
    exact hi.completed_le.trans hgrows
  · rw [henv, hi.buffer_eq]

/-- One event more. -/
lemma Serving.step (h : History (serveCode docRoot fs delivered) .fresh s out)
    {i : ι} (hi : Serving docRoot fs buffer s out i)
    {e : Strand.Driver.Event Θ ι Completion (Happening ι)}
    (hstep : Strand.Driver.step (serveCode docRoot fs delivered) happen s e = some (s', out')) :
    Serving docRoot fs buffer s' (out ++ out') i := by
  have h' : History (serveCode docRoot fs delivered) .fresh s' (out ++ out') := h.step hstep
  have hgrows := (operations_isPrefix (Strand.Driver.object_rel_of_step
    (R := fun b b' => b.actions <+: b'.actions) (fun _ => List.prefix_refl _)
    actions_isPrefix_of_serveStep hstep i)).length_le
  obtain ⟨θ, x, -, hhappen, hstrands, rfl⟩ | ⟨θ, x, j, e', -, -, hhappen, hstrands, -, rfl⟩ |
    ⟨e', o, -, -, -, henv, rfl⟩ := Strand.Driver.step_cases hstep
  · obtain ⟨-, hcompleted, hbuffer⟩ | ⟨j, op, e', -, habsurd, -⟩ := happen_cases hhappen
    · rw [List.append_nil]
      exact ⟨hcompleted ▸ hi.requested_eq, hcompleted ▸ hi.exists_session,
        hcompleted ▸ hi.accepted_isPrefix, hcompleted ▸ hi.length_le,
        hcompleted ▸ hi.completed_le.trans hgrows, hcompleted ▸ hbuffer ▸ hi.buffer_eq⟩
    · cases habsurd
  · obtain ⟨habsurd, -⟩ | ⟨k, op, e'', -, heq, hop, he, hcompleted, hbuffer⟩ :=
      happen_cases hhappen
    · cases habsurd
    obtain ⟨rfl, rfl⟩ := Prod.mk.inj (Option.some.inj heq)
    exact hi.request h hop he hcompleted hbuffer hgrows
  · exact hi.thread h h' henv hgrows

/-- What every run of the server satisfies. -/
lemma serving_run {es : List (Strand.Driver.Event Θ ι Completion (Happening ι))}
    (hrun : Machine.run (step docRoot fs) (start Θ buffer) es = some (s, out)) :
    History (serveCode docRoot fs delivered) .fresh s out ∧
      ∀ i, Serving docRoot fs buffer s out i := by
  refine Machine.run_history (I := fun t _ o =>
    History (serveCode docRoot fs delivered) .fresh t o ∧
      ∀ i, Serving docRoot fs buffer t o i) hrun ⟨Strand.Driver.history_init _ _, fun i => ?_⟩ ?_
  · exact ⟨rfl, ⟨_, _, rfl⟩, List.prefix_refl _, Nat.zero_le _, Nat.zero_le _, rfl⟩
  · intro t t' e es o o' ⟨ht, hall⟩ hstep
    rw [Serving.step_eq ht hall] at hstep
    exact ⟨ht.step hstep, fun i => (hall i).step ht hstep⟩

/-- **Concurrency does not show.**  Whatever the threads of the pool do, each connection goes
through a session of `http_server2`: those of its completions whose handlers have begun, in their
order and without repetition, are the events of a session.  When no handler of the connection is
executed, the connection is what the session has made of it, up to the data of a read whose handler
has not begun; and what a handler that is executed has done already is the beginning of what the
session does. -/
theorem serves_session {es : List (Strand.Driver.Event Θ ι Completion (Happening ι))}
    (hrun : Machine.run (step docRoot fs) (start Θ buffer) es = some (s, out)) (i : ι) :
    handled i out <+: s.env.completed i ∧
      (s.env.completed i).length ≤ (handled i out).length + 1 ∧
      ∃ session actions, Machine.run (Server2.sessionStep docRoot fs)
          (Session.started (buffer i)) (handled i out) = some (session, actions) ∧
        (s.strands.object i).actions <+: actions ∧
        ((∀ θ, handlers i (s.strands.stack θ) = []) →
          (s.strands.object i).actions = actions ∧
          { connection s i with buffer := session.connection.buffer } = session.connection ∧
          (handled i out = s.env.completed i → connection s i = session.connection)) := by
  obtain ⟨h, hall⟩ := serving_run hrun
  have hpre := (handled_isPrefix h i).trans (hall i).accepted_isPrefix
  obtain ⟨session₀, actions₀, hrun₀⟩ := (hall i).exists_session
  obtain ⟨session, actions, hrun'⟩ := run_of_prefix hpre hrun₀
  obtain ⟨hserved, -, -⟩ := session_eq_serveAll i hrun'
  refine ⟨hpre, (hall i).length_le, session, actions, hrun', ?_, fun hidle => ?_⟩
  · have hactions := actions_isPrefix h i
    rw [hserved] at hactions
    exact hactions
  · have hobject : s.strands.object i = .of i session.connection actions := by
      rw [← hserved]
      exact h.object_eq hidle
    refine ⟨?_, ?_, fun hbegun => ?_⟩
    · rw [hobject]
      rfl
    · rw [connection, hobject]
      rfl
    · rw [connection, hobject, (hall i).buffer_eq, ← hbegun, ← buffer_session hrun']
      rfl

/-- A connection is accepted by one thread, its first read completes on a second one, and the
handler is executed by the first one; the request is bad. -/
def badRequest : List (Strand.Driver.Event Bool ℕ Completion (Happening ℕ)) :=
  [.complete false (.accept 7), .complete true (.complete 7 (.read .success (bytes "("))),
    .thread (.advance true), .thread (.advance true), .thread (.advance true),
    .thread (.start false 7), .thread (.advance false), .thread (.advance false),
    .thread (.advance false), .thread (.advance false)]

/-- The session of a connection whose request is bad, while its handler is executed. -/
theorem serves_session_badRequest :
    ∃ s out, Machine.run (step (bytes "/srv") (readableFiles fun _ => none))
        (start Bool fun _ => []) badRequest = some (s, out) ∧
      handled 7 out <+: s.env.completed 7 ∧
      (s.env.completed 7).length ≤ (handled 7 out).length + 1 ∧
      ∃ session actions, Machine.run
          (Server2.sessionStep (bytes "/srv") (readableFiles fun _ => none))
          (Session.started []) (handled 7 out) = some (session, actions) ∧
        (s.strands.object 7).actions <+: actions ∧
        ((∀ θ, handlers 7 (s.strands.stack θ) = []) →
          (s.strands.object 7).actions = actions ∧
          { connection s 7 with buffer := session.connection.buffer } = session.connection ∧
          (handled 7 out = s.env.completed 7 → connection s 7 = session.connection)) := by
  obtain ⟨⟨s, out⟩, hrun⟩ := Option.isSome_iff_exists.mp
    (show (Machine.run (step (bytes "/srv") (readableFiles fun _ => none))
      (start Bool fun _ => []) badRequest).isSome by decide +kernel)
  exact ⟨s, out, hrun, serves_session hrun 7⟩

/-- A step of a connection of `http_server2` is one of a connection of `http_server1`, up to the
calls of the connection manager. -/
lemma exists_server1_step {session session' : Session} {e : Completion} {actions : List Action}
    (hstep : Server2.sessionStep docRoot fs session e = some (session', actions)) :
    ∃ actions', Server1.sessionStep docRoot fs session e = some (session', actions') ∧
      ∀ op, .start op ∈ actions → .start op ∈ actions' := by
  obtain ⟨ec, data, hop, rfl, hread, rfl, rfl⟩ | ⟨buffers, ec, hop, rfl, rfl, rfl⟩ :=
    Session.step_cases hstep
  · refine ⟨(Server1.readHandler docRoot fs (session.connection.fill data) ec data.length).2, ?_,
      ?_⟩
    · rw [Server1.sessionStep, Session.step_read _ _ hop hread]
      by_cases hec : ec = .success
      · simp [Server1.readHandler, Server2.readHandler, hec]
      · by_cases habort : ec = .operationAborted
        · simp [Server1.readHandler, Server2.readHandler, habort, startedOperation]
        · simp [Server1.readHandler, Server2.readHandler, hec, habort, startedOperation]
    · intro op hmem
      unfold Server2.readHandler at hmem
      split_ifs at hmem with hec
      · rw [Server1.readHandler, if_pos hec]
        exact hmem
      · cases hmem
  · refine ⟨Server1.writeHandler ec, ?_, ?_⟩
    · unfold Server1.sessionStep Session.step
      simp only [hop]
      rcases ec with _ | _ | _
      · rfl
      · rfl
      · rfl
    · intro op hmem
      unfold Server2.writeHandler at hmem
      split_ifs at hmem
      · simp at hmem
      · cases hmem

/-- What a session of `http_server2` sends are answers to its request. -/
lemma isAnswer_of_session {files : Bytes → Option Bytes} {buffer₀ : Bytes} {es : List Completion}
    {session : Session} {actions : List Action}
    (hrun : Machine.run (Server2.sessionStep docRoot (readableFiles files))
      (Session.started buffer₀) es = some (session, actions)) {sent : Bytes}
    (hsent : .start (.asyncWrite sent) ∈ actions) :
    IsAnswer docRoot files session.connection.request sent := by
  have hanswered : ∃ actions', session.Answered docRoot files actions' ∧
      ∀ op, .start op ∈ actions → .start op ∈ actions' := by
    refine Machine.run_history (I := fun t _ o => ∃ actions', t.Answered docRoot files actions' ∧
      ∀ op, .start op ∈ o → .start op ∈ actions') hrun ⟨[], ⟨fun _ => ⟨rfl, by simp⟩, by simp⟩,
        fun _ h => h⟩ ?_
    intro t t' e es o o' ⟨actions', ht, hsub⟩ hstep
    obtain ⟨actions'', hstep', hsub'⟩ := exists_server1_step hstep
    refine ⟨actions' ++ actions'', ht.step hstep', fun op hmem => ?_⟩
    rcases List.mem_append.mp hmem with hmem | hmem
    · exact List.mem_append_left _ (hsub op hmem)
    · exact List.mem_append_right _ (hsub' op hmem)
  obtain ⟨actions', hanswered, hsub⟩ := hanswered
  exact hanswered.2 sent (hsub _ hsent)

/-- **No reply for somebody else.**  Whatever the threads of the pool do, every reply that a
connection sends is correctly framed, and it is the answer to the request that the same connection
has parsed: the whole file that was opened for it, or a stock page. -/
theorem sent_isAnswer {files : Bytes → Option Bytes}
    {es : List (Strand.Driver.Event Θ ι Completion (Happening ι))}
    (hrun : Machine.run (step docRoot (readableFiles files)) (start Θ buffer) es = some (s, out))
    {i : ι} {sent : Bytes} (hsent : .start (.asyncWrite sent) ∈ (s.strands.object i).actions) :
    ∃ session actions, Machine.run (Server2.sessionStep docRoot (readableFiles files))
        (Session.started (buffer i)) (handled i out) = some (session, actions) ∧
      IsAnswer docRoot files session.connection.request sent := by
  obtain ⟨h, hall⟩ := serving_run hrun
  have hpre := (handled_isPrefix h i).trans (hall i).accepted_isPrefix
  obtain ⟨session₀, actions₀, hrun₀⟩ := (hall i).exists_session
  obtain ⟨session, actions, hrun'⟩ := run_of_prefix hpre hrun₀
  have hactions := actions_isPrefix h i
  rw [(session_eq_serveAll i hrun').1] at hactions
  exact ⟨session, actions, hrun', isAnswer_of_session hrun' (hactions.subset hsent)⟩

/-- The rejection of a bad request is an answer to it. -/
theorem sent_isAnswer_badRequest :
    ∃ s out, Machine.run (step (bytes "/srv") (readableFiles fun _ => none))
        (start Bool fun _ => []) badRequest = some (s, out) ∧
      ∃ session actions, Machine.run
          (Server2.sessionStep (bytes "/srv") (readableFiles fun _ => none))
          (Session.started []) (handled 7 out) = some (session, actions) ∧
        IsAnswer (bytes "/srv") (fun _ => none) session.connection.request
          (stockReply .badRequest).wire := by
  obtain ⟨⟨s, out⟩, hrun⟩ := Option.isSome_iff_exists.mp
    (show (Machine.run (step (bytes "/srv") (readableFiles fun _ => none))
      (start Bool fun _ => []) badRequest).isSome by decide +kernel)
  have hactions : (Machine.run (step (bytes "/srv") (readableFiles fun _ => none))
      (start Bool fun _ => []) badRequest).map (fun r => (r.1.strands.object 7).actions) =
        some [.start (.asyncWrite (stockReply .badRequest).wire)] := by decide +kernel
  rw [hrun, Option.map_some, Option.some.injEq] at hactions
  exact ⟨s, out, hrun, sent_isAnswer hrun (by rw [hactions]; exact List.mem_singleton_self _)⟩

end Runs

end Server3

end Http

end AsioStudy
