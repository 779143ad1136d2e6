import AsioStudy.Http.Connection

/-!
# The server of `http_server1`

The classes `server` and `connection_manager` of `http_server1` with the connections they own, run
by one thread.  The events of the machine are of two kinds: the result of an outstanding operation
becomes known and its handler is queued, or a queued handler runs.  Handlers run one at a time and
in any order.

What the library does when a socket is closed: an operation that is pending on it completes with
`operation_aborted`, unless its result is already queued, and an operation that is started on a
closed socket completes with another error.

A connection is named by its position among all connections that were ever created.  It is an
object that the handlers of its operations keep alive, so that it never disappears here.
-/

namespace AsioStudy

namespace Http

namespace Server1

/-! ## Connections and their operations -/

/-- An operation that was started and whose handler has not run, with the arguments of the handler
once they are known. -/
structure Pending where
  /-- The operation. -/
  op : Operation
  /-- The error code and the number of transferred bytes, once the handler is queued. -/
  result : Option (ErrorCode × ℕ)
  deriving DecidableEq, Repr

/-- A connection object with its socket and the operations pending on the socket. -/
structure ConnectionObject where
  /-- The members of the connection other than its socket. -/
  connection : Connection
  /-- Whether the socket is open. -/
  socketOpen : Bool
  /-- The operations whose handlers have not run. -/
  pending : List Pending
  deriving DecidableEq, Repr

/-- A pending operation on a socket that is being closed. -/
def Pending.abort (p : Pending) : Pending :=
  { p with result := some (p.result.getD (.operationAborted, 0)) }

/-- Start an operation on the socket of a connection. -/
def ConnectionObject.start (o : ConnectionObject) (op : Operation) : ConnectionObject :=
  { o with pending := o.pending ++ [⟨op, if o.socketOpen then none else some (.other, 0)⟩] }

/-- `connection::stop`: close the socket. -/
def ConnectionObject.stop (o : ConnectionObject) : ConnectionObject :=
  { o with socketOpen := false, pending := o.pending.map Pending.abort }

/-- The `k`-th pending operation completes: the data it delivers are in the buffer and its handler
is queued. -/
def ConnectionObject.complete (o : ConnectionObject) (k : ℕ) (ec : ErrorCode) (data : Bytes) :
    ConnectionObject :=
  { o with
    connection := o.connection.fill data
    pending := o.pending.modify k fun p => { p with result := some (ec, data.length) } }

/-- What the library can report for an operation that it was not asked to abort. -/
def IsResult (op : Operation) (ec : ErrorCode) (data : Bytes) : Prop :=
  match op with
  | .asyncReadSome => ec ≠ .operationAborted ∧ IsReadResult ec data
  | .asyncWrite _ => ec ≠ .operationAborted ∧ data = []

instance (op : Operation) (ec : ErrorCode) (data : Bytes) : Decidable (IsResult op ec data) := by
  unfold IsResult
  cases op <;> infer_instance

/-- The handler of an operation of a connection. -/
def handler (docRoot : Bytes) (fs : FileSystem) (c : Connection) (op : Operation) (ec : ErrorCode)
    (bytesTransferred : ℕ) : Connection × List Action :=
  match op with
  | .asyncReadSome => readHandler docRoot fs c ec bytesTransferred
  | .asyncWrite _ => (c, writeHandler ec)

/-! ## The server -/

/-- The state of `server`, of the connection manager in it and of all connections. -/
structure Server where
  /-- Whether the acceptor is open. -/
  acceptorOpen : Bool
  /-- The accepts whose handlers have not run, with the error code once the handler is queued. -/
  accepts : List (Option ErrorCode)
  /-- Whether the handler that waits for a signal has not run. -/
  awaitingStop : Bool
  /-- All connections that were created. -/
  objects : List ConnectionObject
  /-- The managed connections, `connections_`. -/
  connections : List ℕ
  deriving DecidableEq, Repr

/-- What the server does, as far as it is visible outside. -/
inductive Output where
  | connectionStarted (i : ℕ)
  | action (i : ℕ) (a : Action)
  | acceptStarted
  deriving DecidableEq, Repr

/-- The state after the constructor of `server`: it waits for a signal and for a connection. -/
def Server.init : Server := ⟨true, [none], true, [], []⟩

/-- `connection_manager::start` of a new connection. -/
def Server.managerStart (s : Server) (buffer : Bytes) : Server :=
  { s with
    connections := s.connections.insert s.objects.length
    objects := s.objects ++
      [ConnectionObject.start ⟨Connection.fresh buffer, true, []⟩ .asyncReadSome] }

/-- `connection_manager::stop`. -/
def Server.managerStop (s : Server) (i : ℕ) : Server :=
  { s with
    connections := s.connections.filter (· ≠ i)
    objects := s.objects.modify i ConnectionObject.stop }

/-- `connection_manager::stop_all`. -/
def Server.stopAll (s : Server) : Server :=
  { s with
    objects := s.connections.foldl (fun objects i => objects.modify i ConnectionObject.stop)
      s.objects
    connections := [] }

/-- The call of `async_accept` in `server::do_accept`. -/
def Server.doAccept (s : Server) : Server :=
  { s with accepts := s.accepts ++ [if s.acceptorOpen then none else some .other] }

/-- The handler of the accept in `server::do_accept`; `buffer` is what is in the buffer of a new
connection. -/
def Server.acceptHandler (s : Server) (ec : ErrorCode) (buffer : Bytes) : Server × List Output :=
  if !s.acceptorOpen then (s, [])
  else if ec = .success then
    ((s.managerStart buffer).doAccept,
      [.connectionStarted s.objects.length,
        .action s.objects.length (.start .asyncReadSome), .acceptStarted])
  else (s.doAccept, [.acceptStarted])

/-- `acceptor_.close()`. -/
def Server.closeAcceptor (s : Server) : Server :=
  { s with
    acceptorOpen := false
    accepts := s.accepts.map fun r => some (r.getD .operationAborted) }

/-- The handler of the signal in `server::do_await_stop`. -/
def Server.stopHandler (s : Server) : Server :=
  { s.closeAcceptor with awaitingStop := false }.stopAll

/-- The connection `i` performs an action. -/
def Server.perform (i : ℕ) (s : Server) : Action → Server
  | .start op => { s with objects := s.objects.modify i fun o => o.start op }
  | .shutdown => s
  | .managerStop => s.managerStop i

/-! ## Events -/

/-- One event of the server. -/
inductive Event where
  /-- The `k`-th pending operation of the connection `i` completes. -/
  | complete (i k : ℕ) (ec : ErrorCode) (data : Bytes)
  /-- The handler of the `k`-th pending operation of the connection `i` runs. -/
  | handle (i k : ℕ)
  /-- The `k`-th outstanding accept completes. -/
  | completeAccept (k : ℕ) (ec : ErrorCode)
  /-- The handler of the `k`-th outstanding accept runs. -/
  | handleAccept (k : ℕ) (buffer : Bytes)
  /-- The handler of the signal runs. -/
  | handleStop
  deriving DecidableEq, Repr

/-- The handler of the `k`-th pending operation of the connection `i` has been taken from the queue
and runs with the given arguments. -/
def Server.runHandler (docRoot : Bytes) (fs : FileSystem) (s : Server) (i k : ℕ)
    (o : ConnectionObject) (op : Operation) (ec : ErrorCode) (n : ℕ) : Server × List Output :=
  let r := handler docRoot fs o.connection op ec n
  let s := { s with
    objects := s.objects.modify i fun o =>
      { o with connection := r.1, pending := o.pending.eraseIdx k } }
  (r.2.foldl (Server.perform i) s, r.2.map (Output.action i))

/-- The effect of an event, or `none` if the event is impossible. -/
def Server.step (docRoot : Bytes) (fs : FileSystem) (s : Server) :
    Event → Option (Server × List Output)
  | .complete i k ec data => do
    let o ← s.objects[i]?
    let p ← o.pending[k]?
    if p.result = none ∧ IsResult p.op ec data then
      some ({ s with objects := s.objects.modify i fun o => o.complete k ec data }, [])
    else none
  | .handle i k => do
    let o ← s.objects[i]?
    let p ← o.pending[k]?
    let r ← p.result
    some (s.runHandler docRoot fs i k o p.op r.1 r.2)
  | .completeAccept k ec => do
    let r ← s.accepts[k]?
    if r = none ∧ ec ≠ .operationAborted then
      some ({ s with accepts := s.accepts.set k (some ec) }, [])
    else none
  | .handleAccept k buffer => do
    let r ← s.accepts[k]?
    let ec ← r
    some ({ s with accepts := s.accepts.eraseIdx k }.acceptHandler ec buffer)
  | .handleStop => if s.awaitingStop then some (s.stopHandler, []) else none

/-- What an event can be and do. -/
lemma Server.step_cases {docRoot : Bytes} {fs : FileSystem} {s s' : Server} {e : Event}
    {out : List Output} (h : s.step docRoot fs e = some (s', out)) :
    (∃ i k ec data o p, e = .complete i k ec data ∧ s.objects[i]? = some o ∧
        o.pending[k]? = some p ∧ p.result = none ∧ IsResult p.op ec data ∧
        s' = { s with objects := s.objects.modify i fun o => o.complete k ec data } ∧ out = []) ∨
      (∃ i k o op ec n, e = .handle i k ∧ s.objects[i]? = some o ∧
        o.pending[k]? = some ⟨op, some (ec, n)⟩ ∧
        s' = (s.runHandler docRoot fs i k o op ec n).1 ∧
        out = (s.runHandler docRoot fs i k o op ec n).2) ∨
      (∃ k ec, e = .completeAccept k ec ∧ s.accepts[k]? = some none ∧ ec ≠ .operationAborted ∧
        s' = { s with accepts := s.accepts.set k (some ec) } ∧ out = []) ∨
      (∃ k ec buffer, e = .handleAccept k buffer ∧ s.accepts[k]? = some (some ec) ∧
        s' = ({ s with accepts := s.accepts.eraseIdx k }.acceptHandler ec buffer).1 ∧
        out = ({ s with accepts := s.accepts.eraseIdx k }.acceptHandler ec buffer).2) ∨
      (e = .handleStop ∧ s.awaitingStop = true ∧ s' = s.stopHandler ∧ out = []) := by
  cases e with
  | complete i k ec data =>
    simp only [Server.step, Option.bind_eq_bind, Option.bind_eq_some_iff] at h
    obtain ⟨o, ho, p, hp, h⟩ := h
    split at h
    · rename_i hcond
      cases h
      exact Or.inl ⟨i, k, ec, data, o, p, rfl, ho, hp, hcond.1, hcond.2, rfl, rfl⟩
    · cases h
  | handle i k =>
    simp only [Server.step, Option.bind_eq_bind, Option.bind_eq_some_iff] at h
    obtain ⟨o, ho, ⟨op, result⟩, hp, ⟨ec, n⟩, hr, h⟩ := h
    cases hr
    have heq := (Option.some.inj h).symm
    exact Or.inr (Or.inl ⟨i, k, o, op, ec, n, rfl, ho, hp, congrArg Prod.fst heq,
      congrArg Prod.snd heq⟩)
  | completeAccept k ec =>
    simp only [Server.step, Option.bind_eq_bind, Option.bind_eq_some_iff] at h
    obtain ⟨r, hr, h⟩ := h
    split at h
    · rename_i hcond
      cases h
      rw [hcond.1] at hr
      exact Or.inr (Or.inr (Or.inl ⟨k, ec, rfl, hr, hcond.2, rfl, rfl⟩))
    · cases h
  | handleAccept k buffer =>
    simp only [Server.step, Option.bind_eq_bind, Option.bind_eq_some_iff] at h
    obtain ⟨r, hr, ec, hec, h⟩ := h
    rw [hec] at hr
    have heq := (Option.some.inj h).symm
    exact Or.inr (Or.inr (Or.inr (Or.inl ⟨k, ec, buffer, rfl, hr, congrArg Prod.fst heq,
      congrArg Prod.snd heq⟩)))
  | handleStop =>
    rw [Server.step] at h
    split at h
    · rename_i hawait
      cases h
      exact Or.inr (Or.inr (Or.inr (Or.inr ⟨rfl, hawait, rfl, rfl⟩)))
    · cases h

end Server1

end Http

end AsioStudy
