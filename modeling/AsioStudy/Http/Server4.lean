import AsioStudy.Http.Connection

/-!
# The coroutine server of `http_server4`

The class `server` of `http_server4` is a stackless coroutine.  Its members are of two kinds: the
position of the coroutine, the parser and its last result are copied with the object, while the
socket, the buffer, the request and the reply are shared by all copies.  A `Server` is the value of
such an object, with addresses in place of shared pointers, and a `Heap` holds what is shared.

Every asynchronous operation holds a copy of the object that started it.  When the operation has
completed, the copy is called, and control continues at the position that was saved in it.  `fork`
calls a copy of the object before the object itself goes on.

The buffer of a new connection is not initialised; what is in it is an argument of the handlers.
-/

namespace AsioStudy

namespace Http

namespace Server4

/-! ## Objects -/

/-- The positions at which the coroutine can be left: its member `value_`. -/
inductive Position where
  | initial
  | yieldAccept
  | forkParent
  | forkChild
  | yieldRead
  | yieldWrite
  deriving DecidableEq, Repr

/-- `is_parent()`: the negation of `is_child()`. -/
def Position.isParent (position : Position) : Bool := position ≠ .forkChild

/-- The value of an object of the class `server`.  The acceptor, which all objects share, and the
request handler are left out. -/
structure Server where
  /-- Where the coroutine continues. -/
  position : Position
  /-- The current connection from a client. -/
  socket : Option ℕ
  /-- Buffer for incoming data. -/
  buffer : Option ℕ
  /-- The incoming request. -/
  request : Option ℕ
  /-- Whether the request is valid or not. -/
  parseResult : Option ResultType
  /-- The parser for the incoming request. -/
  requestParser : RequestParser
  /-- The reply to be sent back to the client. -/
  reply : Option ℕ
  deriving DecidableEq, Repr

/-- A new object. -/
def Server.new : Server := ⟨.initial, none, none, none, none, RequestParser.fresh, none⟩

/-- The objects that are shared; an address is a position in one of the lists, or below the number
of sockets. -/
structure Heap where
  /-- How many sockets were created. -/
  sockets : ℕ
  /-- The buffers. -/
  buffers : List Bytes
  /-- The requests. -/
  requests : List Request
  /-- The replies. -/
  replies : List Reply
  deriving DecidableEq, Repr

/-- An asynchronous operation on a socket. -/
inductive AsyncOp where
  | asyncAccept (socket : ℕ)
  | asyncReadSome (socket buffer : ℕ)
  | asyncWrite (socket : ℕ) (buffers : Bytes)
  deriving DecidableEq, Repr

/-- An operation that was started and whose handler has not run. -/
structure Pending where
  /-- The operation. -/
  op : AsyncOp
  /-- The copy of the coroutine that is the handler. -/
  handler : Server
  /-- The error code and the bytes that a read delivered, once the operation has completed. -/
  result : Option (ErrorCode × Bytes)
  deriving DecidableEq, Repr

/-- The state of the program. -/
structure State where
  /-- The shared objects. -/
  heap : Heap
  /-- The operations whose handlers have not run. -/
  pending : List Pending
  deriving DecidableEq, Repr

/-- What the program does.  The handlers of a connection are part of the record: `completed` says
with what result the handler of an operation on the socket was called. -/
inductive Output where
  | acceptStarted
  | accepted (socket : ℕ)
  | completed (socket : ℕ) (c : Completion)
  | action (socket : ℕ) (a : Action)
  deriving DecidableEq, Repr

/-! ## The body of the coroutine -/

/-- The head of the accept loop, up to its `yield`. -/
def Server.acceptNext (c : Server) (s : State) : State × List Output :=
  let socket := s.heap.sockets
  let c := { c with socket := some socket, position := .yieldAccept }
  (⟨{ s.heap with sockets := socket + 1 }, s.pending ++ [⟨.asyncAccept socket, c, none⟩]⟩,
    [.acceptStarted])

/-- The head of the loop that reads, up to its `yield`. -/
def Server.readSome (c : Server) (s : State) : Option (State × List Output) := do
  let socket ← c.socket
  let buffer ← c.buffer
  let c := { c with position := .yieldRead }
  some (⟨s.heap, s.pending ++ [⟨.asyncReadSome socket buffer, c, none⟩]⟩,
    [.action socket (.start .asyncReadSome)])

/-- The code after `fork`: a parent goes on accepting, a child creates the objects for a request
and begins to read. -/
def Server.afterFork (c : Server) (content : Bytes) (s : State) : Option (State × List Output) :=
  if c.position.isParent then some (c.acceptNext s)
  else
    let c := { c with
      buffer := some s.heap.buffers.length, request := some s.heap.requests.length }
    c.readSome ⟨{ s.heap with
      buffers := s.heap.buffers ++ [content]
      requests := s.heap.requests ++ [Request.empty] }, s.pending⟩

/-- The code after the loop that reads, up to the `yield` of the write. -/
def Server.sendReply (docRoot : Bytes) (fs : FileSystem) (c : Server) (s : State) :
    Option (State × List Output) := do
  let socket ← c.socket
  let request ← c.request
  let req ← s.heap.requests[request]?
  let rep :=
    if c.parseResult = some .good then (handleRequest docRoot fs req Reply.empty).rep
    else stockReply .badRequest
  let c := { c with reply := some s.heap.replies.length, position := .yieldWrite }
  some (⟨{ s.heap with replies := s.heap.replies ++ [rep] },
      s.pending ++ [⟨.asyncWrite socket rep.wire, c, none⟩]⟩,
    [.action socket (.start (.asyncWrite rep.wire))])

/-- The code after the `yield` of a read: parse, and read on or send the reply. -/
def Server.parseSome (docRoot : Bytes) (fs : FileSystem) (c : Server) (length : ℕ) (s : State) :
    Option (State × List Output) := do
  let request ← c.request
  let req ← s.heap.requests[request]?
  let buffer ← c.buffer
  let data ← s.heap.buffers[buffer]?
  let o := c.requestParser.parse req (data.take length)
  let c := { c with parseResult := some o.result, requestParser := o.parser }
  let s : State := { s with heap := { s.heap with
    requests := s.heap.requests.set request o.request } }
  if o.result = .indeterminate then c.readSome s else c.sendReply docRoot fs s

/-- `server::operator()`: the coroutine is entered at its position unless there is an error.  The
result is `none` if a null pointer is used. -/
def Server.call (docRoot : Bytes) (fs : FileSystem) (c : Server) (ec : ErrorCode) (length : ℕ)
    (content : Bytes) (s : State) : Option (State × List Output) :=
  if ec = .success then
    match c.position with
    | .initial => some (c.acceptNext s)
    | .yieldAccept => do
      -- the child runs to its first `yield` inside the call that forks it
      let child ← { c with position := .forkChild }.afterFork content s
      let parent ← { c with position := .forkParent }.afterFork content child.1
      some (parent.1, child.2 ++ parent.2)
    | .forkParent | .forkChild => c.afterFork content s
    | .yieldRead => c.parseSome docRoot fs length s
    | .yieldWrite => do
      let socket ← c.socket
      some (s, [.action socket .shutdown])
  else some (s, [])

/-! ## Events -/

/-- The program after `main` has called a new object once. -/
def State.init : State := (Server.new.acceptNext ⟨⟨0, [], [], []⟩, []⟩).1

/-- One event of the program. -/
inductive Event where
  /-- The `k`-th pending operation completes. -/
  | complete (k : ℕ) (ec : ErrorCode) (data : Bytes)
  /-- The handler of the `k`-th pending operation runs. -/
  | handle (k : ℕ) (content : Bytes)
  deriving DecidableEq, Repr

/-- What an operation can deliver. -/
def IsResult (op : AsyncOp) (ec : ErrorCode) (data : Bytes) : Prop :=
  match op with
  | .asyncReadSome _ _ => IsReadResult ec data
  | _ => data = []

instance (op : AsyncOp) (ec : ErrorCode) (data : Bytes) : Decidable (IsResult op ec data) := by
  unfold IsResult
  cases op <;> infer_instance

/-- The data of an operation arrive in its buffer. -/
def Heap.fill (heap : Heap) (op : AsyncOp) (data : Bytes) : Heap :=
  match op with
  | .asyncReadSome _ buffer =>
    { heap with buffers := heap.buffers.modify buffer fun b => overwrite b 0 data }
  | _ => heap

/-- The record of a handler that is called. -/
def handlerCalled (op : AsyncOp) (ec : ErrorCode) (data : Bytes) : List Output :=
  match op with
  | .asyncAccept socket => if ec = .success then [.accepted socket] else []
  | .asyncReadSome socket _ => [.completed socket (.read ec data)]
  | .asyncWrite socket _ => [.completed socket (.write ec)]

/-- The effect of an event, or `none` if the event is impossible. -/
def State.step (docRoot : Bytes) (fs : FileSystem) (s : State) :
    Event → Option (State × List Output)
  | .complete k ec data => do
    let p ← s.pending[k]?
    if p.result = none ∧ IsResult p.op ec data then
      some (⟨s.heap.fill p.op data, s.pending.set k { p with result := some (ec, data) }⟩, [])
    else none
  | .handle k content => do
    let p ← s.pending[k]?
    let r ← p.result
    let o ← p.handler.call docRoot fs r.1 r.2.length content ⟨s.heap, s.pending.eraseIdx k⟩
    some (o.1, handlerCalled p.op r.1 r.2 ++ o.2)

/-- What an event can be and do. -/
lemma State.step_cases {docRoot : Bytes} {fs : FileSystem} {s s' : State} {e : Event}
    {out : List Output} (h : s.step docRoot fs e = some (s', out)) :
    (∃ k ec data p, e = .complete k ec data ∧ s.pending[k]? = some p ∧ p.result = none ∧
      IsResult p.op ec data ∧
        s' = ⟨s.heap.fill p.op data, s.pending.set k { p with result := some (ec, data) }⟩ ∧
        out = []) ∨
      ∃ k content p ec data o, e = .handle k content ∧ s.pending[k]? = some p ∧
        p.result = some (ec, data) ∧
        p.handler.call docRoot fs ec data.length content ⟨s.heap, s.pending.eraseIdx k⟩ =
          some (s', o) ∧
        out = handlerCalled p.op ec data ++ o := by
  cases e with
  | complete k ec data =>
    simp only [State.step, Option.bind_eq_bind, Option.bind_eq_some_iff] at h
    obtain ⟨p, hp, h⟩ := h
    split at h
    · rename_i hcond
      cases h
      exact Or.inl ⟨k, ec, data, p, rfl, hp, hcond.1, hcond.2, rfl, rfl⟩
    · cases h
  | handle k content =>
    simp only [State.step, Option.bind_eq_bind, Option.bind_eq_some_iff] at h
    obtain ⟨p, hp, ⟨ec, data⟩, hr, ⟨t, o⟩, hcall, h⟩ := h
    cases h
    exact Or.inr ⟨k, content, p, ec, data, o, rfl, hp, hr, hcall, rfl⟩

end Server4

end Http

end AsioStudy
