import AsioStudy.Cpp.Char
import AsioStudy.Foundation.Machine

/-!
# The asynchronous daytime servers

`tcp_server` and `udp_server`, which run on one context.  A handler is an object of `boost::bind`,
and what is bound for its error code is the local variable `ignored_error` of the function that
starts the operation, not a placeholder.

The handler of an operation that has failed is therefore told that it has succeeded.
`acts_on_successes_iff`: the servers do what the test `if (!error)` stands for exactly if nothing
fails.
-/

namespace AsioStudy

namespace Daytime

/-! ## Handlers -/

/-- An error code. -/
inductive ErrorCode where
  | success
  | failed (value : ℕ)
  deriving DecidableEq, Repr

/-- An object of `boost::bind` with a copy of the argument that it was given: no placeholder is
bound, hence it ignores the arguments of a completion. -/
def boostBind {α β γ : Type*} (f : α → β) (bound : α) (_completion : γ) : β := f bound

/-- `udp::endpoint`, with the endpoint of the default constructor. -/
structure Endpoint where
  address : UInt32
  port : UInt16
  deriving DecidableEq, Repr, Inhabited

/-! ## The servers -/

/-- The arguments that are bound for `handle_accept`. -/
structure AcceptArgs where
  /-- The argument `new_conn`, the number of a connection. -/
  newConn : ℕ
  error : ErrorCode
  deriving DecidableEq, Repr

/-- The state of the two servers. -/
structure State where
  /-- How many connections `tcp_connection::create` has made. -/
  created : ℕ
  /-- What is bound to the accept that is outstanding, if there is one. -/
  accepting : Option AcceptArgs
  /-- The member `remote_endpoint_` of `udp_server`. -/
  remoteEndpoint : Endpoint
  /-- What is bound to the receive that is outstanding, if there is one; the number of bytes, which
  has no value, is not read. -/
  receiving : Option ErrorCode
  deriving DecidableEq, Repr

/-- What the servers do. -/
inductive Action where
  /-- `new_conn->start()`, which writes `msg_` to the socket of the connection. -/
  | start (newConn : ℕ) (msg : Bytes)
  /-- `async_send_to` with a message for an endpoint. -/
  | sendTo (endpoint : Endpoint) (msg : Bytes)
  deriving DecidableEq, Repr

/-- `start_accept`. -/
def startAccept (s : State) : State :=
  let newConn := s.created
  let ignoredError := ErrorCode.success
  { s with created := s.created + 1, accepting := some ⟨newConn, ignoredError⟩ }

/-- `handle_accept`; `daytime` is what `make_daytime_string` returns at that time. -/
def handleAccept (s : State) (daytime : Bytes) (args : AcceptArgs) : State × List Action :=
  (startAccept s, if args.error = .success then [.start args.newConn daytime] else [])

/-- `start_receive`. -/
def startReceive (s : State) : State :=
  let ignoredError := ErrorCode.success
  { s with receiving := some ignoredError }

/-- `handle_receive`. -/
def handleReceive (s : State) (daytime : Bytes) (error : ErrorCode) : State × List Action :=
  (startReceive s, if error = .success then [.sendTo s.remoteEndpoint daytime] else [])

/-- The constructors of the two servers. -/
def construct : State := startReceive (startAccept ⟨0, none, default, none⟩)

/-- The outcome of an operation, with the time at which its handler runs. -/
inductive Event where
  /-- An accept has completed with this error code. -/
  | accept (ec : ErrorCode) (daytime : Bytes)
  /-- A datagram has been received from a sender. -/
  | received (sender : Endpoint) (daytime : Bytes)
  /-- A receive has failed. -/
  | notReceived (value : ℕ) (daytime : Bytes)
  deriving DecidableEq, Repr

/-- The operation has succeeded. -/
def Event.Succeeds : Event → Prop
  | .accept ec _ => ec = .success
  | .received _ _ => True
  | .notReceived _ _ => False

/-- It is decidable whether an operation has succeeded. -/
instance : DecidablePred Event.Succeeds := fun e =>
  match e with
  | .accept ec _ => inferInstanceAs (Decidable (ec = .success))
  | .received _ _ => isTrue trivial
  | .notReceived _ _ => isFalse id

/-- The completion of an operation, whose handler is called with its error code.  A receive that has
succeeded stores the sender before. -/
def step (s : State) : Event → Option (State × List Action)
  | .accept ec daytime =>
    s.accepting.map fun args =>
      boostBind (handleAccept { s with accepting := none } daytime) args ec
  | .received sender daytime =>
    s.receiving.map fun error =>
      boostBind (handleReceive { s with remoteEndpoint := sender, receiving := none } daytime) error
        ErrorCode.success
  | .notReceived value daytime =>
    s.receiving.map fun error =>
      boostBind (handleReceive { s with receiving := none } daytime) error (ErrorCode.failed value)

/-! ## What the servers should do -/

/-- What should be done about the outcomes, when the accept that is outstanding is for the given
connection: a connection is started when its accept has succeeded, and a datagram is answered. -/
def intended (newConn : ℕ) : List Event → List Action
  | [] => []
  | .accept .success daytime :: events => .start newConn daytime :: intended (newConn + 1) events
  | .accept (.failed _) _ :: events => intended (newConn + 1) events
  | .received sender daytime :: events => .sendTo sender daytime :: intended newConn events
  | .notReceived _ _ :: events => intended newConn events

/-- The servers have done what they should, and the next operations are outstanding. -/
structure ActsOnSuccesses (events : List Event) (s : State) (actions : List Action) : Prop where
  /-- The next accept is armed. -/
  accepting : s.accepting.isSome
  /-- The next receive is armed. -/
  receiving : s.receiving.isSome
  /-- Connections are started and datagrams are sent for the operations that have succeeded. -/
  actions_eq : actions = intended 0 events

/-- Both operations are outstanding, each with a success bound to it, and the accept is for the
connection that was made last. -/
structure Armed (s : State) (newConn : ℕ) : Prop where
  created_eq : s.created = newConn + 1
  accepting_eq : s.accepting = some ⟨newConn, .success⟩
  receiving_eq : s.receiving = some .success

/-- What a handler does, whatever the outcome is: it starts the connection, or it answers to the
endpoint that is stored. -/
def performed (remoteEndpoint : Endpoint) (newConn : ℕ) : Event → Action
  | .accept _ daytime => .start newConn daytime
  | .received sender daytime => .sendTo sender daytime
  | .notReceived _ daytime => .sendTo remoteEndpoint daytime

/-- The connection for which the next accept is. -/
def nextConn (newConn : ℕ) : Event → ℕ
  | .accept _ _ => newConn + 1
  | .received _ _ => newConn
  | .notReceived _ _ => newConn

/-- Every outcome makes the servers do something, and the operation is started again. -/
lemma Armed.step {s : State} {newConn : ℕ} (h : Armed s newConn) (e : Event) :
    ∃ s', Daytime.step s e = some (s', [performed s.remoteEndpoint newConn e]) ∧
      Armed s' (nextConn newConn e) := by
  obtain ⟨hcreated, haccepting, hreceiving⟩ := h
  cases e with
  | accept ec daytime =>
    refine ⟨⟨s.created + 1, some ⟨s.created, .success⟩, s.remoteEndpoint, s.receiving⟩, ?_, ?_⟩
    · rw [Daytime.step, haccepting]
      rfl
    · exact ⟨by rw [hcreated]; rfl, by rw [hcreated]; rfl, hreceiving⟩
  | received sender daytime =>
    refine ⟨⟨s.created, s.accepting, sender, some .success⟩, ?_, hcreated, haccepting, rfl⟩
    rw [Daytime.step, hreceiving]
    rfl
  | notReceived value daytime =>
    refine ⟨⟨s.created, s.accepting, s.remoteEndpoint, some .success⟩, ?_, hcreated, haccepting,
      rfl⟩
    rw [Daytime.step, hreceiving]
    rfl

/-- What should be done about a first outcome. -/
lemma intended_cons (newConn : ℕ) (e : Event) (events : List Event) (remoteEndpoint : Endpoint) :
    intended newConn (e :: events) =
      (if e.Succeeds then [performed remoteEndpoint newConn e] else []) ++
        intended (nextConn newConn e) events := by
  match e with
  | .accept .success _ => rfl
  | .accept (.failed _) _ => rfl
  | .received _ _ => rfl
  | .notReceived _ _ => rfl

/-- Nothing should be done about a failure. -/
lemma length_intended (newConn : ℕ) (events : List Event) :
    (intended newConn events).length = events.countP (Event.Succeeds ·) := by
  induction events generalizing newConn with
  | nil => rfl
  | cons e events ih =>
    rw [intended_cons newConn e events default, List.length_append, ih, List.countP_cons]
    by_cases he : e.Succeeds
    · simp [he, Nat.add_comm]
    · simp [he]

/-- A run from a state in which both operations are outstanding: something is done about each
outcome, and it is what should be done if all of them are successes. -/
lemma Armed.run {s : State} {newConn : ℕ} (h : Armed s newConn) (events : List Event) :
    ∃ s' out newConn', Machine.run Daytime.step s events = some (s', out) ∧ Armed s' newConn' ∧
      out.length = events.length ∧
      ((∀ e ∈ events, e.Succeeds) → out = intended newConn events) := by
  induction events generalizing s newConn with
  | nil => exact ⟨s, [], newConn, rfl, h, rfl, fun _ => rfl⟩
  | cons e events ih =>
    obtain ⟨s', hstep, harmed⟩ := h.step e
    obtain ⟨s'', out, newConn', hrun, harmed', hlength, heq⟩ := ih harmed
    refine ⟨s'', _, newConn', Machine.run_cons_iff.mpr ⟨s', _, out, hstep, hrun, rfl⟩, harmed', ?_,
      fun hall => ?_⟩
    · rw [List.length_append, hlength, List.length_singleton, List.length_cons, Nat.add_comm]
    · obtain ⟨he, hevents⟩ := List.forall_mem_cons.mp hall
      rw [intended_cons newConn e events s.remoteEndpoint, if_pos he, heq hevents]

/-- The constructors arm both operations. -/
lemma armed_construct : Armed construct 0 := ⟨rfl, rfl, rfl⟩

/-- **Acting on successes.**  For every sequence of outcomes, the servers start connections and send
datagrams for the operations that have succeeded, and for no others, exactly if no operation has
failed. -/
theorem acts_on_successes_iff (events : List Event) :
    ∃ s out, Machine.run step construct events = some (s, out) ∧
      (ActsOnSuccesses events s out ↔ ∀ e ∈ events, e.Succeeds) := by
  obtain ⟨s, out, newConn, hrun, harmed, hlength, heq⟩ := armed_construct.run events
  refine ⟨s, out, hrun, fun h => ?_, fun h => ?_⟩
  · have hcount : events.countP (Event.Succeeds ·) = events.length := by
      rw [← length_intended 0, ← h.actions_eq, hlength]
    simpa using List.countP_eq_length.mp hcount
  · exact ⟨by rw [harmed.accepting_eq]; rfl, by rw [harmed.receiving_eq]; rfl, heq h⟩

/-- The accept of the first connection fails because too many files are open (24), and the connection
is started. -/
theorem starts_failed_connection :
    ∃ s out, Machine.run step construct [.accept (.failed 24) []] = some (s, out) ∧
      out = [.start 0 []] ∧ ¬ ActsOnSuccesses [.accept (.failed 24) []] s out := by
  refine ⟨_, _, rfl, rfl, fun h => ?_⟩
  exact absurd h.actions_eq (by decide)

end Daytime

end AsioStudy
