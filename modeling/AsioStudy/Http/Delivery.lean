import AsioStudy.Asio.ComposedOperations
import AsioStudy.Http.Server3

/-!
# Replies that are written in portions

A connection of `http_server2` or `http_server3` sends its reply by one `async_write` of
`reply_.to_buffers()`.  In the sessions this is one operation with one completion; here it is what
Boost.Asio makes of it, a sequence of `async_write_some` with pieces of the buffers, each of which
the socket may transfer in part.

`reply_delivered` shows that the sessions are right about it: the handlers run as in a session, and
the bytes that reach the socket are the beginning of one answer, all of it if the connection is shut
down.
-/

namespace AsioStudy

namespace Http

namespace Delivery

open Asio (ComposedOp ConsumingBuffers Transfer consumingBuffers transferAll)

/-- An error code that is not success. -/
abbrev Failure : Type := {ec : ErrorCode // ec ≠ .success}

/-- The error code that a handler is called with. -/
def toErrorCode : Option Failure → ErrorCode
  | none => .success
  | some e => e.1

/-- `boost::asio::error::operation_aborted`. -/
def aborted : Failure := ⟨.operationAborted, by decide⟩

/-- The `async_write` of a connection. -/
abbrev WriteOp : Type := ComposedOp (ConsumingBuffers UInt8) UInt8 Failure

/-- A connection with its outstanding operation, and with the state of `async_write` if this is the
outstanding operation. -/
structure State where
  session : Session
  writeOp : Option WriteOp
  deriving DecidableEq, Repr

/-- An operation of the socket completes. -/
inductive Event where
  | readSome (ec : ErrorCode) (data : Bytes)
  | writeSome (x : Transfer Failure)
  deriving DecidableEq, Repr

/-- What can be observed: an action of a handler, or bytes that the socket has taken. -/
inductive Output where
  | action (a : Action)
  | put (data : Bytes)
  deriving DecidableEq, Repr

/-- The actions of the handlers. -/
def actions (out : List Output) : List Action :=
  out.filterMap fun o =>
    match o with
    | .action a => some a
    | .put _ => none

/-- The bytes that the socket has taken. -/
def sent (out : List Output) : Bytes :=
  out.flatMap fun o =>
    match o with
    | .action _ => []
    | .put data => data

/-- A handler has returned: if it has started a write, `async_write` starts with the buffers of the
reply. -/
def State.after (session : Session) : State :=
  match session.outstanding with
  | some (.asyncWrite _) =>
    ⟨session, some (.start (consumingBuffers UInt8) transferAll
      (.new session.connection.reply.toBuffers))⟩
  | _ => ⟨session, none⟩

/-- The session is the one that the handler has left. -/
@[simp] lemma State.after_session (session : Session) : (State.after session).session = session := by
  unfold State.after
  split <;> rfl

/-- A new connection. -/
def State.started (buffer : Bytes) : State := .after (.started buffer)

/-- One event of a connection. -/
def step (docRoot : Bytes) (fs : FileSystem) (s : State) : Event → Option (State × List Output)
  | .readSome ec data =>
    (Server2.sessionStep docRoot fs s.session (.read ec data)).map fun r =>
      (.after r.1, r.2.map .action)
  | .writeSome x =>
    match s.writeOp with
    | none => none
    | some op =>
      match op.step (consumingBuffers UInt8) transferAll aborted x with
      | none => none
      | some (.called ec _, data) =>
        (Server2.sessionStep docRoot fs s.session (.write (toErrorCode ec))).map fun r =>
          (.after r.1, .put data :: r.2.map .action)
      | some (op, data) => some (⟨s.session, some op⟩, [.put data])

/-! ## Outputs -/

/-- Nothing was done. -/
@[simp] lemma actions_nil : actions [] = [] := rfl

/-- Nothing was sent. -/
@[simp] lemma sent_nil : sent [] = [] := rfl

/-- The actions of two parts of a run. -/
@[simp] lemma actions_append (out out' : List Output) :
    actions (out ++ out') = actions out ++ actions out' := List.filterMap_append

/-- The bytes of two parts of a run. -/
@[simp] lemma sent_append (out out' : List Output) : sent (out ++ out') = sent out ++ sent out' :=
  List.flatMap_append

/-- A part of a run in which the socket takes bytes. -/
@[simp] lemma actions_put_cons (data : Bytes) (out : List Output) :
    actions (.put data :: out) = actions out := rfl

/-- The bytes of such a part. -/
@[simp] lemma sent_put_cons (data : Bytes) (out : List Output) :
    sent (.put data :: out) = data ++ sent out := rfl

/-- The actions of a handler. -/
@[simp] lemma actions_map_action (as : List Action) : actions (as.map .action) = as := by
  induction as with
  | nil => rfl
  | cons a as ih => exact congrArg (a :: ·) ih

/-- A handler puts nothing on the socket itself. -/
@[simp] lemma sent_map_action (as : List Action) : sent (as.map .action) = [] := by
  induction as with
  | nil => rfl
  | cons a as ih => exact ih

/-! ## The phases of a connection -/

variable {docRoot : Bytes} {fs : FileSystem} {s s' : State} {buffer : Bytes} {es : List Event}
  {out : List Output}

/-- What a connection has done: it reads and has sent nothing, or it writes and the write has made
some progress, or it has ended, and then its reply is complete if the socket was shut down. -/
inductive Phase : State → List Action → Bytes → Prop
  | reading {session : Session} {as : List Action}
    (outstanding : session.outstanding = some .asyncReadSome)
    (silent : ∀ b, .start (.asyncWrite b) ∉ as) (open' : .shutdown ∉ as) :
    Phase ⟨session, none⟩ as []
  | writing {session : Session} {op : WriteOp} {as : List Action} {data : Bytes}
    {xs : List (Transfer Failure)}
    (outstanding : session.outstanding = some (.asyncWrite session.connection.reply.wire))
    (progress : Asio.Progress (consumingBuffers UInt8) transferAll aborted
      ConsumingBuffers.Holds session.connection.reply.wire op xs data)
    (moves : ∀ x ∈ xs, ¬ (x.ec = none ∧ x.bytesTransferred = 0))
    (started : .start (.asyncWrite session.connection.reply.wire) ∈ as)
    (only : ∀ b, .start (.asyncWrite b) ∈ as → b = session.connection.reply.wire)
    (open' : .shutdown ∉ as) :
    Phase ⟨session, some op⟩ as data
  | ended {session : Session} {as : List Action} {data : Bytes}
    (outstanding : session.outstanding = none)
    (data_eq : (∀ b, .start (.asyncWrite b) ∉ as) ∧ .shutdown ∉ as ∧ data = [] ∨
      ∃ b, .start (.asyncWrite b) ∈ as ∧ (∀ b', .start (.asyncWrite b') ∈ as → b' = b) ∧
        data <+: b ∧ (.shutdown ∈ as → data = b)) :
    Phase ⟨session, none⟩ as data

/-- A read completes while the connection reads. -/
lemma phase_read {session session' : Session} {as as' : List Action} {ec : ErrorCode}
    {data : Bytes} (hout : session.outstanding = some .asyncReadSome)
    (hsilent : ∀ b, .start (.asyncWrite b) ∉ as) (hopen : .shutdown ∉ as)
    (hstep : Server2.sessionStep docRoot fs session (.read ec data) = some (session', as')) :
    Phase (.after session') (as ++ as') [] := by
  obtain ⟨ec, data, -, heq, hread, -, -⟩ | ⟨_, _, hwrite, -⟩ := Session.step_cases hstep
  · obtain ⟨rfl, rfl⟩ := Completion.read.inj heq
    by_cases hec : ec = .success
    · subst hec
      rw [Server2.sessionStep_read docRoot fs hout hread] at hstep
      obtain ⟨rfl, rfl⟩ := Prod.mk.inj (Option.some.inj hstep)
      obtain ⟨-, hop, -⟩ | ⟨-, hop, -⟩ := proceed_cases docRoot fs (session.connection.fill data)
        (session.connection.requestParser.parse session.connection.request data)
      · simp only [State.after, hop]
        refine .reading rfl (fun b hb => ?_) ?_
        · simp [hsilent b] at hb
        · simpa using hopen
      · simp only [State.after, hop]
        refine .writing rfl (.start (Asio.ConsumingBuffers.holds_new _)) (by simp) (by simp) ?_ ?_
        · intro b hb
          simpa [hsilent b] using hb
        · simpa using hopen
    · rw [Server2.sessionStep_read_error docRoot fs hout hread hec] at hstep
      obtain ⟨rfl, rfl⟩ := Prod.mk.inj (Option.some.inj hstep)
      rw [List.append_nil]
      exact .ended rfl (Or.inl ⟨hsilent, hopen, rfl⟩)
  · rw [hout] at hwrite
    cases hwrite

/-- A portion of the reply is written. -/
lemma phase_write {session : Session} {op : WriteOp} {as : List Action}
    {data portion : Bytes} {xs : List (Transfer Failure)} {x : Transfer Failure}
    (hprogress : Asio.Progress (consumingBuffers UInt8) transferAll aborted
      ConsumingBuffers.Holds session.connection.reply.wire op xs data)
    (hmoves : ∀ y ∈ xs ++ [x], ¬ (y.ec = none ∧ y.bytesTransferred = 0))
    (hstarted : .start (.asyncWrite session.connection.reply.wire) ∈ as)
    (honly : ∀ b, .start (.asyncWrite b) ∈ as → b = session.connection.reply.wire)
    (hopen : .shutdown ∉ as) {ec : Option Failure} {total : ℕ}
    (hop : op.step (consumingBuffers UInt8) transferAll aborted x =
      some (.called ec total, portion)) :
    Phase ⟨⟨session.connection, none⟩, none⟩
      (as ++ if toErrorCode ec = .success then [.shutdown] else []) (data ++ portion) := by
  have hprogress' := hprogress.step Asio.consumingBuffers_represents hop
  have hstart : ∀ b, Action.start (.asyncWrite b) ∈
      (if toErrorCode ec = .success then [Action.shutdown] else []) → False := by
    intro b hb
    split_ifs at hb <;> simp at hb
  refine .ended rfl (Or.inr ⟨_, List.mem_append_left _ hstarted, ?_, hprogress'.isPrefix.1, ?_⟩)
  · intro b hb
    rcases List.mem_append.mp hb with hb | hb
    · exact honly b hb
    · exact (hstart b hb).elim
  · intro hshutdown
    have hec : toErrorCode ec = .success := by
      by_contra hne
      rw [if_neg hne, List.append_nil] at hshutdown
      exact hopen hshutdown
    have hnone : ec = none := by
      rcases ec with _ | e
      · rfl
      · exact absurd hec e.2
    subst hnone
    rcases hprogress'.success with hall | hcondition | ⟨y, hy, hzero⟩
    · exact hall
    · exact absurd hcondition (Nat.succ_ne_zero _)
    · exact absurd hzero (hmoves y hy)

/-- What the connection does is what a session does, in some phase. -/
structure Delivers (docRoot : Bytes) (fs : FileSystem) (buffer : Bytes) (s : State)
    (es : List Event) (out : List Output) : Prop where
  exists_session : ∃ completions, Machine.run (Server2.sessionStep docRoot fs)
    (.started buffer) completions = some (s.session, actions out)
  phase : (∀ x, .writeSome x ∈ es → ¬ (x.ec = none ∧ x.bytesTransferred = 0)) →
    Phase s (actions out) (sent out)

/-- A handler runs on as it does in the session. -/
lemma exists_session_step {session session' : Session} {as as' : List Action} {e : Completion}
    (h : ∃ completions, Machine.run (Server2.sessionStep docRoot fs) (.started buffer) completions =
      some (session, as))
    (hstep : Server2.sessionStep docRoot fs session e = some (session', as')) :
    ∃ completions, Machine.run (Server2.sessionStep docRoot fs) (.started buffer) completions =
      some (session', as ++ as') := by
  obtain ⟨completions, hrun⟩ := h
  exact ⟨completions ++ [e], Machine.run_concat_iff.mpr ⟨_, _, _, hrun, hstep, rfl⟩⟩

/-- An event of a connection: a read completes, the socket takes a portion of a reply and the write
goes on, or the write completes. -/
lemma step_cases {e : Event} (hstep : step docRoot fs s e = some (s', out)) :
    (∃ ec data session as, e = .readSome ec data ∧
        Server2.sessionStep docRoot fs s.session (.read ec data) = some (session, as) ∧
        s' = .after session ∧ out = as.map .action) ∨
    (∃ x op op' data, e = .writeSome x ∧ s.writeOp = some op ∧
        op.step (consumingBuffers UInt8) transferAll aborted x = some (op', data) ∧
        (∀ ec total, op' ≠ .called ec total) ∧ s' = ⟨s.session, some op'⟩ ∧ out = [.put data]) ∨
    ∃ x op ec total data session as, e = .writeSome x ∧ s.writeOp = some op ∧
        op.step (consumingBuffers UInt8) transferAll aborted x = some (.called ec total, data) ∧
        Server2.sessionStep docRoot fs s.session (.write (toErrorCode ec)) = some (session, as) ∧
        s' = .after session ∧ out = .put data :: as.map .action := by
  rcases e with ⟨ec, data⟩ | x
  · obtain ⟨⟨session, as⟩, hsession, heq⟩ := Option.map_eq_some_iff.mp hstep
    obtain ⟨rfl, rfl⟩ := Prod.mk.inj heq
    exact Or.inl ⟨ec, data, session, as, rfl, hsession, rfl, rfl⟩
  · right
    simp only [step] at hstep
    rcases hop : s.writeOp with _ | op
    · simp [hop] at hstep
    · rcases hnext : op.step (consumingBuffers UInt8) transferAll aborted x with
        _ | ⟨_ | ⟨ec, total⟩, data⟩
      · simp [hop, hnext] at hstep
      · simp only [hop, hnext, Option.some.injEq, Prod.mk.injEq] at hstep
        obtain ⟨rfl, rfl⟩ := hstep
        refine Or.inl ⟨x, op, _, data, rfl, rfl, hnext, fun ec total h => ?_, rfl, rfl⟩
        cases h
      · simp only [hop, hnext] at hstep
        obtain ⟨⟨session, as⟩, hsession, heq⟩ := Option.map_eq_some_iff.mp hstep
        obtain ⟨rfl, rfl⟩ := Prod.mk.inj heq
        exact Or.inr ⟨x, op, ec, total, data, session, as, rfl, rfl, hnext, hsession, rfl, rfl⟩

/-- Every event keeps the connection in its phases. -/
lemma Delivers.step (h : Delivers docRoot fs buffer s es out) {e : Event} {o : List Output}
    (hstep : Delivery.step docRoot fs s e = some (s', o)) :
    Delivers docRoot fs buffer s' (es ++ [e]) (out ++ o) := by
  have hmoves : (∀ x, .writeSome x ∈ es ++ [e] → ¬ (x.ec = none ∧ x.bytesTransferred = 0)) →
      ∀ x, .writeSome x ∈ es → ¬ (x.ec = none ∧ x.bytesTransferred = 0) :=
    fun hes x hx => hes x (List.mem_append_left _ hx)
  obtain ⟨ec, data, session, as, rfl, hsession, rfl, rfl⟩ |
    ⟨x, op, op', data, rfl, hwrite, hop, hcalled, rfl, rfl⟩ |
    ⟨x, op, ec, total, data, session, as, rfl, hwrite, hop, hsession, rfl, rfl⟩ := step_cases hstep
  · refine ⟨?_, fun hes => ?_⟩
    · rw [actions_append, actions_map_action, State.after_session]
      exact exists_session_step h.exists_session hsession
    · have hphase := h.phase (hmoves hes)
      rw [actions_append, actions_map_action, sent_append, sent_map_action, List.append_nil]
      generalize actions out = as₀, sent out = data₀ at hphase
      rcases hphase with ⟨hout, hsilent, hopen⟩ | ⟨hout, -⟩ | ⟨hout, -⟩
      · exact phase_read hout hsilent hopen hsession
      · obtain ⟨_, _, hread, -⟩ | ⟨_, _, -, heq, -⟩ := Session.step_cases hsession
        · rw [hout] at hread
          cases hread
        · cases heq
      · obtain ⟨_, _, hread, -⟩ | ⟨_, _, -, heq, -⟩ := Session.step_cases hsession
        · rw [hout] at hread
          cases hread
        · cases heq
  · refine ⟨?_, fun hes => ?_⟩
    · rw [actions_append, actions_put_cons, actions_nil, List.append_nil]
      exact h.exists_session
    · have hphase := h.phase (hmoves hes)
      have hx := hes x (List.mem_append_right _ (List.mem_singleton_self _))
      rw [actions_append, actions_put_cons, actions_nil, List.append_nil, sent_append,
        sent_put_cons, sent_nil, List.append_nil]
      generalize actions out = as₀, sent out = data₀ at hphase
      rcases hphase with _ | ⟨hout, hprogress, hxs, hstarted, honly, hopen⟩ | _
      · cases hwrite
      · obtain rfl := Option.some.inj hwrite
        exact .writing hout (hprogress.step Asio.consumingBuffers_represents hop)
          (List.forall_mem_append.mpr ⟨hxs, List.forall_mem_singleton.mpr hx⟩) hstarted honly hopen
      · cases hwrite
  · refine ⟨?_, fun hes => ?_⟩
    · rw [actions_append, actions_put_cons, actions_map_action, State.after_session]
      exact exists_session_step h.exists_session hsession
    · have hphase := h.phase (hmoves hes)
      have hx := hes x (List.mem_append_right _ (List.mem_singleton_self _))
      rw [actions_append, actions_put_cons, actions_map_action, sent_append, sent_put_cons,
        sent_map_action, List.append_nil]
      generalize actions out = as₀, sent out = data₀ at hphase
      rcases hphase with _ | ⟨hout, hprogress, hxs, hstarted, honly, hopen⟩ | _
      · cases hwrite
      · obtain rfl := Option.some.inj hwrite
        rw [Server2.sessionStep_write docRoot fs hout] at hsession
        obtain ⟨rfl, rfl⟩ := Prod.mk.inj (Option.some.inj hsession)
        exact phase_write hprogress
          (List.forall_mem_append.mpr ⟨hxs, List.forall_mem_singleton.mpr hx⟩) hstarted honly hopen
          hop
      · cases hwrite

/-- **Delivery.**  Whatever portions arrive and whatever portions of the reply the socket takes, the
handlers of a connection do what they do in a session of `http_server2`; the bytes that the socket
has taken are the beginning of one answer to the request of this connection, the only one that the
connection writes, and the whole of it once the connection is shut down, as long as the socket never
takes nothing without an error. -/
theorem reply_delivered {files : Bytes → Option Bytes}
    (hrun : Machine.run (step docRoot (readableFiles files)) (.started buffer) es = some (s, out))
    (hmoves : ∀ x, .writeSome x ∈ es → ¬ (x.ec = none ∧ x.bytesTransferred = 0)) :
    (∃ completions, Machine.run (Server2.sessionStep docRoot (readableFiles files))
        (.started buffer) completions = some (s.session, actions out)) ∧
      ∃ answer, IsAnswer docRoot files s.session.connection.request answer ∧
        (∀ b, .start (.asyncWrite b) ∈ actions out → b = answer) ∧ sent out <+: answer ∧
        (.shutdown ∈ actions out → sent out = answer) := by
  have hdelivers : Delivers docRoot (readableFiles files) buffer s es out := by
    refine Machine.run_history (I := Delivers docRoot (readableFiles files) buffer) hrun
      ⟨⟨[], rfl⟩, fun _ => .reading rfl (by simp) (by simp)⟩ ?_
    intro t t' e es o o' ht hstep
    exact ht.step hstep
  obtain ⟨⟨completions, hsession⟩, hphase⟩ := hdelivers
  refine ⟨⟨completions, hsession⟩, ?_⟩
  have hanswer : ∀ b, .start (.asyncWrite b) ∈ actions out →
      IsAnswer docRoot files s.session.connection.request b :=
    fun b hb => Server3.isAnswer_of_session hsession hb
  have hstock := isAnswer_stockReply docRoot files s.session.connection.request
    (List.mem_cons_self (a := StatusType.badRequest) (l := [.notFound]))
  have hphase' := hphase hmoves
  generalize actions out = as, sent out = data at *
  rcases hphase' with ⟨-, hsilent, hopen⟩ | ⟨-, hprogress, -, hstarted, honly, hopen⟩ |
    ⟨-, ⟨hsilent, hopen, rfl⟩ | ⟨b, hstarted, honly, hdata, hall⟩⟩
  · exact ⟨_, hstock, fun b hb => absurd hb (hsilent b), List.nil_prefix, fun h => absurd h hopen⟩
  · exact ⟨_, hanswer _ hstarted, honly, hprogress.isPrefix.1, fun h => absurd h hopen⟩
  · exact ⟨_, hstock, fun b hb => absurd hb (hsilent b), List.nil_prefix, fun h => absurd h hopen⟩
  · exact ⟨b, hanswer b hstarted, honly, hdata, hall⟩

/-- A bad request arrives in two portions, and the socket takes the rejection in two portions, the
second one being the last eleven bytes. -/
def twoPortions : List Event :=
  [.readSome .success (bytes "G"), .readSome .success (bytes "("),
    .writeSome ⟨none, (stockReply .badRequest).wire.length - 11, false⟩,
    .writeSome ⟨none, 11, false⟩]

/-- The rejection is delivered as a whole. -/
theorem reply_delivered_twoPortions :
    ∃ s out, Machine.run (step (bytes "/srv") (readableFiles fun _ => none)) (.started [])
        twoPortions = some (s, out) ∧
      (∃ completions, Machine.run (Server2.sessionStep (bytes "/srv") (readableFiles fun _ => none))
          (.started []) completions = some (s.session, actions out)) ∧
        ∃ answer, IsAnswer (bytes "/srv") (fun _ => none) s.session.connection.request answer ∧
          (∀ b, .start (.asyncWrite b) ∈ actions out → b = answer) ∧ sent out <+: answer ∧
          (.shutdown ∈ actions out → sent out = answer) := by
  obtain ⟨⟨s, out⟩, hrun⟩ := Option.isSome_iff_exists.mp
    (show (Machine.run (step (bytes "/srv") (readableFiles fun _ => none)) (.started [])
      twoPortions).isSome by decide +kernel)
  refine ⟨s, out, hrun, reply_delivered hrun ?_⟩
  intro x hx
  simp only [twoPortions, List.mem_cons, reduceCtorEq, Event.writeSome.injEq, List.not_mem_nil,
    or_false, false_or] at hx
  rcases hx with rfl | rfl
  · decide +kernel
  · decide

end Delivery

end Http

end AsioStudy
