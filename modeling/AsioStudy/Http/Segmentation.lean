import AsioStudy.Http.Connection

/-!
# Cuts of the request stream

A connection of `http_server1` sees the bytes of its peer in reads of at most 8192 bytes, whose
boundaries are an accident of the network.  `Session.receive` lets a list of segments arrive as the
reads of `do_read` and reports what the calls of `parse` came to.

Since everything that `consume` remembers is in `state_` and in `request_`, the boundaries leave no
trace: `segmentation_irrelevant` compares two arbitrary segmentations with a single call of `parse`
on the bytes up to the deciding one.
-/

namespace AsioStudy

namespace Http

/-! ## Reads one after the other -/

/-- What the reads of a connection come to: the last result of `parse`, how many bytes the calls
have consumed in all, the connection with its next operation, and the actions of the handlers. -/
structure Reception where
  /-- The first definite result, if there is one. -/
  result : ResultType
  /-- The number of bytes that the calls of `parse` have consumed. -/
  consumed : ℕ
  /-- The connection and its outstanding operation. -/
  session : Session
  /-- What the handlers have done. -/
  actions : List Action
  deriving DecidableEq, Repr

/-- The segments arrive as the reads of `do_read`, one after the other; after the first definite
result no read is outstanding and the remaining segments are not received. -/
def Session.receive (docRoot : Bytes) (fs : FileSystem) (s : Session) :
    List Bytes → Option Reception
  | [] => some ⟨.indeterminate, 0, s, []⟩
  | data :: segments =>
    match Server1.sessionStep docRoot fs s (.read .success data) with
    | none => none
    | some (s', out) =>
      let o := s.connection.requestParser.parse s.connection.request data
      match o.result with
      | .indeterminate =>
        (s'.receive docRoot fs segments).map fun r =>
          { r with consumed := data.length + r.consumed, actions := out ++ r.actions }
      | result => some ⟨result, data.length - o.rest.length, s', out⟩

/-- The bytes that a list of actions writes to the socket. -/
def writtenBuffers (actions : List Action) : List Bytes :=
  actions.filterMap fun a =>
    match a with
    | .start (.asyncWrite buffers) => some buffers
    | _ => none

/-- A successful read of a connection of `http_server1`. -/
lemma Server1.sessionStep_read (docRoot : Bytes) (fs : FileSystem) {s : Session} {data : Bytes}
    (hout : s.outstanding = some .asyncReadSome) (hread : IsReadResult .success data) :
    Server1.sessionStep docRoot fs s (.read .success data) =
      let r := (s.connection.fill data).proceed docRoot fs
        (s.connection.requestParser.parse s.connection.request data)
      some (⟨r.1, some r.2⟩, [.start r.2]) := by
  unfold Server1.sessionStep
  rw [Session.step_read _ _ hout hread]
  simp only [Server1.readHandler, if_true, received_fill]
  rfl

/-! ## The reply -/

/-- The reply after a call of `parse` on a request: composed by the handler, a rejection, or the
reply there was. -/
def replyTo (docRoot : Bytes) (fs : FileSystem) (rep : Reply) (o : ParseOutcome) : Reply :=
  match o.result with
  | .good => (handleRequest docRoot fs o.request rep).rep
  | .bad => stockReply .badRequest
  | .indeterminate => rep

/-- What is written after a call of `parse`: the reply, once there is one. -/
def answerTo (docRoot : Bytes) (fs : FileSystem) (rep : Reply) (o : ParseOutcome) : List Bytes :=
  if o.result = .indeterminate then [] else [(replyTo docRoot fs rep o).wire]

/-- The reply of the connection after the call of `parse`. -/
lemma proceed_reply (docRoot : Bytes) (fs : FileSystem) (c : Connection) (o : ParseOutcome) :
    (c.proceed docRoot fs o).1.reply = replyTo docRoot fs c.reply o := by
  unfold Connection.proceed replyTo
  cases o.result <;> rfl

/-- A definite result is followed by the write of the reply, any other one by a read. -/
lemma proceed_operation (docRoot : Bytes) (fs : FileSystem) (c : Connection) (o : ParseOutcome) :
    (c.proceed docRoot fs o).2 =
      if o.result = .indeterminate then .asyncReadSome
      else .asyncWrite (replyTo docRoot fs c.reply o).wire := by
  unfold Connection.proceed replyTo
  cases o.result <;> rfl

/-! ## Receptions and single calls -/

/-- A call of `parse` has consumed what it does not return. -/
lemma consumed_parse (p : RequestParser) (req : Request) (s : Bytes) :
    (p.parse req s).Consumed s (s.length - (p.parse req s).rest.length) := by
  have hsuffix : (p.parse req s).rest <:+ s := by
    rw [parse_eq_run]
    exact Recogniser.run_rest_isSuffix _ _
  exact ⟨Nat.sub_le _ _, List.suffix_iff_eq_drop.mp hsuffix⟩

/-- The bytes that were consumed of a range are consumed of its extensions. -/
lemma ParseOutcome.Consumed.append {o : ParseOutcome} {s : Bytes} {k : ℕ} (h : o.Consumed s k)
    (t : Bytes) : ({ o with rest := o.rest ++ t } : ParseOutcome).Consumed (s ++ t) k := by
  refine ⟨by rw [List.length_append]; exact h.1.trans (Nat.le_add_right _ _), ?_⟩
  rw [h.2, List.drop_append_of_le_length h.1]

/-- A range is consumed up to one point only. -/
lemma ParseOutcome.Consumed.unique {o : ParseOutcome} {s : Bytes} {j k : ℕ} (hj : o.Consumed s j)
    (hk : o.Consumed s k) : j = k := by
  have hlen : (s.drop j).length = (s.drop k).length := by rw [← hj.2, ← hk.2]
  have hjs := hj.1
  have hks := hk.1
  rw [List.length_drop, List.length_drop] at hlen
  omega

/-- A reception comes to what a single call of `parse` on the range `stream` with the outcome `o`
comes to, for a connection whose reply was `rep`. -/
structure Reception.Agrees (docRoot : Bytes) (fs : FileSystem) (rep : Reply) (o : ParseOutcome)
    (stream : Bytes) (r : Reception) : Prop where
  /-- The verdict is the same. -/
  result : r.result = o.result
  /-- The request has the same contents. -/
  request : r.session.connection.request = o.request
  /-- The parser is in the same state. -/
  parser : r.session.connection.requestParser = o.parser
  /-- The same bytes have been consumed. -/
  consumed : o.Consumed stream r.consumed
  /-- The reply is the one that the outcome asks for. -/
  reply : r.session.connection.reply = replyTo docRoot fs rep o
  /-- Exactly the bytes of the reply are written. -/
  written : writtenBuffers r.actions = answerTo docRoot fs rep o
  /-- The connection goes on reading if and only if the outcome is not definite. -/
  reading : r.session.outstanding = some .asyncReadSome ↔ o.result = .indeterminate

/-- What can be told about a reception: the verdict, the request, the parser, the number of consumed
bytes and the bytes that are written. -/
def Reception.view (r : Reception) : ResultType × Request × RequestParser × ℕ × List Bytes :=
  (r.result, r.session.connection.request, r.session.connection.requestParser, r.consumed,
    writtenBuffers r.actions)

/-- Receptions that come to the same call of `parse` cannot be told apart. -/
lemma Reception.Agrees.view_eq {docRoot : Bytes} {fs : FileSystem} {rep : Reply} {o : ParseOutcome}
    {stream : Bytes} {r r' : Reception} (h : r.Agrees docRoot fs rep o stream)
    (h' : r'.Agrees docRoot fs rep o stream) : r.view = r'.view := by
  unfold Reception.view
  rw [h.result, h.request, h.parser, h.consumed.unique h'.consumed, h.written, h'.result,
    h'.request, h'.parser, h'.written]

/-- Bytes after the deciding one do not count. -/
lemma Reception.Agrees.of_append {docRoot : Bytes} {fs : FileSystem} {rep : Reply}
    {p : RequestParser} {req : Request} {stream t : Bytes} {r : Reception}
    (h : r.Agrees docRoot fs rep (p.parse req (stream ++ t)) (stream ++ t))
    (hdecided : (p.parse req stream).result ≠ .indeterminate) :
    r.Agrees docRoot fs rep (p.parse req stream) stream := by
  rw [parse_append_of_ne_indeterminate hdecided] at h
  have hconsumed : (p.parse req stream).Consumed stream r.consumed := by
    have hparse := consumed_parse p req stream
    rw [h.consumed.unique (hparse.append t)]
    exact hparse
  exact ⟨h.result, h.request, h.parser, hconsumed, h.reply, h.written, h.reading⟩

section Receive

variable (docRoot : Bytes) (fs : FileSystem)

/-- The first read does not decide: the connection reads on. -/
lemma receive_cons_of_indeterminate {s : Session} {data : Bytes}
    (hout : s.outstanding = some .asyncReadSome) (hread : IsReadResult .success data)
    (h : (s.connection.requestParser.parse s.connection.request data).result = .indeterminate)
    (segments : List Bytes) :
    s.receive docRoot fs (data :: segments) =
      (Session.receive docRoot fs
        ⟨((s.connection.fill data).proceed docRoot fs
          (s.connection.requestParser.parse s.connection.request data)).1,
          some .asyncReadSome⟩ segments).map fun r =>
        { r with consumed := data.length + r.consumed,
                 actions := .start .asyncReadSome :: r.actions } := by
  have hop := proceed_operation docRoot fs (s.connection.fill data)
    (s.connection.requestParser.parse s.connection.request data)
  rw [if_pos h] at hop
  simp only [Session.receive, Server1.sessionStep_read docRoot fs hout hread, h, hop]
  rfl

/-- The first read decides: the reply is written. -/
lemma receive_cons_of_ne_indeterminate {s : Session} {data : Bytes}
    (hout : s.outstanding = some .asyncReadSome) (hread : IsReadResult .success data)
    (h : (s.connection.requestParser.parse s.connection.request data).result ≠ .indeterminate)
    (segments : List Bytes) :
    s.receive docRoot fs (data :: segments) =
      let o := s.connection.requestParser.parse s.connection.request data
      let write := Operation.asyncWrite (replyTo docRoot fs s.connection.reply o).wire
      some ⟨o.result, data.length - o.rest.length,
        ⟨((s.connection.fill data).proceed docRoot fs o).1, some write⟩, [.start write]⟩ := by
  have hop := proceed_operation docRoot fs (s.connection.fill data)
    (s.connection.requestParser.parse s.connection.request data)
  rw [if_neg h] at hop
  simp only [Session.receive, Server1.sessionStep_read docRoot fs hout hread, hop]
  rfl

/-- Segments that arrive at a reading connection come to what a single call of `parse` on all their
bytes comes to. -/
lemma receive_agrees {s : Session} (hout : s.outstanding = some .asyncReadSome)
    {segments : List Bytes} (hread : ∀ data ∈ segments, IsReadResult .success data) :
    ∃ r, s.receive docRoot fs segments = some r ∧
      r.Agrees docRoot fs s.connection.reply
        (s.connection.requestParser.parse s.connection.request segments.flatten)
        segments.flatten := by
  induction segments generalizing s with
  | nil =>
    exact ⟨_, rfl, rfl, rfl, rfl, ⟨le_rfl, rfl⟩, rfl, rfl, by simp [hout, RequestParser.parse]⟩
  | cons data segments ih =>
    obtain ⟨hdata, hsegments⟩ := List.forall_mem_cons.mp hread
    rw [List.flatten_cons]
    by_cases h : (s.connection.requestParser.parse s.connection.request data).result =
      .indeterminate
    · rw [receive_cons_of_indeterminate docRoot fs hout hdata h]
      obtain ⟨r, hr, hagrees⟩ := ih (s := ⟨((s.connection.fill data).proceed docRoot fs
        (s.connection.requestParser.parse s.connection.request data)).1, some .asyncReadSome⟩)
        rfl hsegments
      rw [hr]
      refine ⟨_, rfl, ?_⟩
      -- the connection goes on with the parser and the request of the first call
      simp only [requestParser_proceed, request_proceed, proceed_reply,
        ← parse_append_of_indeterminate h] at hagrees
      have hreply : replyTo docRoot fs (s.connection.fill data).reply
          (s.connection.requestParser.parse s.connection.request data) = s.connection.reply := by
        rw [replyTo, h]
        rfl
      rw [hreply] at hagrees
      obtain ⟨hle, hrest⟩ := hagrees.consumed
      refine { hagrees with consumed := ⟨?_, ?_⟩, written := ?_ }
      · rw [List.length_append]
        exact Nat.add_le_add_left hle _
      · rw [hrest, List.drop_append, List.drop_eq_nil_of_le (Nat.le_add_right _ _),
          Nat.add_sub_cancel_left, List.nil_append]
      · exact hagrees.written
    · rw [receive_cons_of_ne_indeterminate docRoot fs hout hdata h,
        parse_append_of_ne_indeterminate h]
      refine ⟨_, rfl, rfl, request_proceed .., requestParser_proceed ..,
        (consumed_parse _ _ _).append _, proceed_reply .., ?_, ?_⟩
      · rw [answerTo, if_neg h]
        rfl
      · simp [h]

end Receive

/-! ## The main result -/

/-- A new connection that receives a stream, and perhaps more after the deciding byte, comes to what
a call of `parse` on the stream comes to. -/
lemma receive_started (docRoot : Bytes) (fs : FileSystem) (buffer : Bytes) {segments : List Bytes}
    {stream t : Bytes} (hread : ∀ data ∈ segments, IsReadResult .success data)
    (hstream : segments.flatten = stream ++ t)
    (hdecided : t = [] ∨
      (RequestParser.fresh.parse Request.empty stream).result ≠ .indeterminate) :
    ∃ r, (Session.started buffer).receive docRoot fs segments = some r ∧
      r.Agrees docRoot fs Reply.empty (RequestParser.fresh.parse Request.empty stream) stream := by
  obtain ⟨r, hr, hagrees⟩ := receive_agrees docRoot fs (s := Session.started buffer) rfl hread
  rw [hstream] at hagrees
  refine ⟨r, hr, ?_⟩
  rcases hdecided with rfl | hdecided
  · rw [List.append_nil] at hagrees
    exact hagrees
  · exact hagrees.of_append hdecided

/-- **Segmentation is irrelevant.**  Let two connections of `http_server1` receive two segmentations
into reads of 1 to 8192 bytes of the streams `stream ++ t` and `stream ++ t'`, where either nothing
follows `stream` or `stream` already decides.  Both receptions come to what one call of `parse` on
`stream` comes to: the same verdict, request, parser state and number of consumed bytes, and, with
the same files, the same reply.  In particular they cannot be told apart. -/
theorem segmentation_irrelevant (docRoot : Bytes) (fs : FileSystem) (buffer buffer' : Bytes)
    (segments segments' : List Bytes) (stream t t' : Bytes)
    (hread : ∀ data ∈ segments, IsReadResult .success data)
    (hread' : ∀ data ∈ segments', IsReadResult .success data)
    (hstream : segments.flatten = stream ++ t) (hstream' : segments'.flatten = stream ++ t')
    (hdecided : (t = [] ∧ t' = []) ∨
      (RequestParser.fresh.parse Request.empty stream).result ≠ .indeterminate) :
    ∃ r r', (Session.started buffer).receive docRoot fs segments = some r ∧
      (Session.started buffer').receive docRoot fs segments' = some r' ∧
      r.Agrees docRoot fs Reply.empty (RequestParser.fresh.parse Request.empty stream) stream ∧
      r'.Agrees docRoot fs Reply.empty (RequestParser.fresh.parse Request.empty stream) stream ∧
      r.view = r'.view := by
  obtain ⟨r, hr, hagrees⟩ :=
    receive_started docRoot fs buffer hread hstream (hdecided.imp_left And.left)
  obtain ⟨r', hr', hagrees'⟩ :=
    receive_started docRoot fs buffer' hread' hstream' (hdecided.imp_left And.right)
  exact ⟨r, r', hr, hr', hagrees, hagrees', hagrees.view_eq hagrees'⟩

/-- The request `GET / HTTP/1.0` in one read and cut inside both of its line ends, with further
bytes after it. -/
theorem segmentation_irrelevant_cut_crlf :
    ∃ r r',
      (Session.started []).receive (bytes "/srv") (readableFiles fun _ => none)
        [bytes "GET / HTTP/1.0\r\n\r\n"] = some r ∧
      (Session.started []).receive (bytes "/srv") (readableFiles fun _ => none)
        [bytes "GET / HTTP/1.0\r", bytes "\n\r", bytes "\nGET", bytes "x"] = some r' ∧
      r.Agrees (bytes "/srv") (readableFiles fun _ => none) Reply.empty
        (RequestParser.fresh.parse Request.empty (bytes "GET / HTTP/1.0\r\n\r\n"))
        (bytes "GET / HTTP/1.0\r\n\r\n") ∧
      r'.Agrees (bytes "/srv") (readableFiles fun _ => none) Reply.empty
        (RequestParser.fresh.parse Request.empty (bytes "GET / HTTP/1.0\r\n\r\n"))
        (bytes "GET / HTTP/1.0\r\n\r\n") ∧
      r.view = r'.view :=
  segmentation_irrelevant (bytes "/srv") (readableFiles fun _ => none) [] []
    [bytes "GET / HTTP/1.0\r\n\r\n"]
    [bytes "GET / HTTP/1.0\r", bytes "\n\r", bytes "\nGET", bytes "x"]
    (bytes "GET / HTTP/1.0\r\n\r\n") [] (bytes "GETx") (by decide +kernel) (by decide +kernel)
    (by decide +kernel) (by decide +kernel) (Or.inr (by decide +kernel))

end Http

end AsioStudy
