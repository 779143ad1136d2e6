import AsioStudy.Http.Server1

/-!
# The life cycle of `http_server1`

The invariant of the server over all runs, in whatever order operations complete and handlers run.
It is carried by what is known about a single connection (`ConnectionObject.Ok`): a managed
connection is an open one, and it has exactly one operation outstanding, which is a read while it
has written nothing and otherwise the write of its present reply.

The main result is `lifecycle`.
-/

namespace AsioStudy

namespace Http

namespace Server1

/-! ## What the actions of a connection change -/

/-- The effect of an action on the object of the connection itself. -/
def ConnectionObject.perform (o : ConnectionObject) : Action → ConnectionObject
  | .start op => o.start op
  | .shutdown => o
  | .managerStop => o.stop

/-- The actions of a connection change its object and, if it is stopped, the managed set. -/
lemma foldl_perform (i : ℕ) (acts : List Action) (s : Server) :
    acts.foldl (Server.perform i) s =
      { s with
        objects := s.objects.modify i fun o => acts.foldl ConnectionObject.perform o
        connections :=
          if .managerStop ∈ acts then s.connections.filter (· ≠ i) else s.connections } := by
  induction acts generalizing s with
  | nil =>
    have hid : s.objects.modify i (fun o => o) = s.objects := List.modify_id i s.objects
    simp [hid]
  | cons a acts ih =>
    rw [List.foldl_cons, ih]
    cases a with
    | start op => simp [Server.perform, List.modify_modify_eq, Function.comp_def,
        ConnectionObject.perform]
    | shutdown => simp [Server.perform, ConnectionObject.perform]
    | managerStop => simp [Server.perform, Server.managerStop, List.modify_modify_eq,
        Function.comp_def, ConnectionObject.perform]

/-- The object of a connection after one of its handlers has run. -/
def ConnectionObject.handled (docRoot : Bytes) (fs : FileSystem) (o : ConnectionObject) (k : ℕ)
    (op : Operation) (ec : ErrorCode) (n : ℕ) : ConnectionObject :=
  (handler docRoot fs o.connection op ec n).2.foldl ConnectionObject.perform
    { o with
      connection := (handler docRoot fs o.connection op ec n).1
      pending := o.pending.eraseIdx k }

/-- A handler of a connection leaves all other connections alone. -/
lemma objects_runHandler (docRoot : Bytes) (fs : FileSystem) {s : Server} {i : ℕ} (k : ℕ)
    {o : ConnectionObject} (ho : s.objects[i]? = some o) (op : Operation) (ec : ErrorCode)
    (n j : ℕ) :
    (s.runHandler docRoot fs i k o op ec n).1.objects[j]? =
      if i = j then some (o.handled docRoot fs k op ec n) else s.objects[j]? := by
  simp only [Server.runHandler, foldl_perform]
  by_cases hij : i = j
  · subst hij
    simp [ho, ConnectionObject.handled]
  · simp [hij]

/-- A handler of a connection stops at most this connection. -/
lemma connections_runHandler (docRoot : Bytes) (fs : FileSystem) (s : Server) (i k : ℕ)
    (o : ConnectionObject) (op : Operation) (ec : ErrorCode) (n : ℕ) :
    (s.runHandler docRoot fs i k o op ec n).1.connections =
      if .managerStop ∈ (handler docRoot fs o.connection op ec n).2 then
        s.connections.filter (· ≠ i)
      else s.connections := by
  simp only [Server.runHandler, foldl_perform]

/-- A handler of a connection does not touch the acceptor. -/
lemma acceptor_runHandler (docRoot : Bytes) (fs : FileSystem) (s : Server) (i k : ℕ)
    (o : ConnectionObject) (op : Operation) (ec : ErrorCode) (n : ℕ) :
    (s.runHandler docRoot fs i k o op ec n).1.acceptorOpen = s.acceptorOpen ∧
      (s.runHandler docRoot fs i k o op ec n).1.accepts = s.accepts ∧
      (s.runHandler docRoot fs i k o op ec n).1.awaitingStop = s.awaitingStop ∧
      (s.runHandler docRoot fs i k o op ec n).1.objects.length = s.objects.length := by
  simp only [Server.runHandler, foldl_perform]
  simp

/-- Stopping a connection twice is the same as stopping it once. -/
lemma stop_stop (o : ConnectionObject) : o.stop.stop = o.stop := by
  have habort : Pending.abort ∘ Pending.abort = Pending.abort := by
    funext p
    simp [Pending.abort]
  simp [ConnectionObject.stop, habort]

/-- `stop_all` stops the managed connections and no others. -/
lemma getElem?_foldl_stop (connections : List ℕ) (objects : List ConnectionObject) (j : ℕ) :
    (connections.foldl (fun objects i => objects.modify i ConnectionObject.stop) objects)[j]? =
      if j ∈ connections then objects[j]?.map ConnectionObject.stop else objects[j]? := by
  induction connections generalizing objects with
  | nil => simp
  | cons i connections ih =>
    rw [List.foldl_cons, ih, List.getElem?_modify]
    by_cases hij : i = j
    · subst hij
      cases objects[i]? <;> simp [stop_stop]
    · simp [hij, Ne.symm hij]

/-! ## Counting writes -/

/-- The server starts a write on the connection `i`. -/
def isWriteStart (i : ℕ) : Output → Bool
  | .action j (.start (.asyncWrite _)) => i == j
  | _ => false

/-- A connection starts a write. -/
def isWrite : Action → Bool
  | .start (.asyncWrite _) => true
  | _ => false

/-- The number of writes that were started on a connection. -/
def writesStarted (i : ℕ) (out : List Output) : ℕ := out.countP (isWriteStart i)

/-- The writes of two stretches of a run add up. -/
@[simp] lemma writesStarted_append (i : ℕ) (out out' : List Output) :
    writesStarted i (out ++ out') = writesStarted i out + writesStarted i out' :=
  List.countP_append

/-- The actions of a connection are counted for this connection only. -/
lemma writesStarted_map_action (i j : ℕ) (acts : List Action) :
    writesStarted j (acts.map (Output.action i)) = if i = j then acts.countP isWrite else 0 := by
  rw [writesStarted, List.countP_map]
  by_cases hij : i = j
  · rw [if_pos hij]
    apply List.countP_congr
    intro a _
    cases a with
    | start op => cases op <;> simp [isWriteStart, isWrite, hij]
    | shutdown => simp [isWriteStart, isWrite]
    | managerStop => simp [isWriteStart, isWrite]
  · rw [if_neg hij, List.countP_eq_zero]
    intro a _
    cases a with
    | start op => cases op <;> simp [isWriteStart, Ne.symm hij]
    | shutdown => simp [isWriteStart]
    | managerStop => simp [isWriteStart]

/-! ## A single connection -/

/-- Exactly one operation is outstanding, where `writes` writes have been started so far: a read as
long as there was none, then the write of the reply.  Its result can only be an abortion if the
socket is closed. -/
structure ConnectionObject.OneOutstanding (o : ConnectionObject) (writes : ℕ) (p : Pending) :
    Prop where
  /-- Nothing else is outstanding. -/
  pending_eq : o.pending = [p]
  /-- What the operation is. -/
  op_eq : (p.op = .asyncReadSome ∧ writes = 0) ∨
    (p.op = .asyncWrite o.connection.reply.wire ∧ writes = 1)
  /-- Only closing the socket aborts an operation. -/
  aborted : ∀ n, p.result = some (.operationAborted, n) → o.socketOpen = false

/-- The invariant of one connection: whether it is managed, and how many writes it has started. -/
structure ConnectionObject.Ok (o : ConnectionObject) (managed : Prop) (writes : ℕ) : Prop where
  /-- The managed connections are the open ones. -/
  managed_iff : managed ↔ o.socketOpen = true
  /-- One operation is outstanding, or nothing and then the socket is closed. -/
  outstanding : (∃ p, o.OneOutstanding writes p) ∨
    (o.pending = [] ∧ o.socketOpen = false ∧ writes ≤ 1)

/-- A new connection whose first read was started. -/
lemma ok_started (buffer : Bytes) {managed : Prop} (h : managed) :
    (ConnectionObject.start ⟨Connection.fresh buffer, true, []⟩ .asyncReadSome).Ok managed 0 :=
  ⟨iff_of_true h rfl, Or.inl ⟨⟨.asyncReadSome, none⟩, rfl, Or.inl ⟨rfl, rfl⟩, by simp⟩⟩

/-- The completion of an operation. -/
lemma ConnectionObject.Ok.complete {o : ConnectionObject} {managed : Prop} {writes : ℕ}
    (h : o.Ok managed writes) {k : ℕ} {p : Pending} (hp : o.pending[k]? = some p) {ec : ErrorCode}
    {data : Bytes} (hresult : IsResult p.op ec data) :
    (o.complete k ec data).Ok managed writes := by
  refine ⟨h.managed_iff, ?_⟩
  rcases h.outstanding with ⟨q, hq⟩ | ⟨hnil, -, -⟩
  · obtain ⟨rfl, rfl⟩ : k = 0 ∧ q = p := by
      rw [hq.pending_eq, List.getElem?_singleton] at hp
      split at hp
      · rename_i hk
        exact ⟨hk, Option.some.inj hp⟩
      · cases hp
    have hec : ec ≠ .operationAborted := by
      unfold IsResult at hresult
      cases hop : q.op with
      | asyncReadSome =>
        rw [hop] at hresult
        exact hresult.1
      | asyncWrite buffers =>
        rw [hop] at hresult
        exact hresult.1
    refine Or.inl ⟨{ q with result := some (ec, data.length) }, ?_, hq.op_eq, ?_⟩
    · simp [ConnectionObject.complete, hq.pending_eq]
    · intro n hn
      simp [hec] at hn
  · rw [hnil] at hp
    simp at hp

/-- The stopping of a connection. -/
lemma ConnectionObject.Ok.stop {o : ConnectionObject} {managed managed' : Prop} {writes : ℕ}
    (h : o.Ok managed writes) (hm : ¬ managed') : o.stop.Ok managed' writes := by
  refine ⟨iff_of_false hm Bool.false_ne_true, ?_⟩
  rcases h.outstanding with ⟨q, hq⟩ | ⟨hnil, -, hw⟩
  · refine Or.inl ⟨q.abort, ?_, hq.op_eq, fun _ _ => rfl⟩
    simp [ConnectionObject.stop, hq.pending_eq]
  · refine Or.inr ⟨?_, rfl, hw⟩
    simp [ConnectionObject.stop, hnil]

/-- A handler that starts the next operation. -/
lemma ConnectionObject.Ok.startNext {o : ConnectionObject} {managed managed' : Prop} {writes : ℕ}
    (h : o.Ok managed writes) (hm : managed' ↔ managed) (c : Connection) {op : Operation}
    {writes' : ℕ} (hop : (op = .asyncReadSome ∧ writes' = 0) ∨
      (op = .asyncWrite c.reply.wire ∧ writes' = 1)) :
    (ConnectionObject.start { o with connection := c, pending := [] } op).Ok managed' writes' := by
  refine ⟨hm.trans h.managed_iff, Or.inl ⟨⟨op, _⟩, rfl, hop, ?_⟩⟩
  intro n hn
  split at hn <;> simp at hn

/-- A handler after which the connection is stopped with nothing outstanding. -/
lemma ok_stop_of_pending_nil {o : ConnectionObject} {managed : Prop} {writes : ℕ}
    (hnil : o.pending = []) (hm : ¬ managed) (hw : writes ≤ 1) : o.stop.Ok managed writes := by
  refine ⟨iff_of_false hm Bool.false_ne_true, Or.inr ⟨?_, rfl, hw⟩⟩
  rw [ConnectionObject.stop, hnil, List.map_nil]

/-- The handler of an operation of a connection: it leaves the managed set exactly if it is
stopped. -/
lemma ConnectionObject.Ok.handled {o : ConnectionObject} {managed : Prop} {writes : ℕ}
    (h : o.Ok managed writes) (docRoot : Bytes) (fs : FileSystem) {k : ℕ} {op : Operation}
    {ec : ErrorCode} {n : ℕ} (hp : o.pending[k]? = some ⟨op, some (ec, n)⟩) :
    (o.handled docRoot fs k op ec n).Ok
      (managed ∧ .managerStop ∉ (handler docRoot fs o.connection op ec n).2)
      (writes + (handler docRoot fs o.connection op ec n).2.countP isWrite) := by
  rcases h.outstanding with ⟨q, hq⟩ | ⟨hnil, -, -⟩
  · obtain ⟨rfl, rfl⟩ : k = 0 ∧ q = ⟨op, some (ec, n)⟩ := by
      rw [hq.pending_eq, List.getElem?_singleton] at hp
      split at hp
      · rename_i hk
        exact ⟨hk, Option.some.inj hp⟩
      · cases hp
    have herase : o.pending.eraseIdx 0 = [] := by
      rw [hq.pending_eq]
      rfl
    -- an abortion reaches its handler only on a closed socket, which is not managed any more
    have hclosed : ec = .operationAborted → o.socketOpen = false := by
      intro hec
      exact hq.aborted n (by rw [hec])
    have hidle : ∀ (c : Connection) (w : ℕ), ec = .operationAborted → w ≤ 1 →
        ({ o with connection := c, pending := [] } : ConnectionObject).Ok
          (managed ∧ Action.managerStop ∉ ([] : List Action)) w := by
      intro c w hec hw
      refine ⟨?_, Or.inr ⟨rfl, hclosed hec, hw⟩⟩
      rw [h.managed_iff]
      simp
    unfold ConnectionObject.handled
    rw [herase]
    rcases hq.op_eq with ⟨hop, hw⟩ | ⟨hop, hw⟩
    · have hop' : op = .asyncReadSome := hop
      subst hop' hw
      cases ec with
      | success =>
        apply h.startNext (by simp [handler, readHandler]) _
        rcases proceed_cases docRoot fs o.connection
            (o.connection.requestParser.parse o.connection.request (o.connection.buffer.take n))
          with ⟨-, hnext, -⟩ | ⟨-, hnext, -⟩
        · refine Or.inl ⟨hnext, ?_⟩
          simp [handler, readHandler, Connection.received, hnext, isWrite]
        · refine Or.inr ⟨hnext, ?_⟩
          simp [handler, readHandler, Connection.received, hnext, isWrite]
      | operationAborted => exact hidle _ 0 rfl (Nat.zero_le 1)
      | other =>
        exact ok_stop_of_pending_nil rfl (by simp [handler, readHandler]) (Nat.zero_le 1)
    · have hop' : op = .asyncWrite o.connection.reply.wire := hop
      subst hop' hw
      cases ec with
      | success => exact ok_stop_of_pending_nil rfl (by simp [handler, writeHandler]) le_rfl
      | operationAborted => exact hidle _ 1 rfl le_rfl
      | other => exact ok_stop_of_pending_nil rfl (by simp [handler, writeHandler]) le_rfl
  · rw [hnil] at hp
    simp at hp

/-! ## The server -/

/-- The invariant of the server, with what it has done so far. -/
structure Server.Inv (s : Server) (out : List Output) : Prop where
  /-- Every connection that was created is in order. -/
  object_ok : ∀ (i : ℕ) (o : ConnectionObject), s.objects[i]? = some o →
    o.Ok (i ∈ s.connections) (writesStarted i out)
  /-- Only connections that were created are managed. -/
  connection_lt : ∀ i ∈ s.connections, i < s.objects.length
  /-- A connection that has not been created has started no write. -/
  not_started : ∀ i, s.objects.length ≤ i → writesStarted i out = 0
  /-- Before the signal exactly one accept is outstanding. -/
  accepting : s.awaitingStop = true → s.acceptorOpen = true ∧ s.accepts.length = 1
  /-- After the signal nothing is managed. -/
  stopped : s.awaitingStop = false → s.acceptorOpen = false ∧ s.connections = []

/-- The invariant holds when the server has been constructed. -/
lemma inv_init : Server.init.Inv [] where
  object_ok := by simp [Server.init]
  connection_lt := by simp [Server.init]
  not_started := by simp [writesStarted]
  accepting := fun _ => ⟨rfl, rfl⟩
  stopped := by simp [Server.init]

/-- The completion of an operation keeps the invariant. -/
lemma Server.Inv.complete {s : Server} {out : List Output} (h : s.Inv out) {i k : ℕ}
    {o : ConnectionObject} {p : Pending} (ho : s.objects[i]? = some o)
    (hp : o.pending[k]? = some p) {ec : ErrorCode} {data : Bytes}
    (hresult : IsResult p.op ec data) :
    Server.Inv { s with objects := s.objects.modify i fun o => o.complete k ec data } out where
  object_ok := by
    intro j o' ho'
    by_cases hij : i = j
    · subst hij
      have ho'' : o.complete k ec data = o' := by simpa [ho] using ho'
      rw [← ho'']
      exact (h.object_ok i o ho).complete hp hresult
    · rw [List.getElem?_modify_ne _ _ hij] at ho'
      exact h.object_ok j o' ho'
  connection_lt := by simpa using h.connection_lt
  not_started := by simpa using h.not_started
  accepting := h.accepting
  stopped := h.stopped

/-- The handler of an operation keeps the invariant. -/
lemma Server.Inv.runHandler {s : Server} {out : List Output} (h : s.Inv out) (docRoot : Bytes)
    (fs : FileSystem) {i k : ℕ} {o : ConnectionObject} {op : Operation} {ec : ErrorCode} {n : ℕ}
    (ho : s.objects[i]? = some o) (hp : o.pending[k]? = some ⟨op, some (ec, n)⟩) :
    (s.runHandler docRoot fs i k o op ec n).1.Inv
      (out ++ (s.runHandler docRoot fs i k o op ec n).2) := by
  obtain ⟨hopen, haccepts, hawait, hlen⟩ := acceptor_runHandler docRoot fs s i k o op ec n
  have hout : ∀ j, writesStarted j (out ++ (s.runHandler docRoot fs i k o op ec n).2) =
      writesStarted j out +
        if i = j then (handler docRoot fs o.connection op ec n).2.countP isWrite else 0 := by
    intro j
    rw [writesStarted_append, ← writesStarted_map_action]
    rfl
  have hmem : ∀ j, j ∈ (s.runHandler docRoot fs i k o op ec n).1.connections ↔ j ∈ s.connections ∧
      (i = j → .managerStop ∉ (handler docRoot fs o.connection op ec n).2) := by
    intro j
    rw [connections_runHandler]
    split
    · rename_i hstop
      simp [hstop, (eq_comm : j = i ↔ i = j)]
    · rename_i hstop
      simp [hstop]
  have hlt : i < s.objects.length := (List.getElem?_eq_some_iff.mp ho).1
  refine ⟨?_, ?_, ?_, ?_, ?_⟩
  · intro j o' ho'
    rw [objects_runHandler docRoot fs k ho] at ho'
    rw [hout, hmem]
    by_cases hij : i = j
    · subst hij
      rw [if_pos rfl] at ho'
      rw [if_pos rfl, ← Option.some.inj ho']
      simpa using (h.object_ok i o ho).handled docRoot fs hp
    · rw [if_neg hij] at ho'
      rw [if_neg hij]
      simpa [hij] using h.object_ok j o' ho'
  · intro j hj
    rw [hlen]
    exact h.connection_lt j ((hmem j).mp hj).1
  · intro j hj
    rw [hlen] at hj
    rw [hout, h.not_started j hj, if_neg (by omega)]
  · rw [hawait, hopen, haccepts]
    exact h.accepting
  · rw [hawait, hopen]
    intro hstop
    obtain ⟨hclosed, hnil⟩ := h.stopped hstop
    refine ⟨hclosed, List.eq_nil_iff_forall_not_mem.mpr fun j hj => ?_⟩
    have hj' := ((hmem j).mp hj).1
    rw [hnil] at hj'
    simp at hj'

/-- The start of a new connection keeps the invariant, as long as the server was not stopped. -/
lemma Server.Inv.managerStart {s : Server} {out : List Output} (h : s.Inv out)
    (hawait : s.awaitingStop = true) (buffer : Bytes) : (s.managerStart buffer).Inv out where
  object_ok := by
    intro j o ho
    have hmem : j ∈ (s.managerStart buffer).connections ↔
        j = s.objects.length ∨ j ∈ s.connections := by
      simp [Server.managerStart]
    rw [hmem]
    simp only [Server.managerStart] at ho
    rcases Nat.lt_trichotomy j s.objects.length with hj | hj | hj
    · rw [List.getElem?_append_left hj] at ho
      simpa [Nat.ne_of_lt hj] using h.object_ok j o ho
    · subst hj
      rw [List.getElem?_concat_length] at ho
      rw [h.not_started _ le_rfl, ← Option.some.inj ho]
      exact ok_started buffer (Or.inl rfl)
    · rw [List.getElem?_eq_none (by simpa using hj)] at ho
      cases ho
  connection_lt := by
    intro j hj
    simp only [Server.managerStart, List.mem_insert_iff] at hj
    simp only [Server.managerStart, List.length_append, List.length_singleton]
    rcases hj with rfl | hj
    · exact Nat.lt_succ_self _
    · exact Nat.lt_succ_of_lt (h.connection_lt j hj)
  not_started := by
    intro j hj
    simp only [Server.managerStart, List.length_append, List.length_singleton] at hj
    exact h.not_started j (by omega)
  accepting := h.accepting
  stopped := by
    intro hstop
    have hstop' : s.awaitingStop = false := hstop
    rw [hawait] at hstop'
    cases hstop'

/-- Changing the outstanding accepts keeps the invariant, as long as there is exactly one before
the signal. -/
lemma Server.Inv.setAccepts {s : Server} {out : List Output} (h : s.Inv out)
    (accepts : List (Option ErrorCode)) (hlen : s.awaitingStop = true → accepts.length = 1) :
    Server.Inv { s with accepts := accepts } out where
  object_ok := h.object_ok
  connection_lt := h.connection_lt
  not_started := h.not_started
  accepting := fun hawait => ⟨(h.accepting hawait).1, hlen hawait⟩
  stopped := h.stopped

/-- Actions that start no write keep the invariant. -/
lemma Server.Inv.append {s : Server} {out out' : List Output} (h : s.Inv out)
    (hout : ∀ i, writesStarted i out' = 0) : s.Inv (out ++ out') where
  object_ok := by
    intro i o ho
    rw [writesStarted_append, hout]
    exact h.object_ok i o ho
  connection_lt := h.connection_lt
  not_started := by
    intro i hi
    rw [writesStarted_append, hout]
    exact h.not_started i hi
  accepting := h.accepting
  stopped := h.stopped

/-- The handler of an accept keeps the invariant. -/
lemma Server.Inv.acceptHandler {s : Server} {out : List Output} (h : s.Inv out) {k : ℕ}
    {ec : ErrorCode} (hk : s.accepts[k]? = some (some ec)) (buffer : Bytes) :
    (Server.acceptHandler { s with accepts := s.accepts.eraseIdx k } ec buffer).1.Inv
      (out ++ (Server.acceptHandler { s with accepts := s.accepts.eraseIdx k } ec buffer).2) := by
  have hklt : k < s.accepts.length := (List.getElem?_eq_some_iff.mp hk).1
  rcases Bool.eq_false_or_eq_true s.awaitingStop with hawait | hawait
  · obtain ⟨hopen, hlen⟩ := h.accepting hawait
    have herase : s.accepts.eraseIdx k = [] := by
      rw [← List.length_eq_zero_iff, List.length_eraseIdx_of_lt hklt, hlen]
    -- the handler takes the only accept away and `do_accept` puts a new one in its place
    unfold Server.acceptHandler
    rw [herase, if_neg (by simp [hopen])]
    split
    · refine Server.Inv.append ?_ ?_
      · exact (h.managerStart hawait buffer).setAccepts
          [if s.acceptorOpen then none else some .other]
          fun _ => rfl
      · intro i
        simp [writesStarted, isWriteStart]
    · refine Server.Inv.append ?_ ?_
      · exact h.setAccepts [if s.acceptorOpen then none else some .other] fun _ => rfl
      · intro i
        simp [writesStarted, isWriteStart]
  · obtain ⟨hclosed, -⟩ := h.stopped hawait
    unfold Server.acceptHandler
    rw [if_pos (by simp [hclosed]), List.append_nil]
    refine h.setAccepts (s.accepts.eraseIdx k) fun hawait' => ?_
    rw [hawait] at hawait'
    cases hawait'

/-- The handler of the signal keeps the invariant. -/
lemma Server.Inv.stopHandler {s : Server} {out : List Output} (h : s.Inv out) :
    s.stopHandler.Inv out where
  object_ok := by
    intro j o' ho'
    simp only [Server.stopHandler, Server.stopAll, Server.closeAcceptor,
      getElem?_foldl_stop] at ho'
    split at ho'
    · obtain ⟨o, ho, rfl⟩ := Option.map_eq_some_iff.mp ho'
      exact (h.object_ok j o ho).stop (by simp [Server.stopHandler, Server.stopAll])
    · rename_i hj
      have hok := h.object_ok j o' ho'
      refine ⟨?_, hok.outstanding⟩
      rw [← hok.managed_iff]
      simp [Server.stopHandler, Server.stopAll, hj]
  connection_lt := by simp [Server.stopHandler, Server.stopAll]
  not_started := by
    intro j hj
    refine h.not_started j (le_of_eq_of_le ?_ hj)
    have hfold : ∀ (connections : List ℕ) (objects : List ConnectionObject),
        (connections.foldl (fun objects i => objects.modify i ConnectionObject.stop)
          objects).length = objects.length := by
      intro connections
      induction connections with
      | nil => simp
      | cons i connections ih =>
        intro objects
        rw [List.foldl_cons, ih, List.length_modify]
    exact (hfold s.connections s.objects).symm
  accepting := by simp [Server.stopHandler, Server.stopAll]
  stopped := by
    intro _
    exact ⟨rfl, rfl⟩

/-- Every event keeps the invariant. -/
lemma Server.Inv.step {docRoot : Bytes} {fs : FileSystem} {s s' : Server} {out o : List Output}
    {e : Event} (h : s.Inv out) (hstep : s.step docRoot fs e = some (s', o)) :
    s'.Inv (out ++ o) := by
  rcases Server.step_cases hstep with
    ⟨i, k, ec, data, obj, p, -, hobj, hp, -, hresult, rfl, rfl⟩ |
    ⟨i, k, obj, op, ec, n, -, hobj, hp, rfl, rfl⟩ | ⟨k, ec, -, hk, -, rfl, rfl⟩ |
    ⟨k, ec, buffer, -, hk, rfl, rfl⟩ | ⟨-, -, rfl, rfl⟩
  · rw [List.append_nil]
    exact h.complete hobj hp hresult
  · exact h.runHandler docRoot fs hobj hp
  · rw [List.append_nil]
    refine h.setAccepts (s.accepts.set k (some ec)) fun hawait => ?_
    rw [List.length_set]
    exact (h.accepting hawait).2
  · exact h.acceptHandler hk buffer
  · rw [List.append_nil]
    exact h.stopHandler

/-- The invariant holds after every run. -/
theorem inv_of_run {docRoot : Bytes} {fs : FileSystem} {events : List Event} {s : Server}
    {out : List Output}
    (hrun : Machine.run (Server.step docRoot fs) Server.init events = some (s, out)) :
    s.Inv out := by
  refine Machine.run_history (I := fun s _ out => s.Inv out) hrun inv_init ?_
  intro s s' e _ out o h hstep
  exact h.step hstep

/-! ## Replies that are being written -/

/-- The actions of a connection do not change its members other than the socket. -/
lemma connection_foldl_perform (acts : List Action) (o : ConnectionObject) :
    (acts.foldl ConnectionObject.perform o).connection = o.connection := by
  induction acts generalizing o with
  | nil => rfl
  | cons a acts ih =>
    rw [List.foldl_cons, ih]
    cases a <;> rfl

/-- While a write of a connection is outstanding, no event changes the reply of the connection. -/
lemma Server.Inv.reply_kept {docRoot : Bytes} {fs : FileSystem} {s s' : Server}
    {out o' : List Output} {e : Event} (h : s.Inv out)
    (hstep : s.step docRoot fs e = some (s', o')) {i : ℕ} {o : ConnectionObject} {p : Pending}
    {buffers : Bytes} (ho : s.objects[i]? = some o) (hp : p ∈ o.pending)
    (hop : p.op = .asyncWrite buffers) :
    ∃ o', s'.objects[i]? = some o' ∧ o'.connection.reply = o.connection.reply := by
  rcases Server.step_cases hstep with
    ⟨j, k, ec, data, obj, q, -, hobj, -, -, -, rfl, -⟩ |
    ⟨j, k, obj, op, ec, n, -, hobj, hq, rfl, -⟩ | ⟨k, ec, -, -, -, rfl, -⟩ |
    ⟨k, ec, buffer, -, hk, rfl, -⟩ | ⟨-, -, rfl, -⟩
  · by_cases hij : j = i
    · subst hij
      exact ⟨o.complete k ec data, by simp [ho], rfl⟩
    · exact ⟨o, by simp [hij, ho], rfl⟩
  · rw [objects_runHandler docRoot fs k hobj]
    by_cases hij : j = i
    · subst hij
      obtain rfl : obj = o := Option.some.inj (hobj.symm.trans ho)
      rw [if_pos rfl]
      refine ⟨_, rfl, ?_⟩
      -- the only operation outstanding is the write, whose handler changes no member
      obtain ⟨r, hr⟩ : ∃ r, obj.OneOutstanding (writesStarted j out) r := by
        rcases (h.object_ok j obj ho).outstanding with hr | ⟨hnil, -, -⟩
        · exact hr
        · rw [hnil] at hp
          simp at hp
      have hpr : p = r := by simpa [hr.pending_eq] using hp
      have hqr : r = ⟨op, some (ec, n)⟩ := by
        have hmem := List.mem_of_getElem? hq
        rw [hr.pending_eq, List.mem_singleton] at hmem
        exact hmem.symm
      have hopw : op = .asyncWrite buffers := by
        rw [← hop, hpr, hqr]
      rw [ConnectionObject.handled, connection_foldl_perform, hopw]
      rfl
    · rw [if_neg hij]
      exact ⟨o, ho, rfl⟩
  · exact ⟨o, ho, rfl⟩
  · have hlt : i < s.objects.length := (List.getElem?_eq_some_iff.mp ho).1
    refine ⟨o, ?_, rfl⟩
    unfold Server.acceptHandler
    split
    · exact ho
    · split
      · rw [← ho]
        exact List.getElem?_append_left hlt
      · exact ho
  · simp only [Server.stopHandler, Server.stopAll, Server.closeAcceptor, getElem?_foldl_stop]
    split
    · exact ⟨o.stop, by rw [ho]; rfl, rfl⟩
    · exact ⟨o, ho, rfl⟩

/-! ## After the signal -/

/-- The handler of the signal has run: the acceptor is closed and nothing is managed. -/
def Server.Stopped (s : Server) : Prop :=
  s.awaitingStop = false ∧ s.acceptorOpen = false ∧ s.connections = []

/-- What the server does after the signal: actions of connections that are already there. -/
def IsLateOutput : Output → Prop
  | .action _ _ => True
  | _ => False

/-- A stopped server stays stopped, starts no connection and no accept, and only loses outstanding
accepts. -/
lemma Server.Stopped.step {docRoot : Bytes} {fs : FileSystem} {s s' : Server} {e : Event}
    {o : List Output} (h : s.Stopped) (hstep : s.step docRoot fs e = some (s', o)) :
    s'.Stopped ∧ s'.accepts.length ≤ s.accepts.length ∧ ∀ x ∈ o, IsLateOutput x := by
  obtain ⟨hawait, hclosed, hnil⟩ := h
  rcases Server.step_cases hstep with
    ⟨j, k, ec, data, obj, q, -, -, -, -, -, rfl, rfl⟩ |
    ⟨j, k, obj, op, ec, n, -, -, -, rfl, rfl⟩ | ⟨k, ec, -, -, -, rfl, rfl⟩ |
    ⟨k, ec, buffer, -, hk, rfl, rfl⟩ | ⟨-, hawait', -, -⟩
  · exact ⟨⟨hawait, hclosed, hnil⟩, le_rfl, by simp⟩
  · obtain ⟨hopen, haccepts, hstop, -⟩ := acceptor_runHandler docRoot fs s j k obj op ec n
    refine ⟨⟨hstop.trans hawait, hopen.trans hclosed, ?_⟩, le_of_eq (by rw [haccepts]), ?_⟩
    · rw [connections_runHandler, hnil]
      simp
    · intro x hx
      obtain ⟨a, -, rfl⟩ := List.mem_map.mp hx
      trivial
  · exact ⟨⟨hawait, hclosed, hnil⟩, le_of_eq List.length_set, by simp⟩
  · unfold Server.acceptHandler
    rw [if_pos (by simp [hclosed])]
    exact ⟨⟨hawait, hclosed, hnil⟩, List.length_eraseIdx_le _ _, by simp⟩
  · rw [hawait] at hawait'
    cases hawait'

/-- Whatever happens after the signal, the server stays stopped. -/
lemma Server.Stopped.run {docRoot : Bytes} {fs : FileSystem} {s s' : Server}
    {events : List Event} {out : List Output} (h : s.Stopped)
    (hrun : Machine.run (Server.step docRoot fs) s events = some (s', out)) :
    s'.Stopped ∧ s'.accepts.length ≤ s.accepts.length ∧ ∀ x ∈ out, IsLateOutput x := by
  refine Machine.run_history
    (I := fun t _ o => t.Stopped ∧ t.accepts.length ≤ s.accepts.length ∧ ∀ x ∈ o, IsLateOutput x)
    hrun ⟨h, le_rfl, by simp⟩ ?_
  intro t t' e _ o o' ⟨ht, hle, ho⟩ hstep
  obtain ⟨ht', hle', ho'⟩ := ht.step hstep
  refine ⟨ht', hle'.trans hle, fun x hx => ?_⟩
  rcases List.mem_append.mp hx with hx | hx
  · exact ho x hx
  · exact ho' x hx

/-! ## The life cycle -/

/-- The life cycle of the server in a state, after the outputs `out`. -/
structure Server.Lifecycle (docRoot : Bytes) (fs : FileSystem) (s : Server) (out : List Output) :
    Prop where
  /-- Only connections that were created are managed. -/
  created : ∀ i ∈ s.connections, i < s.objects.length
  /-- A connection is managed exactly if its socket has not been closed by `stop()`. -/
  managed_iff : ∀ (i : ℕ) (o : ConnectionObject), s.objects[i]? = some o →
    (i ∈ s.connections ↔ o.socketOpen = true)
  /-- Every managed connection has exactly one operation outstanding. -/
  one_outstanding : ∀ (i : ℕ) (o : ConnectionObject), s.objects[i]? = some o →
    i ∈ s.connections → o.pending.length = 1
  /-- No connection ever has two operations outstanding. -/
  never_two : ∀ (i : ℕ) (o : ConnectionObject), s.objects[i]? = some o → o.pending.length ≤ 1
  /-- An outstanding write writes the reply as it is now. -/
  write_eq : ∀ (i : ℕ) (o : ConnectionObject) (p : Pending) (buffers : Bytes),
    s.objects[i]? = some o → p ∈ o.pending → p.op = .asyncWrite buffers →
      buffers = o.connection.reply.wire
  /-- No event modifies a reply that is being written. -/
  reply_kept : ∀ (i : ℕ) (o : ConnectionObject) (p : Pending) (buffers : Bytes),
    s.objects[i]? = some o → p ∈ o.pending → p.op = .asyncWrite buffers →
      ∀ e s' out', s.step docRoot fs e = some (s', out') →
        ∃ o', s'.objects[i]? = some o' ∧ o'.connection.reply = o.connection.reply
  /-- Each connection starts at most one write. -/
  one_write : ∀ i, writesStarted i out ≤ 1
  /-- While the signal handler has not run, exactly one accept is outstanding. -/
  one_accept : s.awaitingStop = true → s.accepts.length = 1
  /-- Once the signal handler has run, nothing is managed and this stays so for ever; no connection
  and no accept is started any more, and no accept becomes outstanding. -/
  stopped : s.awaitingStop = false → s.connections = [] ∧
    ∀ events s' out', Machine.run (Server.step docRoot fs) s events = some (s', out') →
      s'.connections = [] ∧ (∀ i, .connectionStarted i ∉ out') ∧ .acceptStarted ∉ out' ∧
        s'.accepts.length ≤ s.accepts.length

/-- **Life cycle of `http_server1`.**  In every state that the server reaches, in any order of
completions and handlers, the life-cycle properties hold. -/
theorem lifecycle (docRoot : Bytes) (fs : FileSystem) (events : List Event) (s : Server)
    (out : List Output)
    (hrun : Machine.run (Server.step docRoot fs) Server.init events = some (s, out)) :
    s.Lifecycle docRoot fs out where
  created := (inv_of_run hrun).connection_lt
  managed_iff := fun i o ho => ((inv_of_run hrun).object_ok i o ho).managed_iff
  one_outstanding := by
    intro i o ho hi
    have hok := (inv_of_run hrun).object_ok i o ho
    rcases hok.outstanding with ⟨p, hp⟩ | ⟨-, hclosed, -⟩
    · rw [hp.pending_eq, List.length_singleton]
    · rw [hok.managed_iff, hclosed] at hi
      cases hi
  never_two := by
    intro i o ho
    rcases ((inv_of_run hrun).object_ok i o ho).outstanding with ⟨p, hp⟩ | ⟨hnil, -, -⟩
    · rw [hp.pending_eq, List.length_singleton]
    · rw [hnil]
      exact Nat.zero_le 1
  write_eq := by
    intro i o p buffers ho hp hop
    rcases ((inv_of_run hrun).object_ok i o ho).outstanding with ⟨q, hq⟩ | ⟨hnil, -, -⟩
    · rw [hq.pending_eq, List.mem_singleton] at hp
      subst hp
      rcases hq.op_eq with ⟨hread, -⟩ | ⟨hwrite, -⟩
      · rw [hop] at hread
        cases hread
      · rw [hop] at hwrite
        exact Operation.asyncWrite.inj hwrite
    · rw [hnil] at hp
      simp at hp
  reply_kept := fun i o p buffers ho hp hop e s' out' hstep =>
    (inv_of_run hrun).reply_kept hstep ho hp hop
  one_write := by
    intro i
    rcases Nat.lt_or_ge i s.objects.length with hi | hi
    · have hok := (inv_of_run hrun).object_ok i _ (List.getElem?_eq_getElem hi)
      rcases hok.outstanding with ⟨p, hp⟩ | ⟨-, -, hw⟩
      · rcases hp.op_eq with ⟨-, hw⟩ | ⟨-, hw⟩
        · omega
        · omega
      · exact hw
    · rw [(inv_of_run hrun).not_started i hi]
      exact Nat.zero_le 1
  one_accept := fun hawait => ((inv_of_run hrun).accepting hawait).2
  stopped := by
    intro hawait
    obtain ⟨hclosed, hnil⟩ := (inv_of_run hrun).stopped hawait
    refine ⟨hnil, fun fs s' out' hrun' => ?_⟩
    obtain ⟨⟨-, -, hnil'⟩, hle, hlate⟩ := Server.Stopped.run ⟨hawait, hclosed, hnil⟩ hrun'
    exact ⟨hnil', fun i hi => hlate _ hi, fun hi => hlate _ hi, hle⟩

/-- A connection whose rejected request is being written when the signal arrives. -/
theorem lifecycle_stopped_while_writing :
    Server.Lifecycle (bytes "/srv") (fun _ => none)
      ⟨false, [some .operationAborted], false,
        [⟨⟨[0], Request.empty, RequestParser.fresh, stockReply .badRequest⟩, false,
          [⟨.asyncWrite (stockReply .badRequest).wire, some (.operationAborted, 0)⟩]⟩], []⟩
      [.connectionStarted 0, .action 0 (.start .asyncReadSome), .acceptStarted,
        .action 0 (.start (.asyncWrite (stockReply .badRequest).wire))] :=
  lifecycle (bytes "/srv") (fun _ => none)
    [.completeAccept 0 .success, .handleAccept 0 [], .complete 0 0 .success [0], .handle 0 0,
      .handleStop] _ _ (by decide +kernel)

end Server1

end Http

end AsioStudy
