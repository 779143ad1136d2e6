import AsioStudy.Http.Server4

/-!
# The coroutine server refines the callback server

Seen from one connection, the coroutine server of `http_server4` does what a connection object of
`http_server2` does with the completions of this connection alone, whatever happens on the others.

The invariant (`State.Inv`) has two parts.  No two pending operations share a socket, a buffer, a
request or a reply (`Server.Apart`), so that a handler leaves alone what the others use.  And the
copy of the coroutine in a pending operation, with the objects it refers to, holds the state of the
session that the callback server would be in (`Pending.Ok`).

The main result is `refines_http_server2`.
-/

namespace AsioStudy

namespace Http

namespace Server4

/-! ## The view of one connection -/

/-- The completions that the handlers of a connection received. -/
def completionsOn (i : ℕ) (out : List Output) : List Completion :=
  out.filterMap fun x =>
    match x with
    | .completed j c => if j = i then some c else none
    | _ => none

/-- The actions that were performed on a connection. -/
def actionsOn (i : ℕ) (out : List Output) : List Action :=
  out.filterMap fun x =>
    match x with
    | .action j a => if j = i then some a else none
    | _ => none

/-- Nothing has happened on a socket. -/
def Silent (i : ℕ) (out : List Output) : Prop :=
  completionsOn i out = [] ∧ actionsOn i out = [] ∧ .accepted i ∉ out

/-- The completions of two stretches of a run. -/
@[simp] lemma completionsOn_append (i : ℕ) (out out' : List Output) :
    completionsOn i (out ++ out') = completionsOn i out ++ completionsOn i out' :=
  List.filterMap_append

/-- The actions of two stretches of a run. -/
@[simp] lemma actionsOn_append (i : ℕ) (out out' : List Output) :
    actionsOn i (out ++ out') = actionsOn i out ++ actionsOn i out' :=
  List.filterMap_append

/-- Silence over two stretches of a run. -/
lemma Silent.append {i : ℕ} {out out' : List Output} (h : Silent i out) (h' : Silent i out') :
    Silent i (out ++ out') := by
  refine ⟨?_, ?_, ?_⟩
  · rw [completionsOn_append, h.1, h'.1, List.append_nil]
  · rw [actionsOn_append, h.2.1, h'.2.1, List.append_nil]
  · rw [List.mem_append, not_or]
    exact ⟨h.2.2, h'.2.2⟩

variable (docRoot : Bytes) (fs : FileSystem) (content : Bytes)

/-- A fresh connection object of `http_server2`, with the given bytes in its buffer, that receives
the completions of the connection `i` and starts with the read of `start()`, performs the actions of
the connection `i` and is then in the given session. -/
def Replays (i : ℕ) (out : List Output) (ses : Session) : Prop :=
  ∃ acts, Machine.run (Server2.sessionStep docRoot fs) (Session.started content)
      (completionsOn i out) = some (ses, acts) ∧
    actionsOn i out = .start .asyncReadSome :: acts

variable {docRoot fs content}

/-- What happens elsewhere does not change the session. -/
lemma Replays.append_silent {i : ℕ} {out out' : List Output} {ses : Session}
    (h : Replays docRoot fs content i out ses) (h' : Silent i out') :
    Replays docRoot fs content i (out ++ out') ses := by
  obtain ⟨acts, hrun, hacts⟩ := h
  refine ⟨acts, ?_, ?_⟩
  · rw [completionsOn_append, h'.1, List.append_nil, hrun]
  · rw [actionsOn_append, h'.2.1, List.append_nil, hacts]

/-- A handler of the connection takes the session one step further. -/
lemma Replays.step {i : ℕ} {out out' : List Output} {ses ses' : Session} {c : Completion}
    {acts : List Action} (h : Replays docRoot fs content i out ses)
    (hstep : Server2.sessionStep docRoot fs ses c = some (ses', acts))
    (hc : completionsOn i out' = [c]) (ha : actionsOn i out' = acts) :
    Replays docRoot fs content i (out ++ out') ses' := by
  obtain ⟨acts₀, hrun, hacts⟩ := h
  refine ⟨acts₀ ++ acts, ?_, ?_⟩
  · rw [completionsOn_append, hc]
    exact Machine.run_concat_iff.mpr ⟨ses, acts₀, acts, hrun, hstep, rfl⟩
  · rw [actionsOn_append, hacts, ha, List.cons_append]

/-- A connection that was just accepted. -/
lemma replays_accepted {i : ℕ} {out out' : List Output} (h : Silent i out)
    (hc : completionsOn i out' = []) (ha : actionsOn i out' = [.start .asyncReadSome]) :
    Replays docRoot fs content i (out ++ out') (Session.started content) := by
  refine ⟨[], ?_, ?_⟩
  · rw [completionsOn_append, h.1, hc]
    rfl
  · rw [actionsOn_append, h.2.1, ha]
    rfl

/-- The session is determined by what has happened. -/
lemma Replays.unique {i : ℕ} {out : List Output} {ses ses' : Session}
    (h : Replays docRoot fs content i out ses) (h' : Replays docRoot fs content i out ses') :
    ses = ses' := by
  obtain ⟨acts, hrun, -⟩ := h
  obtain ⟨acts', hrun', -⟩ := h'
  rw [hrun] at hrun'
  exact congrArg Prod.fst (Option.some.inj hrun')

/-! ## Separation -/

/-- Two pointers do not refer to the same object. -/
def Separate (x y : Option ℕ) : Prop := ∀ a, x = some a → y ≠ some a

/-- Two copies of the coroutine share no object. -/
structure Server.Apart (c c' : Server) : Prop where
  /-- The sockets differ. -/
  socket : Separate c.socket c'.socket
  /-- The buffers differ. -/
  buffer : Separate c.buffer c'.buffer
  /-- The requests differ. -/
  request : Separate c.request c'.request
  /-- The replies differ. -/
  reply : Separate c.reply c'.reply

/-- All objects that a copy of the coroutine refers to have been created. -/
structure Server.Within (c : Server) (heap : Heap) : Prop where
  /-- The socket exists. -/
  socket : ∀ a, c.socket = some a → a < heap.sockets
  /-- The buffer exists. -/
  buffer : ∀ a, c.buffer = some a → a < heap.buffers.length
  /-- The request exists. -/
  request : ∀ a, c.request = some a → a < heap.requests.length
  /-- The reply exists. -/
  reply : ∀ a, c.reply = some a → a < heap.replies.length

/-- A null pointer refers to no object. -/
lemma separate_none (x : Option ℕ) : Separate x none := by
  intro a _ h
  cases h

/-- Separation is symmetric. -/
lemma Separate.symm {x y : Option ℕ} (h : Separate x y) : Separate y x := by
  intro a hy hx
  exact h a hx hy

/-- A new object is no object that existed before. -/
lemma separate_new {x : Option ℕ} {n m : ℕ} (h : ∀ a, x = some a → a < n) (hm : n ≤ m) :
    Separate x (some m) := by
  intro a hx hm'
  have ha := h a hx
  have hma : m = a := Option.some.inj hm'
  omega

/-- Sharing nothing is symmetric. -/
lemma Server.Apart.symm {c c' : Server} (h : c.Apart c') : c'.Apart c :=
  ⟨h.socket.symm, h.buffer.symm, h.request.symm, h.reply.symm⟩

/-- A heap goes over into another one by creating objects and changing one request. -/
structure Heap.Extends (heap heap' : Heap) (request : Option ℕ) : Prop where
  /-- Sockets are only created. -/
  sockets : heap.sockets ≤ heap'.sockets
  /-- Buffers are only created. -/
  buffers : ∀ b < heap.buffers.length, heap'.buffers[b]? = heap.buffers[b]?
  /-- Requests are created, and one of them changes. -/
  requests : ∀ r < heap.requests.length, request ≠ some r → heap'.requests[r]? = heap.requests[r]?
  /-- No request disappears. -/
  requests_length : heap.requests.length ≤ heap'.requests.length
  /-- No reply disappears. -/
  replies_length : heap.replies.length ≤ heap'.replies.length

/-- Nothing changes. -/
lemma Heap.Extends.refl (heap : Heap) (request : Option ℕ) : heap.Extends heap request :=
  ⟨le_rfl, fun _ _ => rfl, fun _ _ _ => rfl, le_rfl, le_rfl⟩

/-- No buffer disappears. -/
lemma Heap.Extends.buffers_length {heap heap' : Heap} {request : Option ℕ}
    (h : heap.Extends heap' request) : heap.buffers.length ≤ heap'.buffers.length := by
  by_contra hlt
  have hnone := h.buffers heap'.buffers.length (by omega)
  rw [List.getElem?_eq_none le_rfl, eq_comm, List.getElem?_eq_none_iff] at hnone
  omega

/-! ## The invariant -/

/-- The socket of an operation. -/
def AsyncOp.socket : AsyncOp → ℕ
  | .asyncAccept socket => socket
  | .asyncReadSome socket _ => socket
  | .asyncWrite socket _ => socket

variable (docRoot fs content)

/-- A pending operation, its handler and the objects of the handler are as the session of its
connection requires: an accept is on an unused socket and its handler has a fresh parser; a read is
the outstanding read of a session whose parser and request are those of the handler; a write is the
outstanding write of a session. -/
def Pending.Ok (heap : Heap) (out : List Output) (p : Pending) : Prop :=
  match p.op with
  | .asyncAccept a =>
    p.handler = ⟨.yieldAccept, some a, none, none, none, RequestParser.fresh, none⟩ ∧ Silent a out
  | .asyncReadSome a b =>
    .accepted a ∈ out ∧ ∃ r res ses, Replays docRoot fs content a out ses ∧
      p.handler =
        ⟨.yieldRead, some a, some b, some r, res, ses.connection.requestParser, none⟩ ∧
      heap.requests[r]? = some ses.connection.request ∧
      ses.outstanding = some .asyncReadSome ∧ ses.connection.reply = Reply.empty ∧
      ∃ buf, heap.buffers[b]? = some buf ∧
        ∀ ec data, p.result = some (ec, data) → IsReadResult ec data ∧ buf.take data.length = data
  | .asyncWrite a w =>
    .accepted a ∈ out ∧ p.handler.position = .yieldWrite ∧ p.handler.socket = some a ∧
      ∃ ses, Replays docRoot fs content a out ses ∧ ses.outstanding = some (.asyncWrite w)

/-- The invariant of the program, with what it has done so far. -/
structure State.Inv (s : State) (out : List Output) : Prop where
  /-- Every pending operation is in order. -/
  ok : ∀ p ∈ s.pending, p.Ok docRoot fs content s.heap out
  /-- The objects of the pending operations exist. -/
  within : ∀ p ∈ s.pending, p.handler.Within s.heap
  /-- The socket of an operation is the socket of its handler. -/
  socket_eq : ∀ p ∈ s.pending, p.handler.socket = some p.op.socket
  /-- The handlers of two pending operations share nothing. -/
  apart : s.pending.Pairwise fun p q => p.handler.Apart q.handler
  /-- Nothing has happened on sockets that do not exist. -/
  silent : ∀ i, s.heap.sockets ≤ i → Silent i out
  /-- Every accepted connection follows its session, which has an operation pending as long as one
  is outstanding. -/
  replays : ∀ i, .accepted i ∈ out → ∃ ses, Replays docRoot fs content i out ses ∧
    (ses.outstanding ≠ none → ∃ p ∈ s.pending, p.op.socket = i)

variable {docRoot fs content}

/-- A pending operation stays in order while something happens on other connections. -/
lemma Pending.Ok.frame {heap heap' : Heap} {out out' : List Output} {p : Pending}
    (h : p.Ok docRoot fs content heap out) (hwithin : p.handler.Within heap)
    {request : Option ℕ} (hext : heap.Extends heap' request)
    (hreq : Separate request p.handler.request) (hsilent : Silent p.op.socket out') :
    p.Ok docRoot fs content heap' (out ++ out') := by
  unfold Pending.Ok at h ⊢
  cases hop : p.op with
  | asyncAccept a =>
    rw [hop] at h hsilent
    exact ⟨h.1, h.2.append hsilent⟩
  | asyncReadSome a b =>
    rw [hop] at h hsilent
    obtain ⟨hacc, r, res, ses, hses, hhandler, hr, hout, hreply, buf, hb, hbuf⟩ := h
    have hrlt : r < heap.requests.length := hwithin.request r (by rw [hhandler])
    have hblt : b < heap.buffers.length := hwithin.buffer b (by rw [hhandler])
    have hne : request ≠ some r := by
      intro heq
      exact hreq r heq (by rw [hhandler])
    refine ⟨List.mem_append_left _ hacc, r, res, ses, hses.append_silent hsilent, hhandler, ?_,
      hout, hreply, buf, ?_, hbuf⟩
    · rw [hext.requests r hrlt hne, hr]
    · rw [hext.buffers b hblt, hb]
  | asyncWrite a w =>
    rw [hop] at h hsilent
    obtain ⟨hacc, hpos, hsock, ses, hses, hout⟩ := h
    exact ⟨List.mem_append_left _ hacc, hpos, hsock, ses, hses.append_silent hsilent, hout⟩

/-- Objects that exist go on existing. -/
lemma Server.Within.mono {c : Server} {heap heap' : Heap} (h : c.Within heap)
    {request : Option ℕ} (hext : heap.Extends heap' request) : c.Within heap' where
  socket := fun a ha => (h.socket a ha).trans_le hext.sockets
  buffer := fun a ha => (h.buffer a ha).trans_le hext.buffers_length
  request := fun a ha => (h.request a ha).trans_le hext.requests_length
  reply := fun a ha => (h.reply a ha).trans_le hext.replies_length

/-- A list is one of its elements and the others, up to order. -/
lemma perm_cons_eraseIdx {α : Type*} {l : List α} {k : ℕ} {a : α} (h : l[k]? = some a) :
    l.Perm (a :: l.eraseIdx k) := by
  obtain ⟨hk, rfl⟩ := List.getElem?_eq_some_iff.mp h
  exact (List.getElem_cons_eraseIdx_perm hk).symm

/-- The handlers of the other pending operations share nothing with the handler that runs. -/
lemma State.Inv.others_apart {s : State} {out : List Output} (h : s.Inv docRoot fs content out)
    {k : ℕ} {p : Pending} (hp : s.pending[k]? = some p) :
    (∀ q ∈ s.pending.eraseIdx k, q ∈ s.pending ∧ p.handler.Apart q.handler) ∧
      (s.pending.eraseIdx k).Pairwise fun p q => p.handler.Apart q.handler := by
  have hperm := perm_cons_eraseIdx hp
  have hpair := (hperm.pairwise_iff fun {_ _} h => Server.Apart.symm h).mp h.apart
  rw [List.pairwise_cons] at hpair
  exact ⟨fun q hq => ⟨List.mem_of_mem_eraseIdx hq, hpair.1 q hq⟩, hpair.2⟩

/-- **Frame rule.**  The handler of the pending operation `p` runs, starts the operations `news`,
and does nothing visible on other sockets.  If the objects of the new operations are those of `p` or
new ones, and the connection of `p` still follows its session, then the invariant is kept. -/
lemma State.Inv.handle {s : State} {out : List Output} (h : s.Inv docRoot fs content out) {k : ℕ}
    {p : Pending} (hp : s.pending[k]? = some p) {heap' : Heap} {news : List Pending}
    {out' : List Output} (hext : s.heap.Extends heap' p.handler.request)
    (hsilent : ∀ j, j ≠ p.op.socket → Silent j out')
    (hok : ∀ q ∈ news, q.Ok docRoot fs content heap' (out ++ out'))
    (hwithin : ∀ q ∈ news, q.handler.Within heap')
    (hsocket : ∀ q ∈ news, q.handler.socket = some q.op.socket)
    (hapart : news.Pairwise fun p q => p.handler.Apart q.handler)
    (hnew : ∀ q ∈ news, ∀ c : Server, p.handler.Apart c → c.Within s.heap → c.Apart q.handler)
    (hreplays : .accepted p.op.socket ∈ out ++ out' →
      ∃ ses, Replays docRoot fs content p.op.socket (out ++ out') ses ∧
        (ses.outstanding ≠ none → ∃ q ∈ news, q.op.socket = p.op.socket)) :
    State.Inv docRoot fs content ⟨heap', s.pending.eraseIdx k ++ news⟩ (out ++ out') := by
  obtain ⟨hothers, hpair⟩ := h.others_apart hp
  have hpmem : p ∈ s.pending := List.mem_of_getElem? hp
  -- another pending operation is on another socket
  have hsock : ∀ q ∈ s.pending.eraseIdx k, q.op.socket ≠ p.op.socket := by
    intro q hq heq
    obtain ⟨hqmem, hqapart⟩ := hothers q hq
    apply hqapart.socket p.op.socket (h.socket_eq p hpmem)
    rw [h.socket_eq q hqmem, heq]
  refine ⟨?_, ?_, ?_, ?_, ?_, ?_⟩
  · intro q hq
    rcases List.mem_append.mp hq with hq | hq
    · obtain ⟨hqmem, hqapart⟩ := hothers q hq
      exact (h.ok q hqmem).frame (h.within q hqmem) hext hqapart.request (hsilent _ (hsock q hq))
    · exact hok q hq
  · intro q hq
    rcases List.mem_append.mp hq with hq | hq
    · exact (h.within q (hothers q hq).1).mono hext
    · exact hwithin q hq
  · intro q hq
    rcases List.mem_append.mp hq with hq | hq
    · exact h.socket_eq q (hothers q hq).1
    · exact hsocket q hq
  · rw [List.pairwise_append]
    refine ⟨hpair, hapart, fun q hq q' hq' => ?_⟩
    obtain ⟨hqmem, hqapart⟩ := hothers q hq
    exact hnew q' hq' q.handler hqapart (h.within q hqmem)
  · intro i hi
    have hlt := (h.within p hpmem).socket _ (h.socket_eq p hpmem)
    have hle : s.heap.sockets ≤ i := hext.sockets.trans hi
    exact (h.silent i hle).append (hsilent i (by omega))
  · intro i hi
    by_cases hip : i = p.op.socket
    · rw [hip] at hi ⊢
      obtain ⟨ses, hses, hpending⟩ := hreplays hi
      refine ⟨ses, hses, fun hout => ?_⟩
      obtain ⟨q, hq, hqs⟩ := hpending hout
      exact ⟨q, List.mem_append_right _ hq, hqs⟩
    · have hi' : .accepted i ∈ out := by
        rcases List.mem_append.mp hi with hi | hi
        · exact hi
        · exact absurd hi (hsilent i hip).2.2
      obtain ⟨ses, hses, hpending⟩ := h.replays i hi'
      refine ⟨ses, hses.append_silent (hsilent i hip), fun hout => ?_⟩
      obtain ⟨q, hq, hqs⟩ := hpending hout
      rcases List.mem_cons.mp ((perm_cons_eraseIdx hp).mem_iff.mp hq) with rfl | hq
      · exact absurd hqs.symm hip
      · exact ⟨q, List.mem_append_left _ hq, hqs⟩

/-! ## Completions -/

/-- The arrival of data creates no object. -/
lemma Server.Within.fill {c : Server} {heap : Heap} (h : c.Within heap) (op : AsyncOp)
    (data : Bytes) : c.Within (heap.fill op data) := by
  refine ⟨?_, ?_, ?_, ?_⟩
  · cases op <;> exact h.socket
  · cases op with
    | asyncReadSome a b => simpa [Heap.fill] using h.buffer
    | asyncAccept a => exact h.buffer
    | asyncWrite a w => exact h.buffer
  · cases op <;> exact h.request
  · cases op <;> exact h.reply

/-- An operation whose buffer is not written stays in order. -/
lemma Pending.Ok.fill {heap : Heap} {out : List Output} {q : Pending}
    (h : q.Ok docRoot fs content heap out) {op : AsyncOp} {data : Bytes}
    (hbuf : ∀ a b, op = .asyncReadSome a b → q.handler.buffer ≠ some b) :
    q.Ok docRoot fs content (heap.fill op data) out := by
  unfold Pending.Ok at h ⊢
  cases hop : q.op with
  | asyncAccept a =>
    rw [hop] at h
    exact h
  | asyncReadSome a b =>
    rw [hop] at h
    obtain ⟨hacc, r, res, ses, hses, hhandler, hr, hout, hreply, buf, hb, hdata⟩ := h
    refine ⟨hacc, r, res, ses, hses, hhandler, ?_, hout, hreply, buf, ?_, hdata⟩
    · cases op <;> exact hr
    · cases op with
      | asyncAccept a => exact hb
      | asyncWrite a w => exact hb
      | asyncReadSome a' b' =>
        have hne : b' ≠ b := by
          intro heq
          exact hbuf a' b' rfl (by rw [hhandler, heq])
        simp only [Heap.fill]
        rw [List.getElem?_modify_ne _ _ hne, hb]
  | asyncWrite a w =>
    rw [hop] at h
    exact h

/-- The operation that completes is in order, with its data in its buffer. -/
lemma Pending.Ok.completed {heap : Heap} {out : List Output} {p : Pending}
    (h : p.Ok docRoot fs content heap out) {ec : ErrorCode} {data : Bytes}
    (hresult : IsResult p.op ec data) :
    Pending.Ok docRoot fs content (heap.fill p.op data) out
      { p with result := some (ec, data) } := by
  unfold Pending.Ok at h ⊢
  cases hop : p.op with
  | asyncAccept a =>
    rw [hop] at h
    exact h
  | asyncReadSome a b =>
    rw [hop] at h
    unfold IsResult at hresult
    rw [hop] at hresult
    obtain ⟨hacc, r, res, ses, hses, hhandler, hr, hout, hreply, buf, hb, -⟩ := h
    refine ⟨hacc, r, res, ses, hses, hhandler, hr, hout, hreply, overwrite buf 0 data, ?_, ?_⟩
    · simp [Heap.fill, hb]
    · intro ec' data' heq
      cases heq
      exact ⟨hresult, take_drop_overwrite (Nat.zero_le _) data⟩
  | asyncWrite a w =>
    rw [hop] at h
    exact h

/-- Replacing an element of a list is removing it and adding the new one, up to order. -/
lemma set_perm_cons_eraseIdx {α : Type*} {l : List α} {k : ℕ} {a : α} (h : l[k]? = some a)
    (a' : α) : (l.set k a').Perm (a' :: l.eraseIdx k) := by
  obtain ⟨hk, -⟩ := List.getElem?_eq_some_iff.mp h
  have hset : (l.set k a')[k]? = some a' := by simp [hk]
  have hperm := perm_cons_eraseIdx hset
  rwa [List.eraseIdx_set_eq] at hperm

/-- The completion of an operation keeps the invariant. -/
lemma State.Inv.complete {s : State} {out : List Output} (h : s.Inv docRoot fs content out)
    {k : ℕ} {p : Pending} (hp : s.pending[k]? = some p) {ec : ErrorCode} {data : Bytes}
    (hresult : IsResult p.op ec data) :
    State.Inv docRoot fs content
      ⟨s.heap.fill p.op data, s.pending.set k { p with result := some (ec, data) }⟩ out := by
  obtain ⟨hothers, hpair⟩ := h.others_apart hp
  have hpmem : p ∈ s.pending := List.mem_of_getElem? hp
  have hperm := set_perm_cons_eraseIdx hp { p with result := some (ec, data) }
  have hmem : ∀ q ∈ s.pending.set k { p with result := some (ec, data) },
      q = { p with result := some (ec, data) } ∨ q ∈ s.pending.eraseIdx k :=
    fun q hq => List.mem_cons.mp (hperm.mem_iff.mp hq)
  -- the buffer of a read is the buffer of its handler, which the others do not use
  have hbuffer : ∀ a b, p.op = .asyncReadSome a b → p.handler.buffer = some b := by
    intro a b hop
    have hok := h.ok p hpmem
    unfold Pending.Ok at hok
    rw [hop] at hok
    obtain ⟨-, r, res, ses, -, hhandler, -⟩ := hok
    rw [hhandler]
  have hsockets : (s.heap.fill p.op data).sockets = s.heap.sockets := by
    cases p.op <;> rfl
  refine ⟨?_, ?_, ?_, ?_, ?_, ?_⟩
  · intro q hq
    rcases hmem q hq with rfl | hq
    · exact (h.ok p hpmem).completed hresult
    · obtain ⟨hqmem, hqapart⟩ := hothers q hq
      exact (h.ok q hqmem).fill fun a b hop => hqapart.buffer b (hbuffer a b hop)
  · intro q hq
    rcases hmem q hq with rfl | hq
    · exact (h.within p hpmem).fill p.op data
    · exact (h.within q (hothers q hq).1).fill p.op data
  · intro q hq
    rcases hmem q hq with rfl | hq
    · exact h.socket_eq p hpmem
    · exact h.socket_eq q (hothers q hq).1
  · rw [hperm.pairwise_iff fun {_ _} h => Server.Apart.symm h, List.pairwise_cons]
    exact ⟨fun q hq => (hothers q hq).2, hpair⟩
  · intro i hi
    exact h.silent i (hsockets ▸ hi)
  · intro i hi
    obtain ⟨ses, hses, hpending⟩ := h.replays i hi
    refine ⟨ses, hses, fun hout => ?_⟩
    obtain ⟨q, hq, hqs⟩ := hpending hout
    rcases List.mem_cons.mp ((perm_cons_eraseIdx hp).mem_iff.mp hq) with rfl | hq
    · exact ⟨_, hperm.mem_iff.mpr List.mem_cons_self, hqs⟩
    · exact ⟨q, hperm.mem_iff.mpr (List.mem_cons_of_mem _ hq), hqs⟩

/-! ## Handlers -/

/-- Something that concerns one socket only. -/
lemma silent_of_forall {i j : ℕ} (hij : j ≠ i) {out : List Output}
    (h : ∀ x ∈ out, x = .acceptStarted ∨ x = .accepted i ∨ (∃ c, x = .completed i c) ∨
      ∃ a, x = .action i a) : Silent j out := by
  have hji : i ≠ j := Ne.symm hij
  refine ⟨?_, ?_, ?_⟩
  · refine List.filterMap_eq_nil_iff.mpr fun x hx => ?_
    rcases h x hx with rfl | rfl | ⟨c, rfl⟩ | ⟨a, rfl⟩ <;> simp [hji]
  · refine List.filterMap_eq_nil_iff.mpr fun x hx => ?_
    rcases h x hx with rfl | rfl | ⟨c, rfl⟩ | ⟨a, rfl⟩ <;> simp [hji]
  · intro hx
    rcases h _ hx with heq | heq | ⟨c, heq⟩ | ⟨a, heq⟩
    · cases heq
    · exact hij (Output.accepted.inj heq)
    · cases heq
    · cases heq

/-- A handler that is called with an error does nothing, and its operation disappears. -/
lemma State.Inv.handle_error {s : State} {out : List Output} (h : s.Inv docRoot fs content out)
    {k : ℕ} {p : Pending} (hp : s.pending[k]? = some p) {ec : ErrorCode} {data : Bytes}
    (hresult : p.result = some (ec, data)) (hec : ec ≠ .success) :
    State.Inv docRoot fs content ⟨s.heap, s.pending.eraseIdx k⟩
      (out ++ handlerCalled p.op ec data) := by
  have hok := h.ok p (List.mem_of_getElem? hp)
  rw [← List.append_nil (s.pending.eraseIdx k)]
  refine h.handle hp (Heap.Extends.refl _ _) ?_ (by simp) (by simp) (by simp) List.Pairwise.nil
    (by simp) ?_
  · intro j hj
    apply silent_of_forall hj
    cases p.op <;> simp [handlerCalled, hec, AsyncOp.socket]
  · intro hacc
    unfold Pending.Ok at hok
    cases hop : p.op with
    | asyncAccept a =>
      -- a connection that is not accepted stays unused
      rw [hop] at hok hacc
      rw [handlerCalled, if_neg hec, List.append_nil] at hacc
      exact absurd hacc hok.2.2.2
    | asyncReadSome a b =>
      rw [hop] at hok
      obtain ⟨-, r, res, ses, hses, -, -, hout, -, buf, -, hdata⟩ := hok
      have hstep := Server2.sessionStep_read_error docRoot fs hout (hdata ec data hresult).1 hec
      refine ⟨_, hses.step hstep ?_ ?_, fun hne => absurd rfl hne⟩
      · simp [handlerCalled, completionsOn]
      · simp [handlerCalled, actionsOn]
    | asyncWrite a w =>
      rw [hop] at hok
      obtain ⟨-, -, -, ses, hses, hout⟩ := hok
      have hstep := Server2.sessionStep_write docRoot fs hout ec
      refine ⟨_, hses.step hstep ?_ ?_, fun hne => absurd rfl hne⟩
      · simp [handlerCalled, completionsOn]
      · simp [handlerCalled, actionsOn, hec]

/-- The handler of a write shuts the socket down. -/
lemma State.Inv.handle_write {s : State} {out : List Output} (h : s.Inv docRoot fs content out)
    {k : ℕ} {p : Pending} (hp : s.pending[k]? = some p) {a : ℕ} {w : Bytes}
    (hop : p.op = .asyncWrite a w) :
    State.Inv docRoot fs content ⟨s.heap, s.pending.eraseIdx k⟩
      (out ++ [.completed a (.write .success), .action a .shutdown]) := by
  have hok := h.ok p (List.mem_of_getElem? hp)
  unfold Pending.Ok at hok
  rw [hop] at hok
  obtain ⟨-, -, -, ses, hses, hout⟩ := hok
  have hsock : p.op.socket = a := by
    rw [hop]
    rfl
  rw [← List.append_nil (s.pending.eraseIdx k)]
  refine h.handle hp (Heap.Extends.refl _ _) ?_ (by simp) (by simp) (by simp) List.Pairwise.nil
    (by simp) ?_
  · intro j hj
    rw [hsock] at hj
    exact silent_of_forall hj (by simp)
  · intro _
    rw [hsock]
    have hstep := Server2.sessionStep_write docRoot fs hout .success
    refine ⟨_, hses.step hstep ?_ ?_, fun hne => absurd rfl hne⟩
    · simp [completionsOn]
    · simp [actionsOn]

/-- The objects of a connection in progress. -/
lemma within_of_lt {heap : Heap} {a b r : ℕ} {res : Option ResultType} {q : RequestParser}
    {rep : Option ℕ} {position : Position} (ha : a < heap.sockets) (hb : b < heap.buffers.length)
    (hr : r < heap.requests.length) (hrep : ∀ x, rep = some x → x < heap.replies.length) :
    Server.Within ⟨position, some a, some b, some r, res, q, rep⟩ heap := by
  refine ⟨?_, ?_, ?_, hrep⟩
  · intro x hx
    cases hx
    exact ha
  · intro x hx
    cases hx
    exact hb
  · intro x hx
    cases hx
    exact hr

/-- A successful accept: the child starts to read into new objects and the parent accepts on. -/
lemma call_accept (a n : ℕ) (content' : Bytes) (heap : Heap) (rest : List Pending) :
    Server.call docRoot fs ⟨.yieldAccept, some a, none, none, none, RequestParser.fresh, none⟩
        .success n content' ⟨heap, rest⟩ =
      some (⟨⟨heap.sockets + 1, heap.buffers ++ [content'], heap.requests ++ [Request.empty],
          heap.replies⟩,
        rest ++ [⟨.asyncReadSome a heap.buffers.length,
            ⟨.yieldRead, some a, some heap.buffers.length, some heap.requests.length, none,
              RequestParser.fresh, none⟩, none⟩,
          ⟨.asyncAccept heap.sockets,
            ⟨.yieldAccept, some heap.sockets, none, none, none, RequestParser.fresh, none⟩,
            none⟩]⟩,
        [.action a (.start .asyncReadSome), .acceptStarted]) := by
  simp [Server.call, Server.afterFork, Position.isParent, Server.readSome, Server.acceptNext]

/-- The handler of a successful accept keeps the invariant. -/
lemma State.Inv.handle_accept {s : State} {out : List Output} (h : s.Inv docRoot fs content out)
    {k : ℕ} {p : Pending} (hp : s.pending[k]? = some p) {a : ℕ} (hop : p.op = .asyncAccept a)
    (content' : Bytes) :
    State.Inv docRoot fs content
      ⟨⟨s.heap.sockets + 1, s.heap.buffers ++ [content'], s.heap.requests ++ [Request.empty],
          s.heap.replies⟩,
        s.pending.eraseIdx k ++ [⟨.asyncReadSome a s.heap.buffers.length,
            ⟨.yieldRead, some a, some s.heap.buffers.length, some s.heap.requests.length, none,
              RequestParser.fresh, none⟩, none⟩,
          ⟨.asyncAccept s.heap.sockets,
            ⟨.yieldAccept, some s.heap.sockets, none, none, none, RequestParser.fresh, none⟩,
            none⟩]⟩
      (out ++ [.accepted a, .action a (.start .asyncReadSome), .acceptStarted]) := by
  have hpmem := List.mem_of_getElem? hp
  have hok := h.ok p hpmem
  unfold Pending.Ok at hok
  rw [hop] at hok
  obtain ⟨hhandler, hsilent⟩ := hok
  have hsock : p.op.socket = a := by
    rw [hop]
    rfl
  have halt : a < s.heap.sockets := (h.within p hpmem).socket a (by rw [hhandler])
  have hother : ∀ j, j ≠ a →
      Silent j [.accepted a, .action a (.start .asyncReadSome), .acceptStarted] :=
    fun j hj => silent_of_forall hj (by simp)
  have hses : Replays docRoot fs content a
      (out ++ [.accepted a, .action a (.start .asyncReadSome), .acceptStarted])
      (Session.started content) :=
    replays_accepted hsilent (by simp [completionsOn]) (by simp [actionsOn])
  refine h.handle hp ?_ ?_ ?_ ?_ ?_ ?_ ?_ ?_
  · refine ⟨Nat.le_succ _, ?_, ?_, ?_, le_rfl⟩
    · intro b hb
      exact List.getElem?_append_left hb
    · intro r hr _
      exact List.getElem?_append_left hr
    · simp
  · rw [hsock]
    exact hother
  · intro q hq
    rcases List.mem_pair.mp hq with rfl | rfl
    · exact ⟨by simp, s.heap.requests.length, none, _, hses, rfl, by simp [Session.started,
        Connection.fresh], rfl, rfl, content', by simp, by simp⟩
    · exact ⟨rfl, (h.silent _ le_rfl).append (hother _ (by omega))⟩
  · intro q hq
    rcases List.mem_pair.mp hq with rfl | rfl
    · exact within_of_lt (Nat.lt_succ_of_lt halt) (by simp) (by simp) (by simp)
    · refine ⟨?_, by simp, by simp, by simp⟩
      intro x hx
      cases hx
      exact Nat.lt_succ_self _
  · intro q hq
    rcases List.mem_pair.mp hq with rfl | rfl
    · rfl
    · rfl
  · rw [List.pairwise_pair]
    refine ⟨separate_new (n := s.heap.sockets) ?_ le_rfl, separate_none _, separate_none _,
      separate_none _⟩
    intro x hx
    cases hx
    exact halt
  · intro q hq c hc hwithin
    rw [hhandler] at hc
    rcases List.mem_pair.mp hq with rfl | rfl
    · exact ⟨hc.socket.symm, separate_new hwithin.buffer le_rfl,
        separate_new hwithin.request le_rfl, separate_none _⟩
    · exact ⟨separate_new hwithin.socket le_rfl, separate_none _, separate_none _,
        separate_none _⟩
  · intro _
    rw [hsock]
    exact ⟨_, hses, fun _ => ⟨_, List.mem_cons_self, rfl⟩⟩

/-- The reply that `sendReply` composes. -/
def composedReply (docRoot : Bytes) (fs : FileSystem) (o : ParseOutcome) : Reply :=
  if o.result = .good then (handleRequest docRoot fs o.request Reply.empty).rep
  else stockReply .badRequest

/-- The copy of the coroutine and the operation that the handler of a read leaves. -/
def nextPending (docRoot : Bytes) (fs : FileSystem) (a b r replies : ℕ) (o : ParseOutcome) :
    Pending :=
  if o.result = .indeterminate then
    ⟨.asyncReadSome a b, ⟨.yieldRead, some a, some b, some r, some o.result, o.parser, none⟩, none⟩
  else
    ⟨.asyncWrite a (composedReply docRoot fs o).wire,
      ⟨.yieldWrite, some a, some b, some r, some o.result, o.parser, some replies⟩, none⟩

/-- The replies after the handler of a read. -/
def nextReplies (docRoot : Bytes) (fs : FileSystem) (replies : List Reply) (o : ParseOutcome) :
    List Reply :=
  if o.result = .indeterminate then replies else replies ++ [composedReply docRoot fs o]

/-- The operation that the handler of a read starts. -/
def nextOperation (docRoot : Bytes) (fs : FileSystem) (o : ParseOutcome) : Operation :=
  if o.result = .indeterminate then .asyncReadSome
  else .asyncWrite (composedReply docRoot fs o).wire

/-- A successful read: the data are parsed, and the coroutine reads on or sends its reply. -/
lemma call_read {a b r n : ℕ} {res : Option ResultType} {q : RequestParser} {req : Request}
    {heap : Heap} {buf : Bytes} (hr : heap.requests[r]? = some req)
    (hb : heap.buffers[b]? = some buf) (content' : Bytes) (rest : List Pending) :
    Server.call docRoot fs ⟨.yieldRead, some a, some b, some r, res, q, none⟩ .success n content'
        ⟨heap, rest⟩ =
      let o := q.parse req (buf.take n)
      some (⟨⟨heap.sockets, heap.buffers, heap.requests.set r o.request,
          nextReplies docRoot fs heap.replies o⟩,
        rest ++ [nextPending docRoot fs a b r heap.replies.length o]⟩,
        [.action a (.start (nextOperation docRoot fs o))]) := by
  have hrlt : r < heap.requests.length := (List.getElem?_eq_some_iff.mp hr).1
  simp only [Server.call, Server.parseSome, hr, hb, if_true, Option.bind_eq_bind,
    Option.bind_some]
  split
  · rename_i hind
    simp [Server.readSome, nextReplies, nextPending, nextOperation, hind]
  · rename_i hind
    simp [Server.sendReply, nextReplies, nextPending, nextOperation, hind, hrlt, composedReply]

/-- A connection object of `http_server2` starts the same operation. -/
lemma operation_proceed {c : Connection} (hreply : c.reply = Reply.empty) (o : ParseOutcome) :
    (c.proceed docRoot fs o).2 = nextOperation docRoot fs o := by
  unfold Connection.proceed nextOperation composedReply
  cases hres : o.result <;> simp [hreply]

/-- What the handler of a read leaves is on the socket of the connection. -/
lemma nextPending_socket (docRoot : Bytes) (fs : FileSystem) (a b r replies : ℕ)
    (o : ParseOutcome) :
    (nextPending docRoot fs a b r replies o).op.socket = a ∧
      (nextPending docRoot fs a b r replies o).handler.socket = some a := by
  unfold nextPending
  split <;> exact ⟨rfl, rfl⟩

/-- What the handler of a read leaves is in order, when the session has taken the same step. -/
lemma nextPending_ok {heap : Heap} {out : List Output} {a b r : ℕ} {o : ParseOutcome}
    {c : Connection} (hacc : .accepted a ∈ out)
    (hses : Replays docRoot fs content a out
      ⟨(c.proceed docRoot fs o).1, some (nextOperation docRoot fs o)⟩)
    (hreply : c.reply = Reply.empty) (hr : heap.requests[r]? = some o.request)
    (hb : b < heap.buffers.length) (replies : ℕ) :
    (nextPending docRoot fs a b r replies o).Ok docRoot fs content heap out := by
  unfold nextPending
  split
  · rename_i hind
    refine ⟨hacc, r, some o.result, _, hses, ?_, ?_, ?_, ?_, _, List.getElem?_eq_getElem hb,
      by simp⟩
    · rw [requestParser_proceed]
    · rw [request_proceed]
      exact hr
    · simp [nextOperation, hind]
    · rcases proceed_cases docRoot fs c o with ⟨-, -, hrep⟩ | ⟨hne, -, -⟩
      · exact hrep.trans hreply
      · exact absurd hind hne
  · rename_i hind
    refine ⟨hacc, rfl, rfl, _, hses, ?_⟩
    simp [nextOperation, hind]

/-- What the handler of a read leaves uses objects that exist. -/
lemma nextPending_within {heap : Heap} {replies : List Reply} {a b r : ℕ} {o : ParseOutcome}
    (ha : a < heap.sockets) (hb : b < heap.buffers.length) (hr : r < heap.requests.length)
    (hreplies : heap.replies = nextReplies docRoot fs replies o) :
    (nextPending docRoot fs a b r replies.length o).handler.Within heap := by
  unfold nextPending
  split
  · exact within_of_lt ha hb hr (by simp)
  · rename_i hind
    apply within_of_lt ha hb hr
    intro x hx
    cases hx
    simp [hreplies, nextReplies, hind]

/-- What the handler of a read leaves shares no more with the others than the handler did. -/
lemma nextPending_apart {heap : Heap} {a b r : ℕ} {res : Option ResultType} {q : RequestParser}
    {c : Server} (hc : Server.Apart ⟨.yieldRead, some a, some b, some r, res, q, none⟩ c)
    (hwithin : c.Within heap) (o : ParseOutcome) :
    c.Apart (nextPending docRoot fs a b r heap.replies.length o).handler := by
  unfold nextPending
  split
  · exact ⟨hc.socket.symm, hc.buffer.symm, hc.request.symm, separate_none _⟩
  · exact ⟨hc.socket.symm, hc.buffer.symm, hc.request.symm, separate_new hwithin.reply le_rfl⟩

/-- The handler of a successful read keeps the invariant. -/
lemma State.Inv.handle_read {s : State} {out : List Output} (h : s.Inv docRoot fs content out)
    {k : ℕ} {p : Pending} (hp : s.pending[k]? = some p) {a b : ℕ} {data : Bytes}
    (hop : p.op = .asyncReadSome a b) {r : ℕ} {res : Option ResultType} {ses : Session}
    (hses : Replays docRoot fs content a out ses)
    (hhandler : p.handler =
      ⟨.yieldRead, some a, some b, some r, res, ses.connection.requestParser, none⟩)
    (hout : ses.outstanding = some .asyncReadSome) (hreply : ses.connection.reply = Reply.empty)
    (hread : IsReadResult .success data) {o : ParseOutcome}
    (ho : o = ses.connection.requestParser.parse ses.connection.request data) :
    State.Inv docRoot fs content
      ⟨⟨s.heap.sockets, s.heap.buffers, s.heap.requests.set r o.request,
          nextReplies docRoot fs s.heap.replies o⟩,
        s.pending.eraseIdx k ++ [nextPending docRoot fs a b r s.heap.replies.length o]⟩
      (out ++ [.completed a (.read .success data),
        .action a (.start (nextOperation docRoot fs o))]) := by
  have hpmem := List.mem_of_getElem? hp
  have hsock : p.op.socket = a := by
    rw [hop]
    rfl
  obtain ⟨hwa, hwb, hwr, -⟩ := h.within p hpmem
  have halt : a < s.heap.sockets := hwa a (by rw [hhandler])
  have hblt : b < s.heap.buffers.length := hwb b (by rw [hhandler])
  have hrlt : r < s.heap.requests.length := hwr r (by rw [hhandler])
  have hacc : .accepted a ∈ out := by
    have hok := h.ok p hpmem
    unfold Pending.Ok at hok
    rw [hop] at hok
    exact hok.1
  have hreplies : s.heap.replies.length ≤ (nextReplies docRoot fs s.heap.replies o).length := by
    unfold nextReplies
    split <;> simp
  -- the session takes the same step
  have hstep := Server2.sessionStep_read docRoot fs hout hread
  rw [← ho] at hstep
  have hop' : ((ses.connection.fill data).proceed docRoot fs o).2 = nextOperation docRoot fs o :=
    operation_proceed (c := ses.connection.fill data) hreply o
  have hses' : Replays docRoot fs content a
      (out ++ [.completed a (.read .success data), .action a (.start (nextOperation docRoot fs o))])
      ⟨((ses.connection.fill data).proceed docRoot fs o).1,
        some (nextOperation docRoot fs o)⟩ := by
    rw [← hop']
    exact hses.step hstep (by simp [completionsOn]) (by simp [actionsOn])
  obtain ⟨hopSocket, hnextSocket⟩ :=
    nextPending_socket docRoot fs a b r s.heap.replies.length o
  refine h.handle hp ?_ ?_ ?_ ?_ ?_ (List.pairwise_singleton _ _) ?_ ?_
  · refine ⟨le_rfl, fun _ _ => rfl, ?_, le_of_eq List.length_set.symm, hreplies⟩
    intro r' _ hne
    rw [hhandler] at hne
    exact List.getElem?_set_ne fun heq => hne (congrArg some heq)
  · intro j hj
    rw [hsock] at hj
    exact silent_of_forall hj (by simp)
  · intro q hq
    rw [List.mem_singleton.mp hq]
    refine nextPending_ok (List.mem_append_left _ hacc) hses' hreply ?_ ?_ _
    · exact List.getElem?_set_self hrlt
    · exact hblt
  · intro q hq
    rw [List.mem_singleton.mp hq]
    exact nextPending_within halt hblt (by simpa using hrlt) rfl
  · intro q hq
    rw [List.mem_singleton.mp hq, hopSocket, hnextSocket]
  · intro q hq c hc hwithin
    rw [hhandler] at hc
    rw [List.mem_singleton.mp hq]
    exact nextPending_apart hc hwithin o
  · intro _
    rw [hsock]
    exact ⟨_, hses', fun _ => ⟨_, List.mem_cons_self, hopSocket⟩⟩

/-- The handler of a completed operation can always run: no null pointer is used. -/
lemma State.Inv.exists_call {s : State} {out : List Output} (h : s.Inv docRoot fs content out)
    {k : ℕ} {p : Pending} (hp : s.pending[k]? = some p) {ec : ErrorCode} {data : Bytes}
    (hresult : p.result = some (ec, data)) (content' : Bytes) :
    ∃ s' o, p.handler.call docRoot fs ec data.length content' ⟨s.heap, s.pending.eraseIdx k⟩ =
        some (s', o) ∧
      s'.Inv docRoot fs content (out ++ (handlerCalled p.op ec data ++ o)) := by
  have hok := h.ok p (List.mem_of_getElem? hp)
  by_cases hec : ec = .success
  · subst hec
    unfold Pending.Ok at hok
    cases hop : p.op with
    | asyncAccept a =>
      rw [hop] at hok
      rw [hok.1, call_accept]
      exact ⟨_, _, rfl, h.handle_accept hp hop content'⟩
    | asyncReadSome a b =>
      rw [hop] at hok
      obtain ⟨-, r, res, ses, hses, hhandler, hr, hout, hreply, buf, hb, hdata⟩ := hok
      obtain ⟨hread, htake⟩ := hdata _ _ hresult
      rw [hhandler, call_read hr hb, htake]
      exact ⟨_, _, rfl, h.handle_read hp hop hses hhandler hout hreply hread rfl⟩
    | asyncWrite a w =>
      rw [hop] at hok
      obtain ⟨-, hpos, hsock, -⟩ := hok
      refine ⟨⟨s.heap, s.pending.eraseIdx k⟩, [.action a .shutdown], ?_, h.handle_write hp hop⟩
      simp [Server.call, hpos, hsock]
  · refine ⟨⟨s.heap, s.pending.eraseIdx k⟩, [], if_neg hec, ?_⟩
    rw [List.append_nil]
    exact h.handle_error hp hresult hec

/-- Every event keeps the invariant. -/
lemma State.Inv.step {s s' : State} {out o : List Output} {e : Event}
    (h : s.Inv docRoot fs content out) (hstep : s.step docRoot fs e = some (s', o)) :
    s'.Inv docRoot fs content (out ++ o) := by
  rcases State.step_cases hstep with
    ⟨k, ec, data, p, -, hp, -, hresult, rfl, rfl⟩ |
    ⟨k, content', p, ec, data, o', -, hp, hresult, hcall, rfl⟩
  · rw [List.append_nil]
    exact h.complete hp hresult
  · obtain ⟨t, o'', hcall', hinv⟩ := h.exists_call hp hresult content'
    rw [hcall] at hcall'
    cases hcall'
    exact hinv

/-- The invariant holds when `main` has called the coroutine once. -/
lemma inv_init : State.init.Inv docRoot fs content [] where
  ok := by
    intro p hp
    have hp' := List.mem_singleton.mp hp
    subst hp'
    exact ⟨rfl, rfl, rfl, by simp⟩
  within := by
    intro p hp
    have hp' := List.mem_singleton.mp hp
    subst hp'
    refine ⟨?_, ?_, ?_, ?_⟩
    · intro x hx
      cases hx
      exact Nat.zero_lt_one
    · intro x hx
      cases hx
    · intro x hx
      cases hx
    · intro x hx
      cases hx
  socket_eq := by
    intro p hp
    have hp' := List.mem_singleton.mp hp
    subst hp'
    rfl
  apart := List.pairwise_singleton _ _
  silent := fun _ _ => ⟨rfl, rfl, by simp⟩
  replays := by simp

/-- The invariant holds after every run. -/
theorem inv_of_run {events : List Event} {s : State} {out : List Output}
    (hrun : Machine.run (State.step docRoot fs) State.init events = some (s, out)) :
    s.Inv docRoot fs content out := by
  refine Machine.run_history (I := fun s _ out => s.Inv docRoot fs content out) hrun inv_init ?_
  intro s s' e _ out o h hstep
  exact h.step hstep

/-! ## Refinement -/

/-- No handler of a reachable state uses a null pointer: each one whose operation has completed can
run. -/
theorem handle_isSome {events : List Event} {s : State} {out : List Output}
    (hrun : Machine.run (State.step docRoot fs) State.init events = some (s, out)) {k : ℕ}
    {p : Pending} (hp : s.pending[k]? = some p) (hresult : p.result.isSome) (content : Bytes) :
    (s.step docRoot fs (.handle k content)).isSome := by
  obtain ⟨⟨ec, data⟩, hr⟩ := Option.isSome_iff_exists.mp hresult
  have hinv : s.Inv docRoot fs content out := inv_of_run hrun
  obtain ⟨s', o, hcall, -⟩ := hinv.exists_call hp hr content
  simp [State.step, hp, hr, hcall]

/-- **The coroutine server refines the callback server.**  In every run, with any interleaving of
accepts, reads and writes and any errors, the actions on an accepted connection are those of a
fresh connection object of `http_server2`, whatever is in its buffer, which begins with the read of
`start()` and receives the completions of this connection alone.  Before the first of them the
connection has a parser in its first state and an empty request. -/
theorem refines_http_server2 (docRoot : Bytes) (fs : FileSystem) (content : Bytes)
    (events : List Event) (s : State) (out : List Output)
    (hrun : Machine.run (State.step docRoot fs) State.init events = some (s, out))
    (i : ℕ) (hacc : .accepted i ∈ out) :
    (∃ ses acts, Machine.run (Server2.sessionStep docRoot fs) (Session.started content)
        (completionsOn i out) = some (ses, acts) ∧
      actionsOn i out = .start .asyncReadSome :: acts) ∧
    (completionsOn i out = [] → ∃ p ∈ s.pending, p.op.socket = i ∧
      p.handler.requestParser = RequestParser.fresh ∧
      ∃ r, p.handler.request = some r ∧ s.heap.requests[r]? = some Request.empty) := by
  have hinv : s.Inv docRoot fs content out := inv_of_run hrun
  obtain ⟨ses, hses, hpending⟩ := hinv.replays i hacc
  obtain ⟨acts, hsrun, hacts⟩ := id hses
  refine ⟨⟨ses, acts, hsrun, hacts⟩, fun hnil => ?_⟩
  -- no handler has run, hence the session is still where it started
  rw [hnil, Machine.run_nil] at hsrun
  have hstart : ses = Session.started content := (congrArg Prod.fst (Option.some.inj hsrun)).symm
  obtain ⟨p, hp, hps⟩ := hpending (by rw [hstart]; simp [Session.started])
  refine ⟨p, hp, hps, ?_⟩
  have hok := hinv.ok p hp
  unfold Pending.Ok at hok
  cases hop : p.op with
  | asyncAccept a =>
    rw [hop] at hok hps
    subst hps
    exact absurd hacc hok.2.2.2
  | asyncReadSome a b =>
    rw [hop] at hok hps
    subst hps
    obtain ⟨-, r, res, ses', hses', hhandler, hr, -⟩ := hok
    rw [hses'.unique hses, hstart] at hhandler hr
    rw [hhandler]
    exact ⟨rfl, r, rfl, hr⟩
  | asyncWrite a w =>
    rw [hop] at hok hps
    subst hps
    obtain ⟨-, -, -, ses', hses', hout⟩ := hok
    rw [hses'.unique hses, hstart] at hout
    cases hout

/-- Two connections, of which the second has read nothing when the request of the first is
rejected. -/
theorem refines_http_server2_second_connection :
    ∃ s out, Machine.run (State.step (bytes "/srv") fun _ => none) State.init
        [.complete 0 .success [], .handle 0 [], .complete 1 .success [], .handle 1 [],
          .complete 0 .success [0], .handle 0 []] = some (s, out) ∧
      (∃ ses acts, Machine.run (Server2.sessionStep (bytes "/srv") fun _ => none)
          (Session.started []) (completionsOn 1 out) = some (ses, acts) ∧
        actionsOn 1 out = .start .asyncReadSome :: acts) ∧
      (completionsOn 1 out = [] → ∃ p ∈ s.pending, p.op.socket = 1 ∧
        p.handler.requestParser = RequestParser.fresh ∧
        ∃ r, p.handler.request = some r ∧ s.heap.requests[r]? = some Request.empty) := by
  have hrun : ((Machine.run (State.step (bytes "/srv") fun _ => none) State.init
      [.complete 0 .success [], .handle 0 [], .complete 1 .success [], .handle 1 [],
        .complete 0 .success [0], .handle 0 []]).map fun r => decide (.accepted 1 ∈ r.2)) =
      some true := by decide +kernel
  obtain ⟨⟨s, out⟩, hrun, hacc⟩ := Option.map_eq_some_iff.mp hrun
  exact ⟨s, out, hrun, refines_http_server2 (bytes "/srv") (fun _ => none) [] _ s out hrun 1
    (of_decide_eq_true hacc)⟩

end Server4

end Http

end AsioStudy
