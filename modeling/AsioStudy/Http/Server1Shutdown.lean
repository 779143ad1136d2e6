import AsioStudy.Http.Server1Lifecycle

/-!
# The shutdown of `http_server1`

Once the handler of the signal has run, every operation has a result and every socket is closed, so
that only queued handlers are left.  Each of them either ends its connection or starts one last
operation, which fails at once because the socket is closed.

The handlers that can still run are counted by `Server.cost`: two for a read that has already
succeeded and one for every other operation.  Every step lowers this number, which is at most
`2 * n + 1` if `n` connections were managed when the signal arrived (`shutdown_drains`).
-/

namespace AsioStudy

namespace Http

namespace Server1

/-! ## What keeps the server running -/

/-- The event is the run of a handler. -/
def Event.isHandler : Event → Bool
  | .handle _ _ => true
  | .handleAccept _ _ => true
  | .handleStop => true
  | _ => false

/-- A connection object is alive as long as it is managed or a handler of it is outstanding. -/
def Server.Alive (s : Server) (i : ℕ) : Prop :=
  i ∈ s.connections ∨ ∃ o, s.objects[i]? = some o ∧ o.pending ≠ []

/-- The number of operations whose handlers have not run; `io_context::run()` returns when there is
none. -/
def Server.outstanding (s : Server) : ℕ :=
  s.accepts.length + (s.objects.map fun o => o.pending.length).sum +
    if s.awaitingStop then 1 else 0

/-! ## Handlers that are left -/

/-- How many handlers an operation on a closed socket leads to: its own and, after a read that has
succeeded, the one of the operation that is started then. -/
def Pending.cost (p : Pending) : ℕ :=
  match p.op, p.result with
  | .asyncReadSome, some (.success, _) => 2
  | _, _ => 1

/-- The handlers of a connection that can still run. -/
def ConnectionObject.cost (o : ConnectionObject) : ℕ := (o.pending.map Pending.cost).sum

/-- The handlers of the server that can still run. -/
def Server.cost (s : Server) : ℕ := s.accepts.length + (s.objects.map ConnectionObject.cost).sum

/-- An operation leads to at most two handlers. -/
lemma Pending.cost_le_two (p : Pending) : p.cost ≤ 2 := by
  unfold Pending.cost
  split
  · exact le_rfl
  · exact Nat.le_succ 1

/-- An operation has a handler. -/
lemma Pending.one_le_cost (p : Pending) : 1 ≤ p.cost := by
  unfold Pending.cost
  split
  · exact Nat.le_succ 1
  · exact le_rfl

/-- A connection of a stopped server: its socket is closed, and at most one operation is
outstanding, whose handler is queued. -/
structure ConnectionObject.Closing (o : ConnectionObject) : Prop where
  /-- The socket is closed. -/
  closed : o.socketOpen = false
  /-- Nothing is outstanding or one operation that has a result. -/
  pending : o.pending = [] ∨ ∃ op r, o.pending = [⟨op, some r⟩]

/-- An operation that is started on a closed socket fails at once. -/
lemma pending_start_of_closed {o : ConnectionObject} (h : o.socketOpen = false) (op : Operation) :
    (o.start op).pending = o.pending ++ [⟨op, some (.other, 0)⟩] := by
  rw [ConnectionObject.start, h]
  rfl

/-- The handler of a closing connection leaves it closing, with fewer handlers to run. -/
lemma ConnectionObject.Closing.handled {o : ConnectionObject} (h : o.Closing) (docRoot : Bytes)
    (fs : FileSystem) {k : ℕ} {op : Operation} {ec : ErrorCode} {n : ℕ}
    (hp : o.pending[k]? = some ⟨op, some (ec, n)⟩) :
    (o.handled docRoot fs k op ec n).Closing ∧ (o.handled docRoot fs k op ec n).cost < o.cost := by
  have hpending : o.pending = [⟨op, some (ec, n)⟩] ∧ k = 0 := by
    rcases h.pending with hnil | ⟨op', r, hsingle⟩
    · rw [hnil] at hp
      simp at hp
    · rw [hsingle, List.getElem?_singleton] at hp
      split at hp
      · rename_i hk
        exact ⟨by rw [hsingle, Option.some.inj hp], hk⟩
      · cases hp
  obtain ⟨hpending, rfl⟩ := hpending
  have hcost : o.cost = Pending.cost ⟨op, some (ec, n)⟩ := by
    simp [ConnectionObject.cost, hpending]
  rw [hcost]
  -- a handler that starts nothing leaves nothing
  have hidle : ∀ o' : ConnectionObject, o'.socketOpen = false → o'.pending = [] →
      o'.Closing ∧ o'.cost < Pending.cost ⟨op, some (ec, n)⟩ := by
    intro o' hclosed hnil
    refine ⟨⟨hclosed, Or.inl hnil⟩, ?_⟩
    rw [ConnectionObject.cost, hnil]
    exact Pending.one_le_cost _
  have herase : o.pending.eraseIdx 0 = [] := by
    rw [hpending]
    rfl
  unfold ConnectionObject.handled
  rw [herase]
  cases op with
  | asyncReadSome =>
    cases ec with
    | success =>
      -- the read had succeeded: the next operation is started on the closed socket
      have hnext := pending_start_of_closed
        (o := { o with connection := (o.connection.received docRoot fs n).1, pending := [] })
        h.closed (o.connection.received docRoot fs n).2
      refine ⟨⟨h.closed, Or.inr ⟨_, _, hnext⟩⟩, ?_⟩
      rw [ConnectionObject.cost]
      refine lt_of_eq_of_lt (congrArg (fun l => (l.map Pending.cost).sum) hnext) ?_
      cases (o.connection.received docRoot fs n).2 <;> exact Nat.lt_succ_self 1
    | operationAborted => exact hidle _ h.closed rfl
    | other => exact hidle _ rfl rfl
  | asyncWrite buffers =>
    cases ec with
    | success => exact hidle _ rfl rfl
    | operationAborted => exact hidle _ h.closed rfl
    | other => exact hidle _ rfl rfl

/-! ## The stopped server -/

/-- The signal has been handled: nothing is managed, and everything that is outstanding has a
result. -/
structure Server.Draining (s : Server) : Prop where
  /-- The acceptor is closed and nothing is managed. -/
  stopped : s.Stopped
  /-- The accepts have been aborted or had completed. -/
  accepts : none ∉ s.accepts
  /-- All sockets are closed. -/
  closing : ∀ o ∈ s.objects, o.Closing

/-- Replacing one connection changes the sum of the costs by the difference. -/
lemma sum_cost_set {objects : List ConnectionObject} {i : ℕ} {o : ConnectionObject}
    (ho : objects[i]? = some o) (o' : ConnectionObject) :
    ((objects.set i o').map ConnectionObject.cost).sum + o.cost =
      (objects.map ConnectionObject.cost).sum + o'.cost := by
  induction objects generalizing i with
  | nil => simp at ho
  | cons x objects ih =>
    cases i with
    | zero =>
      obtain rfl : x = o := by simpa using ho
      simp only [List.set_cons_zero, List.map_cons, List.sum_cons]
      omega
    | succ i =>
      have hi := ih (i := i) (by simpa using ho)
      simp only [List.set_cons_succ, List.map_cons, List.sum_cons]
      omega

/-- The connections after one of them has run a handler. -/
lemma objects_runHandler_eq_set (docRoot : Bytes) (fs : FileSystem) {s : Server} {i : ℕ} (k : ℕ)
    {o : ConnectionObject} (ho : s.objects[i]? = some o) (op : Operation) (ec : ErrorCode)
    (n : ℕ) :
    (s.runHandler docRoot fs i k o op ec n).1.objects =
      s.objects.set i (o.handled docRoot fs k op ec n) := by
  have hlt : i < s.objects.length := (List.getElem?_eq_some_iff.mp ho).1
  apply List.ext_getElem?
  intro j
  rw [objects_runHandler docRoot fs k ho]
  by_cases hij : i = j
  · subst hij
    rw [if_pos rfl, List.getElem?_set_self hlt]
  · rw [if_neg hij, List.getElem?_set_ne hij]

/-- After the signal only handlers run, and each of them leaves fewer handlers to run. -/
lemma Server.Draining.step {docRoot : Bytes} {fs : FileSystem} {s s' : Server} {e : Event}
    {out : List Output} (h : s.Draining) (hstep : s.step docRoot fs e = some (s', out)) :
    s'.Draining ∧ s'.cost < s.cost ∧ e.isHandler = true := by
  have hstopped := (h.stopped.step hstep).1
  rcases Server.step_cases hstep with
    ⟨i, k, ec, data, o, p, -, ho, hp, hnone, -, -, -⟩ |
    ⟨i, k, o, op, ec, n, rfl, ho, hp, rfl, -⟩ | ⟨k, ec, -, hk, -, -, -⟩ |
    ⟨k, ec, buffer, rfl, hk, rfl, -⟩ | ⟨-, hawait, -, -⟩
  · -- all results are known
    exfalso
    rcases (h.closing o (List.mem_of_getElem? ho)).pending with hnil | ⟨op, r, hsingle⟩
    · rw [hnil] at hp
      simp at hp
    · have hmem := List.mem_of_getElem? hp
      rw [hsingle, List.mem_singleton] at hmem
      rw [hmem] at hnone
      cases hnone
  · obtain ⟨-, haccepts, -, -⟩ := acceptor_runHandler docRoot fs s i k o op ec n
    obtain ⟨hclosing, hlt⟩ := (h.closing o (List.mem_of_getElem? ho)).handled docRoot fs hp
    have hsum := sum_cost_set ho (o.handled docRoot fs k op ec n)
    have hobjects := objects_runHandler_eq_set docRoot fs k ho op ec n
    refine ⟨⟨hstopped, haccepts ▸ h.accepts, ?_⟩, ?_, rfl⟩
    · intro o' ho'
      rw [hobjects] at ho'
      rcases List.mem_or_eq_of_mem_set ho' with ho' | rfl
      · exact h.closing o' ho'
      · exact hclosing
    · rw [Server.cost, Server.cost, haccepts, hobjects]
      omega
  · exact absurd (List.mem_of_getElem? hk) h.accepts
  · have hlt : k < s.accepts.length := (List.getElem?_eq_some_iff.mp hk).1
    have hclosed : ¬ s.acceptorOpen = true := by simp [h.stopped.2.1]
    have hret : Server.acceptHandler { s with accepts := s.accepts.eraseIdx k } ec buffer =
        ({ s with accepts := s.accepts.eraseIdx k }, []) := by
      rw [Server.acceptHandler, if_pos (by simpa using hclosed)]
    rw [hret] at hstopped ⊢
    refine ⟨⟨hstopped, fun hmem => h.accepts (List.mem_of_mem_eraseIdx hmem), h.closing⟩, ?_, rfl⟩
    simp only [Server.cost, List.length_eraseIdx_of_lt hlt]
    omega
  · rw [h.stopped.1] at hawait
    cases hawait

/-- A draining server that can do nothing any more has nothing outstanding, and none of its
connections is alive. -/
lemma Server.Draining.of_stuck {docRoot : Bytes} {fs : FileSystem} {s : Server} (h : s.Draining)
    (hstuck : ∀ e, s.step docRoot fs e = none) :
    s.outstanding = 0 ∧ ∀ i, ¬ s.Alive i := by
  have haccepts : s.accepts = [] := by
    cases hs : s.accepts with
    | nil => rfl
    | cons r accepts =>
      cases r with
      | none => exact absurd (by rw [hs]; exact List.mem_cons_self) h.accepts
      | some ec =>
        have hnone := hstuck (.handleAccept 0 [])
        simp [Server.step, hs] at hnone
  have hpending : ∀ o ∈ s.objects, o.pending = [] := by
    intro o ho
    obtain ⟨i, hi⟩ := List.getElem?_of_mem ho
    rcases (h.closing o ho).pending with hnil | ⟨op, r, hsingle⟩
    · exact hnil
    · have hnone := hstuck (.handle i 0)
      simp [Server.step, hi, hsingle] at hnone
  constructor
  · have hsum : (s.objects.map fun o => o.pending.length).sum = 0 := by
      rw [List.sum_eq_zero]
      intro n hn
      obtain ⟨o, ho, rfl⟩ := List.mem_map.mp hn
      rw [hpending o ho, List.length_nil]
    rw [Server.outstanding, haccepts, hsum, h.stopped.1]
    rfl
  · rintro i (hi | ⟨o, ho, hne⟩)
    · rw [h.stopped.2.2] at hi
      simp at hi
    · exact hne (hpending o (List.mem_of_getElem? ho))

/-! ## Before the signal -/

/-- Connections that are not managed have nothing outstanding before the signal. -/
def Server.Tidy (s : Server) : Prop :=
  s.awaitingStop = true → ∀ (i : ℕ) (o : ConnectionObject), s.objects[i]? = some o →
    i ∉ s.connections → o.pending = []

/-- A handler that stops its connection starts nothing. -/
lemma perform_of_managerStop_mem {docRoot : Bytes} {fs : FileSystem} {o : ConnectionObject}
    {k : ℕ} {op : Operation} {ec : ErrorCode} {n : ℕ}
    (h : .managerStop ∈ (handler docRoot fs o.connection op ec n).2) :
    (o.handled docRoot fs k op ec n).pending = (o.pending.eraseIdx k).map Pending.abort := by
  cases op <;> cases ec <;>
    simp_all [handler, readHandler, writeHandler, ConnectionObject.handled,
      ConnectionObject.perform, ConnectionObject.stop]

/-- Every event keeps the server tidy. -/
lemma Server.Tidy.step {docRoot : Bytes} {fs : FileSystem} {s s' : Server} {out o : List Output}
    {e : Event} (h : s.Tidy) (hinv : s.Inv out) (hstep : s.step docRoot fs e = some (s', o)) :
    s'.Tidy := by
  intro hawait' j o' ho' hj
  rcases Server.step_cases hstep with
    ⟨i, k, ec, data, obj, p, -, hobj, hp, -, -, rfl, -⟩ |
    ⟨i, k, obj, op, ec, n, -, hobj, hp, rfl, -⟩ | ⟨k, ec, -, hk, -, rfl, -⟩ |
    ⟨k, ec, buffer, -, hk, rfl, -⟩ | ⟨-, hawait, rfl, -⟩
  · by_cases hij : i = j
    · subst hij
      rw [h hawait' i obj hobj hj] at hp
      simp at hp
    · rw [List.getElem?_modify_ne _ _ hij] at ho'
      exact h hawait' j o' ho' hj
  · have hawait : s.awaitingStop = true := (acceptor_runHandler ..).2.2.1.symm.trans hawait'
    rw [objects_runHandler docRoot fs k hobj] at ho'
    rw [connections_runHandler] at hj
    by_cases hij : i = j
    · subst hij
      rw [if_pos rfl] at ho'
      have hmanaged : i ∈ s.connections := by
        by_contra hi
        rw [h hawait i obj hobj hi] at hp
        simp at hp
      have hstop : .managerStop ∈ (handler docRoot fs obj.connection op ec n).2 := by
        by_contra hnot
        rw [if_neg hnot] at hj
        exact hj hmanaged
      -- the only operation was the one whose handler has run
      have herase : obj.pending.eraseIdx k = [] := by
        rcases (hinv.object_ok i obj hobj).outstanding with ⟨q, hq⟩ | ⟨hnil, -, -⟩
        · have hk : k < obj.pending.length := (List.getElem?_eq_some_iff.mp hp).1
          rw [← List.length_eq_zero_iff, List.length_eraseIdx_of_lt hk, hq.pending_eq]
          rfl
        · rw [hnil, List.eraseIdx_nil]
      rw [← Option.some.inj ho', perform_of_managerStop_mem hstop, herase, List.map_nil]
    · rw [if_neg hij] at ho'
      refine h hawait j o' ho' fun hmem => hj ?_
      split
      · simpa [hmem] using Ne.symm hij
      · exact hmem
  · exact h hawait' j o' ho' hj
  · revert hawait' ho' hj
    unfold Server.acceptHandler
    split
    · exact fun hawait' ho' hj => h hawait' j o' ho' hj
    · split
      · intro hawait' ho' hj
        simp only [Server.doAccept, Server.managerStart, List.mem_insert_iff, not_or] at ho' hj
        obtain ⟨hlast, hmem⟩ := hj
        rcases Nat.lt_or_gt_of_ne hlast with hlt | hgt
        · rw [List.getElem?_append_left hlt] at ho'
          exact h hawait' j o' ho' hmem
        · rw [List.getElem?_eq_none (by simpa using hgt)] at ho'
          cases ho'
      · exact fun hawait' ho' hj => h hawait' j o' ho' hj
  · cases hawait'

/-- The server is tidy in every reachable state. -/
lemma tidy_of_run {docRoot : Bytes} {fs : FileSystem} {events : List Event} {s : Server}
    {out : List Output}
    (hrun : Machine.run (Server.step docRoot fs) Server.init events = some (s, out)) : s.Tidy := by
  have h : s.Inv out ∧ s.Tidy := by
    refine Machine.run_history (I := fun s _ out => s.Inv out ∧ s.Tidy) hrun
      ⟨inv_init, by simp [Server.Tidy, Server.init]⟩ ?_
    rintro s s' e _ out o ⟨hinv, htidy⟩ hstep
    exact ⟨hinv.step hstep, htidy.step hinv hstep⟩
  exact h.2

/-! ## The signal -/

/-- What the handler of the signal does to the connections. -/
lemma getElem?_objects_stopHandler (s : Server) (j : ℕ) :
    s.stopHandler.objects[j]? =
      if j ∈ s.connections then s.objects[j]?.map ConnectionObject.stop else s.objects[j]? := by
  simp only [Server.stopHandler, Server.stopAll, Server.closeAcceptor, getElem?_foldl_stop]

/-- The handler of the signal leaves a server that drains. -/
lemma Server.Inv.draining_stopHandler {s : Server} {out : List Output} (h : s.Inv out)
    (htidy : s.Tidy) (hawait : s.awaitingStop = true) : s.stopHandler.Draining where
  stopped := ⟨rfl, rfl, rfl⟩
  accepts := by simp [Server.stopHandler, Server.stopAll, Server.closeAcceptor]
  closing := by
    intro o ho
    obtain ⟨i, hi⟩ := List.getElem?_of_mem ho
    have hstopped := (h.stopHandler.object_ok i o hi).managed_iff
    have hclosed : o.socketOpen = false := by
      have hnot : i ∉ s.stopHandler.connections := List.not_mem_nil
      simpa using hstopped.not.mp hnot
    refine ⟨hclosed, ?_⟩
    rw [getElem?_objects_stopHandler] at hi
    split at hi
    · obtain ⟨o', ho', rfl⟩ := Option.map_eq_some_iff.mp hi
      rcases (h.object_ok i o' ho').outstanding with ⟨q, hq⟩ | ⟨hnil, -, -⟩
      · refine Or.inr ⟨q.op, q.result.getD (.operationAborted, 0), ?_⟩
        simp [ConnectionObject.stop, hq.pending_eq, Pending.abort]
      · simp [ConnectionObject.stop, hnil]
    · rename_i hi'
      exact Or.inl (htidy hawait i o hi hi')

/-- Costs that only the listed positions have, and at most two each. -/
lemma sum_cost_le {objects : List ConnectionObject} {connections : List ℕ}
    (h : ∀ (i : ℕ) (o : ConnectionObject), objects[i]? = some o →
      o.cost ≤ if i ∈ connections then 2 else 0) :
    (objects.map ConnectionObject.cost).sum ≤ 2 * connections.length := by
  have hcard : (Finset.univ.filter fun i : Fin objects.length => i.1 ∈ connections).card ≤
      connections.toFinset.card := by
    apply Finset.card_le_card_of_injOn Fin.val
    · intro i hi
      simpa using hi
    · exact Fin.val_injective.injOn
  calc (objects.map ConnectionObject.cost).sum
      = ∑ i : Fin objects.length, objects[i.1].cost := (Fin.sum_univ_fun_getElem _ _).symm
    _ ≤ ∑ i : Fin objects.length, if i.1 ∈ connections then 2 else 0 :=
        Finset.sum_le_sum fun i _ => h i.1 _ (List.getElem?_eq_getElem i.2)
    _ = 2 * (Finset.univ.filter fun i : Fin objects.length => i.1 ∈ connections).card := by
        rw [← Finset.sum_filter, Finset.sum_const, smul_eq_mul, mul_comm]
    _ ≤ 2 * connections.length :=
        Nat.mul_le_mul_left 2 (hcard.trans (List.toFinset_card_le connections))

/-- The handler of the signal leaves at most two handlers for each managed connection, and the one
of the accept. -/
lemma Server.Inv.cost_stopHandler_le {s : Server} {out : List Output} (h : s.Inv out)
    (htidy : s.Tidy) (hawait : s.awaitingStop = true) :
    s.stopHandler.cost ≤ 2 * s.connections.length + 1 := by
  have hsum : (s.stopHandler.objects.map ConnectionObject.cost).sum ≤ 2 * s.connections.length := by
    apply sum_cost_le
    intro i o ho
    rw [getElem?_objects_stopHandler] at ho
    split at ho
    · rename_i hi
      rw [if_pos hi]
      obtain ⟨o', ho', rfl⟩ := Option.map_eq_some_iff.mp ho
      rcases (h.object_ok i o' ho').outstanding with ⟨q, hq⟩ | ⟨hnil, -, -⟩
      · simpa [ConnectionObject.cost, ConnectionObject.stop, hq.pending_eq] using
          Pending.cost_le_two q.abort
      · simp [ConnectionObject.cost, ConnectionObject.stop, hnil]
    · rename_i hi
      rw [if_neg hi, ConnectionObject.cost, htidy hawait i o ho hi]
      rfl
  have haccepts : s.stopHandler.accepts.length = 1 := by
    rw [← (h.accepting hawait).2]
    simp [Server.stopHandler, Server.stopAll, Server.closeAcceptor]
  rw [Server.cost, haccepts]
  omega

/-- **The shutdown drains.**  In every reachable state of `http_server1`, let the handler of the
signal run while `n` connections are managed.  Whatever happens afterwards consists of at most
`2 * n + 1` handlers.  As long as anything is outstanding some handler can run; when none can, no
operation is outstanding, so that `io_context::run()` returns, and no connection object is alive;
and every continuation can be completed to such an end. -/
theorem shutdown_drains (docRoot : Bytes) (fs : FileSystem) (events : List Event) (s t : Server)
    (out out' : List Output)
    (hrun : Machine.run (Server.step docRoot fs) Server.init events = some (s, out))
    (hsignal : s.step docRoot fs .handleStop = some (t, out'))
    (continuation : List Event) (u : Server) (out'' : List Output)
    (hcont : Machine.run (Server.step docRoot fs) t continuation = some (u, out'')) :
    (∀ e ∈ continuation, e.isHandler = true) ∧
      continuation.length ≤ 2 * s.connections.length + 1 ∧
      ((∀ e, u.step docRoot fs e = none) → u.outstanding = 0 ∧ ∀ i, ¬ u.Alive i) ∧
      ∃ rest v o, Machine.run (Server.step docRoot fs) u rest = some (v, o) ∧
        v.outstanding = 0 ∧ ∀ i, ¬ v.Alive i := by
  have hinv := inv_of_run hrun
  have htidy := tidy_of_run hrun
  obtain ⟨hawait, hstop⟩ := Option.ite_none_right_eq_some.mp hsignal
  obtain rfl : s.stopHandler = t := congrArg Prod.fst (Option.some.inj hstop)
  have hdraining := hinv.draining_stopHandler htidy hawait
  have hstep : ∀ (v v' : Server) e o, v.Draining → v.step docRoot fs e = some (v', o) →
      v'.Draining ∧ v'.cost < v.cost :=
    fun v v' e o hv he => ⟨(hv.step he).1, (hv.step he).2.1⟩
  have hlen := Machine.run_length_add_le hstep hcont hdraining
  have hcost := hinv.cost_stopHandler_le htidy hawait
  obtain ⟨hu, hhandlers⟩ : u.Draining ∧ ∀ e ∈ continuation, e.isHandler = true := by
    refine Machine.run_history (I := fun v es _ => v.Draining ∧ ∀ e ∈ es, e.isHandler = true)
      hcont ⟨hdraining, by simp⟩ ?_
    rintro v v' e es _ o ⟨hv, hes⟩ he
    refine ⟨(hv.step he).1, fun e' he' => ?_⟩
    rcases List.mem_append.mp he' with he' | he'
    · exact hes e' he'
    · rw [List.mem_singleton.mp he']
      exact (hv.step he).2.2
  refine ⟨hhandlers, by omega, hu.of_stuck, ?_⟩
  obtain ⟨rest, v, o, hrest, hstuck⟩ := Machine.exists_run_stuck hstep hu
  have hv : v.Draining :=
    Machine.run_invariant (fun v v' e o hv he => (hstep v v' e o hv he).1) hrest hu
  exact ⟨rest, v, o, hrest, hv.of_stuck hstuck⟩

/-- A connection whose read has succeeded when the signal arrives. -/
theorem shutdown_drains_while_reading :
    ∃ t u out' out'',
      Machine.run (Server.step [] fun _ => none) t [.handleAccept 0 [], .handle 0 0, .handle 0 0] =
        some (u, out'') ∧
      (∃ s out, Machine.run (Server.step [] fun _ => none) Server.init
          [.completeAccept 0 .success, .handleAccept 0 [], .complete 0 0 .success [71]] =
            some (s, out) ∧ s.step [] (fun _ => none) .handleStop = some (t, out') ∧
        3 ≤ 2 * s.connections.length + 1) ∧
      ((∀ e, u.step [] (fun _ => none) e = none) → u.outstanding = 0 ∧ ∀ i, ¬ u.Alive i) := by
  have hrun : ∃ s out, Machine.run (Server.step [] fun _ => none) Server.init
      [.completeAccept 0 .success, .handleAccept 0 [], .complete 0 0 .success [71]] =
        some (s, out) ∧ ∃ t out', s.step [] (fun _ => none) .handleStop = some (t, out') ∧
          ∃ u out'', Machine.run (Server.step [] fun _ => none) t
            [.handleAccept 0 [], .handle 0 0, .handle 0 0] = some (u, out'') :=
    ⟨_, _, rfl, _, _, rfl, _, _, rfl⟩
  obtain ⟨s, out, hs, t, out', ht, u, out'', hu⟩ := hrun
  have h := shutdown_drains [] (fun _ => none) _ s t out out' hs ht _ u out'' hu
  exact ⟨t, u, out', out'', hu, ⟨s, out, hs, ht, h.2.1⟩, h.2.2.1⟩

end Server1

end Http

end AsioStudy
