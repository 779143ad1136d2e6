import AsioStudy.Foundation.Machine
import AsioStudy.Foundation.RoundRobin
import AsioStudy.Http.Connection

/-!
# One context for each thread

`http_server2` has a pool of contexts, and each new connection is given the next one.  The
constructor of `server` takes the first contexts of the pool for its own objects, and `do_accept`
takes one for a connection before it is known whether the accept succeeds.

The main result is `balanced_run`: however many accepts fail, the contexts are taken in turn, and
the connections are spread evenly over them up to the number of the accepts that have failed.
-/

namespace AsioStudy

namespace Http

namespace Server2

open RoundRobin

/-! ## The pool -/

/-- The class `io_context_pool`, whose contexts are known by their index in `io_contexts_`. -/
structure IoContextPool where
  /-- `io_contexts_.size()`. -/
  size : ℕ
  /-- The member `next_io_context_`. -/
  nextIoContext : ℕ
  deriving DecidableEq, Repr

/-- The constructor of `io_context_pool`, or the text of its exception. -/
def IoContextPool.make (poolSize : ℕ) : Except String IoContextPool :=
  if poolSize = 0 then .error "io_context_pool size is 0" else .ok ⟨poolSize, 0⟩

/-- `get_io_context`: the index that it uses, and the pool after it. -/
def IoContextPool.getIoContext (pool : IoContextPool) : ℕ × IoContextPool :=
  let nextIoContext := pool.nextIoContext + 1
  (pool.nextIoContext,
    { pool with nextIoContext := if nextIoContext = pool.size then 0 else nextIoContext })

/-- The pool of `n` contexts after `k` calls of `get_io_context`. -/
def poolAfter (n k : ℕ) : IoContextPool := ⟨n, k % n⟩

/-- The `k`-th call uses the index `k % n`. -/
lemma getIoContext_poolAfter {n : ℕ} (hn : 0 < n) (k : ℕ) :
    (poolAfter n k).getIoContext = (k % n, poolAfter n (k + 1)) := by
  have hnext : (if k % n + 1 = n then 0 else k % n + 1) = (k + 1) % n := next_mod hn k
  rw [poolAfter, IoContextPool.getIoContext]
  simp only [hnext]
  rfl

/-! ## The server -/

/-- What the server does. -/
inductive Action where
  /-- `get_io_context` uses an index. -/
  | getIoContext (index : ℕ)
  /-- A connection is started on a context. -/
  | start (index : ℕ)
  deriving DecidableEq, Repr

/-- The state of `server`. -/
structure State where
  /-- The member `io_context_pool_`. -/
  ioContextPool : IoContextPool
  /-- `acceptor_.is_open()`. -/
  isOpen : Bool
  /-- The context for the socket of the accept that is outstanding, if there is one. -/
  accepting : Option ℕ
  deriving DecidableEq, Repr

/-- `do_accept`. -/
def doAccept (s : State) : State × List Action :=
  let (index, pool) := s.ioContextPool.getIoContext
  ({ s with ioContextPool := pool, accepting := some index }, [.getIoContext index])

/-- The constructor of `server` after that of its pool, when the address can be listened on: a
context for `signals_`, one for `acceptor_`, and the first accept. -/
def constructOn (pool : IoContextPool) : State × List Action :=
  let signals := pool.getIoContext
  let acceptor := signals.2.getIoContext
  let accept := doAccept ⟨acceptor.2, true, none⟩
  (accept.1, [.getIoContext signals.1, .getIoContext acceptor.1] ++ accept.2)

/-- The constructor of `server`. -/
def construct (ioContextPoolSize : ℕ) : Except String (State × List Action) :=
  (IoContextPool.make ioContextPoolSize).map constructOn

/-- The handler of an accept, which can only run when an accept is outstanding. -/
def handleAccept (s : State) (ec : ErrorCode) : Option (State × List Action) :=
  match s.accepting with
  | none => none
  | some index =>
    let s := { s with accepting := none }
    if !s.isOpen then some (s, [])
    else
      let (s', actions) := doAccept s
      if ec = .success then some (s', .start index :: actions) else some (s', actions)

/-! ## The contexts in turn -/

/-- The index that an action takes from the pool. -/
def Action.drawn? : Action → Option ℕ
  | .getIoContext index => some index
  | .start _ => none

/-- The context on which an action starts a connection. -/
def Action.started? : Action → Option ℕ
  | .getIoContext _ => none
  | .start index => some index

/-- The indices that `get_io_context` has used. -/
def drawn (actions : List Action) : List ℕ := actions.filterMap Action.drawn?

/-- The contexts of the connections that were started. -/
def started (actions : List Action) : List ℕ := actions.filterMap Action.started?

/-- The server with `n` contexts after `m` accepts. -/
def serverAfter (n m : ℕ) : State := ⟨poolAfter n (m + 3), true, some ((m + 2) % n)⟩

/-- `do_accept` takes the next context for the socket. -/
lemma doAccept_poolAfter {n : ℕ} (hn : 0 < n) (k : ℕ) (isOpen : Bool) (accepting : Option ℕ) :
    doAccept ⟨poolAfter n k, isOpen, accepting⟩ =
      (⟨poolAfter n (k + 1), isOpen, some (k % n)⟩, [.getIoContext (k % n)]) := by
  simp only [doAccept, getIoContext_poolAfter hn]

/-- The constructor takes three contexts. -/
lemma construct_eq {n : ℕ} (hn : 0 < n) :
    construct n = .ok (serverAfter n 0, (positions n 0 3).map .getIoContext) := by
  have hmake : IoContextPool.make n = .ok (poolAfter n 0) := by
    rw [IoContextPool.make, if_neg hn.ne', poolAfter, Nat.zero_mod]
  rw [construct, hmake, Except.map]
  simp only [constructOn, getIoContext_poolAfter hn, doAccept_poolAfter hn]
  rfl

/-- What the handler of the accept with number `m` does. -/
def acceptActions (n m : ℕ) (ec : ErrorCode) : List Action :=
  (if ec = .success then [.start ((2 + m) % n)] else []) ++ [.getIoContext ((m + 3) % n)]

/-- A handler starts a connection unless the accept has failed, and the next accept takes the next
context. -/
lemma handleAccept_serverAfter {n : ℕ} (hn : 0 < n) (m : ℕ) (ec : ErrorCode) :
    handleAccept (serverAfter n m) ec = some (serverAfter n (m + 1), acceptActions n m ec) := by
  simp only [handleAccept, serverAfter, doAccept_poolAfter hn]
  rw [if_neg (by decide), acceptActions, Nat.add_comm 2 m]
  split_ifs <;> rfl

/-! ## Whole runs -/

/-- The number of accepts that have failed. -/
def failures (completions : List ErrorCode) : ℕ := completions.countP (· ≠ .success)

/-- The server with `n` contexts has taken them in turn, and the connections that it has started are
spread evenly over them, up to the accepts that have failed. -/
structure Balanced (n failed : ℕ) (s : State) (actions : List Action) : Prop where
  /-- The size of the pool does not change. -/
  size_eq : s.ioContextPool.size = n
  /-- Every index is an index of `io_contexts_`. -/
  drawn_lt : ∀ index ∈ drawn actions, index < s.ioContextPool.size
  /-- The contexts are taken in turn. -/
  drawn_eq : ∀ k index, (drawn actions)[k]? = some index → index = k % n
  /-- No context is preferred. -/
  started_le : ∀ c d, c < n → d < n →
    (started actions).count c ≤ (started actions).count d + (1 + failed)

/-- What the server has done after some accepts. -/
structure History (n : ℕ) (completions : List ErrorCode) (actions : List Action) : Prop where
  /-- The first three contexts are those of the constructor. -/
  drawn_eq : drawn actions = positions n 0 (completions.length + 3)
  /-- Each context after the first two was used for a connection, or its accept has failed. -/
  started_perm : ∃ unused, unused.length = failures completions ∧
    (started actions ++ unused).Perm (positions n 2 completions.length)

/-- What the constructor has done. -/
lemma history_construct (n : ℕ) : History n [] ((positions n 0 3).map .getIoContext) := by
  refine ⟨?_, [], rfl, ?_⟩
  · simp [drawn, List.filterMap_map, Function.comp_def, Action.drawn?]
  · simp [started, List.filterMap_map, Function.comp_def, Action.started?, positions]

/-- One accept more. -/
lemma History.accept {n : ℕ} {completions : List ErrorCode} {actions : List Action}
    (h : History n completions actions) (ec : ErrorCode) :
    History n (completions ++ [ec]) (actions ++ acceptActions n completions.length ec) := by
  obtain ⟨hdrawn, unused, hunused, hperm⟩ := h
  have hdrawn' : drawn (acceptActions n completions.length ec) =
      [(completions.length + 3) % n] := by
    unfold acceptActions drawn
    split_ifs <;> rfl
  have hlength : (completions ++ [ec]).length = completions.length + 1 := List.length_append
  refine ⟨?_, ?_⟩
  · rw [drawn, List.filterMap_append, ← drawn, ← drawn, hdrawn, hdrawn', hlength,
      Nat.add_right_comm, positions_succ n 0 (completions.length + 3), Nat.zero_add]
  · rw [hlength, positions_succ]
    by_cases hec : ec = .success
    · -- the context is used for a connection
      refine ⟨unused, ?_, ?_⟩
      · rw [hunused, failures, failures, List.countP_append, hec]
        rfl
      · have hstarted : started (acceptActions n completions.length ec) =
            [(2 + completions.length) % n] := by
          rw [acceptActions, if_pos hec]
          rfl
        rw [started, List.filterMap_append, ← started, ← started, hstarted, List.append_assoc]
        refine List.Perm.trans ?_ (hperm.append_right _)
        rw [List.append_assoc]
        exact List.perm_append_comm.append_left _
    · -- the context is lost
      refine ⟨unused ++ [(2 + completions.length) % n], ?_, ?_⟩
      · rw [List.length_append, hunused, failures, failures, List.countP_append,
          List.countP_singleton, if_pos (decide_eq_true hec)]
        rfl
      · have hstarted : started (acceptActions n completions.length ec) = [] := by
          rw [acceptActions, if_neg hec]
          rfl
        rw [started, List.filterMap_append, ← started, ← started, hstarted, List.append_nil,
          ← List.append_assoc]
        exact hperm.append_right _

/-- The run of the server over any accepts. -/
lemma exists_run {n : ℕ} (hn : 0 < n) (completions : List ErrorCode) :
    ∃ out, Machine.run handleAccept (serverAfter n 0) completions =
        some (serverAfter n completions.length, out) ∧
      History n completions ((positions n 0 3).map .getIoContext ++ out) := by
  induction completions using List.reverseRecOn with
  | nil => exact ⟨[], rfl, by simpa using history_construct n⟩
  | append_singleton completions ec ih =>
    obtain ⟨out, hrun, hhistory⟩ := ih
    refine ⟨out ++ acceptActions n completions.length ec, ?_, ?_⟩
    · rw [List.length_append]
      exact Machine.run_concat_iff.mpr
        ⟨_, _, _, hrun, handleAccept_serverAfter hn completions.length ec, rfl⟩
    · rw [← List.append_assoc]
      exact hhistory.accept ec

/-- **Round robin.**  With at least one context, the server is constructed; and after any accepts,
each of which has succeeded or failed, it has taken the contexts in turn and spread the connections
evenly over them, up to the number of accepts that have failed. -/
theorem balanced_run {n : ℕ} (hn : 1 ≤ n) (completions : List ErrorCode) :
    ∃ s out s' out', construct n = .ok (s, out) ∧
      Machine.run handleAccept s completions = some (s', out') ∧
      Balanced n (failures completions) s' (out ++ out') := by
  obtain ⟨out, hrun, hdrawn, unused, hunused, hperm⟩ := exists_run hn completions
  refine ⟨_, _, _, out, construct_eq hn, hrun, rfl, ?_, ?_, ?_⟩
  · intro index hmem
    rw [hdrawn] at hmem
    exact lt_of_mem_positions hn hmem
  · intro k index hget
    rw [hdrawn] at hget
    obtain ⟨hk, rfl⟩ := List.getElem?_eq_some_iff.mp hget
    simp [positions]
  · intro c d hc hd
    have hle := count_le_of_perm hn hperm hc hd
    omega

/-- Two accepts, the first of which fails: the only connection is started on the second of the two
contexts. -/
theorem balanced_run_two :
    ∃ s out s' out', construct 2 = .ok (s, out) ∧
      Machine.run handleAccept s [.other, .success] = some (s', out') ∧
      Balanced 2 (failures [.other, .success]) s' (out ++ out') :=
  balanced_run (by decide) [.other, .success]

end Server2

end Http

end AsioStudy
