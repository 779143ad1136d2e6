import AsioStudy.Asio.StrandSerial

/-!
# No operation is forgotten

The threads that run the context only take invokers from its queue and go on with what they execute.
The file proves that they finish: `weight` bounds the number of steps that they can make without new
calls of the service, and when none of them can make a step, everything that the strands have
accepted has been executed (`finished_of_stuck`).  Hence no operation is left in the
`waiting_queue_` of a strand that nobody is going to schedule.
-/

namespace AsioStudy

namespace Strand

open SerialQueue (Code submitted begun)

variable {Θ ι α ρ β : Type*}

/-! ## The weight of a state -/

/-- A bound on the steps that are left for a function, without what it leaves in the queues. -/
def Frame.weight (c : Code α ρ β) : Frame ι α ρ → ℕ
  | .enqueue _ op _ => c.rank (c.enter op) + 12
  | .push _ op _ => c.rank (c.enter op) + 11
  | .execute _ _ => 4
  | .invoker _ none => 2
  | .invoker _ (some r) => c.rank r + 7
  -- after an exception the operations that are ready have to be scheduled again
  | .onInvokerExit _ unwinding => if unwinding then 6 else 1
  | .immediate _ r => c.rank r + 1

/-- A bound on the steps that are left for the operations of a strand. -/
def Impl.weight (c : Code α ρ β) (impl : Impl α) : ℕ :=
  (impl.readyQueue.map fun op => c.rank (c.enter op) + 6).sum +
    (impl.waitingQueue.map fun op => c.rank (c.enter op) + 11).sum

/-- A bound on the steps that are left for a stack. -/
def stackWeight (c : Code α ρ β) (stack : List (Frame ι α ρ)) : ℕ :=
  (stack.map (Frame.weight c)).sum

/-- A bound on the steps that are left for a strand and its queued invokers. -/
def strandWeight (c : Code α ρ β) (impl : Impl α) (queued : ℕ) : ℕ := impl.weight c + 3 * queued

/-- A bound on the steps that are left. -/
def State.weight [Fintype Θ] [Fintype ι] (c : Code α ρ β) (s : State Θ ι α ρ β) : ℕ :=
  ∑ θ, stackWeight c (s.stack θ) + ∑ i, strandWeight c (s.impl i) (s.queued i)

/-- The weight of two parts of a stack. -/
lemma stackWeight_append (c : Code α ρ β) (stack tail : List (Frame ι α ρ)) :
    stackWeight c (stack ++ tail) = stackWeight c stack + stackWeight c tail := by
  rw [stackWeight, List.map_append, List.sum_append]
  rfl

/-- Operations that no longer wait have less to do. -/
lemma sum_ready_add_le (c : Code α ρ β) (ops : List α) :
    (ops.map fun op => c.rank (c.enter op) + 6).sum + 5 * ops.length ≤
      (ops.map fun op => c.rank (c.enter op) + 11).sum := by
  induction ops with
  | nil => simp
  | cons op ops ih =>
    simp only [List.map_cons, List.sum_cons, List.length_cons]
    omega

/-- A step of a thread lowers the weight of what it changes, as long as the loop of
`run_ready_handlers` is only left with an empty queue. -/
lemma Rule.weight_lt {c : Code α ρ β} {i : ι} {tail : List (Frame ι α ρ)}
    {x x' : Local ι α ρ β} {es : List (SerialQueue.Event α)} (h : Rule c i tail x x' es)
    (hempty : ∀ f ∈ x.top, f.FindsEmpty → x.impl.readyQueue = []) :
    stackWeight c x'.top + strandWeight c x'.impl x'.queued <
      stackWeight c x.top + strandWeight c x.impl x.queued := by
  cases h with
  | destroyed => simp [stackWeight, Frame.weight]
  | waiting => simp [stackWeight, strandWeight, Impl.weight, Frame.weight]; omega
  | first => simp [stackWeight, strandWeight, Impl.weight, Frame.weight]
  | push => simp [stackWeight, strandWeight, Impl.weight, Frame.weight]; omega
  | execute => simp [stackWeight, strandWeight, Frame.weight]; omega
  | inline => simp [stackWeight, Frame.weight]
  | start huser hn => simp [stackWeight, strandWeight, Frame.weight]; omega
  | begin hready => simp [stackWeight, strandWeight, Impl.weight, Frame.weight, hready]; omega
  | leave => simp [stackWeight, Frame.weight]
  | access haccess =>
    have hlt := c.rank_lt haccess
    simpa [stackWeight, strandWeight, Frame.weight] using hlt
  | finish => simp [stackWeight, Frame.weight]
  | throw => simp [stackWeight, Frame.weight]
  | @more unwinding impl n b hmore =>
    have hle := sum_ready_add_le c impl.waitingQueue
    rcases unwinding with _ | _
    · -- the queue was empty, and what has waited in the meantime pays for the next invoker
      have hready : impl.readyQueue = [] := hempty _ (List.mem_singleton_self _) trivial
      have hpos : 0 < impl.waitingQueue.length := by
        rw [hready, List.nil_append] at hmore
        exact List.length_pos_of_ne_nil hmore
      simp [stackWeight, strandWeight, Impl.weight, Frame.weight, hready]
      omega
    · simp [stackWeight, strandWeight, Impl.weight, Frame.weight]
      omega
  | @idle unwinding impl n b hidle =>
    rcases unwinding with _ | _
    · simp [stackWeight, strandWeight, Impl.weight, Frame.weight]
      omega
    · simp [stackWeight, strandWeight, Impl.weight, Frame.weight]
      omega
  | immediateAccess haccess =>
    have hlt := c.rank_lt haccess
    simpa [stackWeight, strandWeight, Frame.weight] using hlt
  | immediateFinish => simp [stackWeight, Frame.weight]
  | immediateThrow => simp [stackWeight, Frame.weight]

/-- What finds the queue of a strand empty is responsible for it. -/
lemma Rule.holds_of_findsEmpty {c : Code α ρ β} {i : ι} {tail : List (Frame ι α ρ)}
    {x x' : Local ι α ρ β} {es : List (SerialQueue.Event α)} {f : Frame ι α ρ}
    (h : Rule c i tail x x' es) (hf : f ∈ x.top) (hempty : f.FindsEmpty) :
    x.top = [f] ∧ f.Holds i := by
  cases h <;> simp_all [Frame.FindsEmpty, Frame.Holds]

/-- A sum in which one term is replaced. -/
lemma sum_add_eq_sum_add {κ : Type*} [Fintype κ] [DecidableEq κ] {f g : κ → ℕ} (k : κ)
    (h : ∀ l, l ≠ k → f l = g l) : ∑ l, f l + g k = ∑ l, g l + f k := by
  rw [Fintype.sum_eq_add_sum_compl k f, Fintype.sum_eq_add_sum_compl k g]
  have hrest : ∑ l ∈ {k}ᶜ, f l = ∑ l ∈ {k}ᶜ, g l :=
    Finset.sum_congr rfl fun l hl => h l (by simpa using hl)
  omega

section Progress

variable [DecidableEq Θ] [DecidableEq ι] [DecidableEq α] [Fintype Θ] [Fintype ι]
variable {c : Code α ρ β} {s s' : State Θ ι α ρ β} {out : List (ι × SerialQueue.Event α)}

/-- The events of the threads that run the context: they take an invoker, or go on. -/
def Event.Internal : Event Θ ι α → Prop
  | .submit _ _ _ _ | .shutdown _ => False
  | .advance _ | .inline _ | .start _ _ | .throw _ => True

omit [DecidableEq α] in
/-- The weight of a state that is put together. -/
lemma weight_put (s : State Θ ι α ρ β) {θ : Θ} {i : ι} {top tail : List (Frame ι α ρ)}
    (x : Local ι α ρ β) (hθ : s.stack θ = top ++ tail) :
    (s.put θ i tail x).weight c + (stackWeight c top + strandWeight c (s.impl i) (s.queued i)) =
      s.weight c + (stackWeight c x.top + strandWeight c x.impl x.queued) := by
  have hstacks := sum_add_eq_sum_add (f := fun φ => stackWeight c ((s.put θ i tail x).stack φ))
    (g := fun φ => stackWeight c (s.stack φ)) θ fun φ hφ => by rw [stack_put_of_ne s hφ]
  have hstrands := sum_add_eq_sum_add
    (f := fun j => strandWeight c ((s.put θ i tail x).impl j) ((s.put θ i tail x).queued j))
    (g := fun j => strandWeight c (s.impl j) (s.queued j)) i fun j hj => by
      rw [(put_of_ne s θ hj tail x).1, (put_of_ne s θ hj tail x).2.1]
  simp only [stack_put_self, put_self, hθ, stackWeight_append] at hstacks hstrands
  rw [State.weight, State.weight]
  omega

omit [DecidableEq α] in
/-- A step of a thread lowers the weight. -/
lemma weight_lt_of_internal {e : Event Θ ι α} (hserves : ∀ i, ∃ q, Serves s i q)
    (he : e.Internal) (hstep : step c s e = some (s', out)) : s'.weight c < s.weight c := by
  obtain ⟨θ, i, op, rfl, -⟩ | ⟨θ, i, blocking, op, rfl, -⟩ |
    ⟨-, -, θ, i, top, tail, x, es, hθ, hrule, rfl, -⟩ | ⟨i, rfl, -⟩ := step_cases hstep
  · exact he.elim
  · exact he.elim
  · obtain ⟨q, hq⟩ := hserves i
    have hlt := hrule.weight_lt fun f hf hempty => by
      obtain ⟨htop, hholds⟩ := hrule.holds_of_findsEmpty hf hempty
      have hθ' : s.stack θ = f :: tail := by
        rw [hθ, show top = [f] from htop]
        rfl
      exact (hq.top_holds hθ' hholds).2.2.2.2.1 hempty
    have hput := weight_put (c := c) (i := i) s x hθ
    simp only at hlt
    omega
  · exact he.elim

omit [DecidableEq α] [Fintype Θ] [Fintype ι] in
/-- A thread that executes something can go on. -/
lemma stack_eq_nil_of_stuck {θ : Θ} (h : advance c s θ = none) : s.stack θ = [] := by
  unfold advance at h
  split at h
  · assumption
  all_goals
    repeat' split at h
    all_goals cases h

/-- The threads make at most `weight` steps. -/
lemma length_add_weight_le {object : ι → β} {es fs : List (Event Θ ι α)}
    {out' : List (ι × SerialQueue.Event α)}
    (hrun : Machine.run (step c) (State.init object) es = some (s, out))
    (hfs : ∀ e ∈ fs, e.Internal) (hrun' : Machine.run (step c) s fs = some (s', out')) :
    fs.length + s'.weight c ≤ s.weight c := by
  have hhistory := Machine.run_history
    (I := fun t gs _ => (∀ e ∈ gs, e.Internal) → gs.length + t.weight c ≤ s.weight c ∧
      Machine.Reachable (step c) (State.init object) t) hrun'
    (fun _ => ⟨by simp, es, out, hrun⟩) ?_ hfs
  · exact hhistory.1
  intro t t' e gs _ o ih hstep hgs
  obtain ⟨hgs', he⟩ := List.forall_mem_append.mp hgs
  obtain ⟨hle, hreach⟩ := ih hgs'
  obtain ⟨hs, outs, hreach'⟩ := id hreach
  have hserves : ∀ i, ∃ q, Serves t i q := fun i =>
    (exists_serves_run hreach' i).imp fun q hq => hq.2.1
  have hlt := weight_lt_of_internal hserves (he e (List.mem_singleton_self e)) hstep
  refine ⟨?_, hreach.run ((Machine.run_singleton t e).trans hstep)⟩
  rw [List.length_append, List.length_singleton]
  omega

/-- **Progress.**  After any run, the threads of the context can make at most `weight` steps without
new calls of the service, in whatever order; and when no step is left, no thread executes anything,
no invoker is queued, and every operation that a strand has accepted has been executed, in the order
in which it was accepted, unless the strand was shut down. -/
theorem finished_of_stuck [Nonempty Θ] {object : ι → β} {es fs : List (Event Θ ι α)}
    {out' : List (ι × SerialQueue.Event α)}
    (hrun : Machine.run (step c) (State.init object) es = some (s, out))
    (hfs : ∀ e ∈ fs, e.Internal) (hrun' : Machine.run (step c) s fs = some (s', out')) :
    fs.length + s'.weight c ≤ s.weight c ∧
      ((∀ e : Event Θ ι α, e.Internal → step c s' e = none) →
        (∀ θ, s'.stack θ = []) ∧ ∀ i, s'.queued i = 0 ∧
          (.shutdown i ∉ es → begun (log i (out ++ out')) = submitted (log i (out ++ out')))) := by
  refine ⟨length_add_weight_le hrun hfs hrun', fun hstuck => ?_⟩
  have hstack : ∀ θ, s'.stack θ = [] := fun θ =>
    stack_eq_nil_of_stuck (hstuck (.advance θ) trivial)
  refine ⟨hstack, fun i => ?_⟩
  obtain ⟨θ⟩ := ‹Nonempty Θ›
  have hqueued : s'.queued i = 0 := by
    have hstart := hstuck (.start θ i) trivial
    simp only [step, hstack θ, InUserCode, true_and, ite_eq_right_iff] at hstart
    by_contra hpos
    exact absurd (hstart (Nat.pos_of_ne_zero hpos)) (by simp)
  have hall : Machine.run (step c) (State.init object) (es ++ fs) = some (s', out ++ out') :=
    Machine.run_append_iff.mpr ⟨s, out, out', hrun, hrun', rfl⟩
  refine ⟨hqueued, fun hshutdown => ?_⟩
  have hshutdown' : .shutdown i ∉ es ++ fs := by
    rw [List.mem_append, not_or]
    exact ⟨hshutdown, fun hmem => hfs _ hmem⟩
  -- a strand that somebody holds has a queued invoker or a frame on some stack
  obtain ⟨q, hq, hserves, -⟩ := exists_serves_run hall i
  have heq := SerialQueue.begun_append_queue_eq hq (clear_notMem_log hall hshutdown')
  rcases hserves with ⟨-, -, -, -, -, hqueue, -⟩ | ⟨-, hqueued', -⟩ |
    ⟨φ, above, f, below, -, -, -, hframes, -⟩
  · rw [← heq, hqueue, List.append_nil]
  · omega
  · rw [hstack φ] at hframes
    simp at hframes

/-- Two threads have posted to one strand, and have executed both handlers when they stop. -/
theorem finished_of_stuck_twoPosts :
    ∃ s out s' out',
      Machine.run (step increment) (State.init fun _ => 0) (twoPosts.take 2) = some (s, out) ∧
      Machine.run (step increment) s (twoPosts.drop 2) = some (s', out') ∧
      ((twoPosts.drop 2).length + s'.weight increment ≤ s.weight increment ∧
        ((∀ e : Event (Fin 2) Unit Unit, e.Internal → step increment s' e = none) →
          (∀ θ, s'.stack θ = []) ∧ ∀ i, s'.queued i = 0 ∧
            (.shutdown i ∉ twoPosts.take 2 →
              begun (log i (out ++ out')) = submitted (log i (out ++ out'))))) := by
  obtain ⟨⟨s', out''⟩, hrun⟩ := Option.isSome_iff_exists.mp
    (show (Machine.run (step increment) (State.init fun _ => 0)
      (twoPosts.take 2 ++ twoPosts.drop 2)).isSome from rfl)
  obtain ⟨s, out, out', hrun₁, hrun₂, -⟩ := Machine.run_append_iff.mp hrun
  refine ⟨s, out, s', out', hrun₁, hrun₂, finished_of_stuck hrun₁ ?_ hrun₂⟩
  simp [twoPosts, Event.Internal]

end Progress

/-! ## Calls that have not been accepted yet -/

section Calls

variable [DecidableEq Θ] [DecidableEq ι] [DecidableEq α] [Fintype Θ]
variable {c : Code α ρ β} {s s' : State Θ ι α ρ β} {out : List (ι × SerialQueue.Event α)}

/-- The operation with which the function is about to enter the strand. -/
def Frame.call? (i : ι) : Frame ι α ρ → Option α
  | .enqueue j op _ => if j = i then some op else none
  | _ => none

/-- How many calls of `enqueue` with the operation have not got the mutex of the strand. -/
def State.calls (s : State Θ ι α ρ β) (i : ι) (op : α) : ℕ :=
  ∑ θ, ((s.stack θ).filterMap (Frame.call? i)).count op

omit [DecidableEq ι] [DecidableEq α] in
/-- A step of a thread does not shut a strand down. -/
lemma Rule.shutdown_eq {i : ι} {tail : List (Frame ι α ρ)} {x x' : Local ι α ρ β}
    {es : List (SerialQueue.Event α)} (h : Rule c i tail x x' es) :
    x'.impl.shutdown = x.impl.shutdown := by
  cases h <;> rfl

/-- A step of a thread makes the operation of a call an operation of the strand. -/
lemma Rule.count_call {i : ι} {tail : List (Frame ι α ρ)} {x x' : Local ι α ρ β}
    {es : List (SerialQueue.Event α)} (h : Rule c i tail x x' es)
    (hshutdown : x.impl.shutdown = false) (op : α) :
    (x'.top.filterMap (Frame.call? i)).count op + (submitted es).count op =
      (x.top.filterMap (Frame.call? i)).count op := by
  cases h <;> simp_all [Frame.call?, List.filterMap_cons, SerialQueue.Event.submitted?]

omit [DecidableEq α] in
/-- A step of a thread in another strand. -/
lemma Rule.call_eq_nil {i j : ι} {tail : List (Frame ι α ρ)} {x x' : Local ι α ρ β}
    {es : List (SerialQueue.Event α)} (h : Rule c j tail x x' es) (hij : j ≠ i) :
    x'.top.filterMap (Frame.call? i) = x.top.filterMap (Frame.call? i) := by
  cases h <;> simp_all [Frame.call?, List.filterMap_cons]

/-- **Conservation.**  A step of a thread neither loses nor invents a call. -/
lemma calls_acts {θ : Θ} {j : ι} (h : Acts c s s' out θ j) {i : ι}
    (hshutdown : (s.impl i).shutdown = false) (op : α) :
    s'.calls i op + (submitted (log i out)).count op = s.calls i op := by
  obtain ⟨top, tail, x, es, hθ, hrule, rfl, rfl⟩ := h
  have hsum := sum_add_eq_sum_add
    (f := fun φ => (((s.put θ j tail x).stack φ).filterMap (Frame.call? i)).count op)
    (g := fun φ => ((s.stack φ).filterMap (Frame.call? i)).count op) θ
    fun φ hφ => by rw [stack_put_of_ne s hφ]
  simp only [stack_put_self, hθ, List.filterMap_append, List.count_append] at hsum
  rw [State.calls, State.calls]
  by_cases hij : j = i
  · subst hij
    have hcount := hrule.count_call hshutdown op
    simp only at hcount
    rw [log_map_self]
    omega
  · have hnil := hrule.call_eq_nil hij
    simp only at hnil
    rw [log_map_of_ne hij]
    rw [hnil] at hsum
    simp only [submitted, List.filterMap_nil, List.count_nil]
    omega

/-- The code of the user makes a call. -/
lemma calls_submit (s : State Θ ι α ρ β) (θ : Θ) (i j : ι) (blocking : Blocking) (op op' : α) :
    (s.setStack θ (.enqueue j op' blocking :: s.stack θ)).calls i op =
      s.calls i op + if j = i ∧ op' = op then 1 else 0 := by
  have hsum := sum_add_eq_sum_add
    (f := fun φ => (((s.setStack θ (.enqueue j op' blocking :: s.stack θ)).stack φ).filterMap
      (Frame.call? i)).count op)
    (g := fun φ => ((s.stack φ).filterMap (Frame.call? i)).count op) θ
    fun φ hφ => by simp [State.setStack, hφ]
  have hθ : (((s.setStack θ (.enqueue j op' blocking :: s.stack θ)).stack θ).filterMap
      (Frame.call? i)).count op = ((s.stack θ).filterMap (Frame.call? i)).count op +
        if j = i ∧ op' = op then 1 else 0 := by
    by_cases hij : j = i
    · simp [State.setStack, Frame.call?, hij, List.count_cons]
    · simp [State.setStack, Frame.call?, hij]
  rw [State.calls, State.calls]
  omega

end Calls

end Strand

end AsioStudy
