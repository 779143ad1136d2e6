import AsioStudy.Foundation.Machine
import AsioStudy.Foundation.SerialQueue

/-!
# Strands

The strands of Asio (`strand_executor_service`) on a context that several threads run.  A thread has
a stack of the functions of the service and of the handlers that it executes, the innermost first.
Between two steps of one thread the others can make any number of steps; a step is what happens
under the mutex of a strand, an access to its `ready_queue_`, which no mutex protects, or an access
of a handler to the object that the strand protects.

The main result is `serial_run`: what happens to each strand is what happens to a queue that is
served by a single worker.  It gives mutual exclusion (`inside_subsingleton`), the order of the
handlers (`begun_prefix_submitted`), and their effect as a whole (`object_eq_foldl`).
-/

namespace AsioStudy

namespace Strand

open SerialQueue (Code)

/-! ## The service -/

/-- `strand_impl`. -/
structure Impl (α : Type*) where
  /-- `locked_`: some function is responsible for the strand. -/
  locked : Bool
  /-- `shutdown_`. -/
  shutdown : Bool
  /-- `waiting_queue_`, protected by the mutex. -/
  waitingQueue : List α
  /-- `ready_queue_`, accessed only within the strand. -/
  readyQueue : List α
  deriving DecidableEq, Repr

/-- `create_implementation`. -/
def createImplementation {α : Type*} : Impl α := ⟨false, false, [], []⟩

/-- What `enqueue` has done with an operation when it releases the mutex. -/
inductive Enqueued where
  /-- The operation is destroyed. -/
  | destroyed
  /-- Some other function holds the strand: the operation waits. -/
  | waiting
  /-- The function has acquired the strand: it pushes the operation and schedules the strand. -/
  | first
  deriving DecidableEq, Repr

section Impl

variable {α : Type*}

/-- `enqueue` as far as it holds the mutex. -/
def Impl.enqueue (impl : Impl α) (op : α) : Impl α × Enqueued :=
  if impl.shutdown then (impl, .destroyed)
  else if impl.locked then
    ({ impl with waitingQueue := impl.waitingQueue ++ [op] }, .waiting)
  else ({ impl with locked := true }, .first)

/-- `push_waiting_to_ready`, with the returned value. -/
def Impl.pushWaitingToReady (impl : Impl α) : Impl α × Bool :=
  let readyQueue := impl.readyQueue ++ impl.waitingQueue
  let moreHandlers := !readyQueue.isEmpty
  ({ impl with readyQueue := readyQueue, waitingQueue := [], locked := moreHandlers },
    moreHandlers)

/-- The body of the loop of `shutdown`: the operations of both queues are destroyed. -/
def Impl.shutDown (impl : Impl α) : Impl α :=
  { impl with shutdown := true, waitingQueue := [], readyQueue := [] }

end Impl

/-! ## Threads -/

/-- The property `execution::blocking` of an executor, as far as the service looks at it.  `execute`
of a strand and `dispatch` use `possibly`, `post` and `defer` use `never`. -/
inductive Blocking where
  | possibly
  | never
  deriving DecidableEq, Repr

/-- A function that a thread executes.  A handler is given by its local state. -/
inductive Frame (ι α ρ : Type*) where
  /-- `enqueue` has been called and does not have the mutex yet. -/
  | enqueue (i : ι) (op : α) (blocking : Blocking)
  /-- `enqueue` has released the mutex after it has acquired the strand, and is to push the
  operation onto `ready_queue_`. -/
  | push (i : ι) (op : α) (blocking : Blocking)
  /-- An `invoker` is to be given to the executor of the strand. -/
  | execute (i : ι) (blocking : Blocking)
  /-- `invoker::operator()` in `run_ready_handlers`: at the head of the loop, or in a handler. -/
  | invoker (i : ι) (handler : Option ρ)
  /-- The destructor of `on_invoker_exit`, possibly when an exception is unwinding the stack. -/
  | onInvokerExit (i : ι) (unwinding : Bool)
  /-- A function that runs immediately, since its thread is in the strand. -/
  | immediate (i : ι) (handler : ρ)
  deriving DecidableEq, Repr

section Threads

variable {ι α ρ : Type*}

/-- The code of the user is running: a handler, or what called the service from outside. -/
def InUserCode : List (Frame ι α ρ) → Prop
  | [] | .invoker _ (some _) :: _ | .immediate _ _ :: _ => True
  | _ => False

instance : DecidablePred (@InUserCode ι α ρ)
  | [] | .invoker _ (some _) :: _ | .immediate _ _ :: _ => .isTrue trivial
  | .enqueue _ _ _ :: _ | .push _ _ _ :: _ | .execute _ _ :: _ | .invoker _ none :: _
  | .onInvokerExit _ _ :: _ => .isFalse id

/-- `running_in_this_thread`: the strand is on the `call_stack` of the thread, where
`run_ready_handlers` has put it. -/
def runningInThisThread [DecidableEq ι] (i : ι) (stack : List (Frame ι α ρ)) : Bool :=
  stack.any fun f =>
    match f with
    | .invoker j _ => decide (j = i)
    | _ => false

end Threads

/-- The strands with the objects that they protect, the invokers that wait in the queue of the
context, and the threads. -/
structure State (Θ ι α ρ β : Type*) where
  /-- The strands. -/
  impl : ι → Impl α
  /-- How many invokers of a strand the context has queued. -/
  queued : ι → ℕ
  /-- What each thread executes. -/
  stack : Θ → List (Frame ι α ρ)
  /-- What the handlers of a strand work on. -/
  object : ι → β

/-- What can happen. -/
inductive Event (Θ ι α : Type*) where
  /-- The code of the user calls `execute`, `dispatch`, `post` or `defer` of a strand. -/
  | submit (θ : Θ) (i : ι) (blocking : Blocking) (op : α)
  /-- A thread goes on with what it executes. -/
  | advance (θ : Θ)
  /-- The executor runs the invoker that it is given, instead of queueing it. -/
  | inline (θ : Θ)
  /-- A thread takes an invoker from the queue of the context. -/
  | start (θ : Θ) (i : ι)
  /-- The handler that a thread executes exits by an exception. -/
  | throw (θ : Θ)
  /-- The loop of `shutdown` reaches a strand, when no thread runs the context any more. -/
  | shutdown (i : ι)
  deriving DecidableEq, Repr

section Transition

variable {Θ ι α ρ β : Type*} [DecidableEq Θ] [DecidableEq ι]

/-- The thread `θ` replaces its stack. -/
def State.setStack (s : State Θ ι α ρ β) (θ : Θ) (stack : List (Frame ι α ρ)) : State Θ ι α ρ β :=
  { s with stack := Function.update s.stack θ stack }

/-- A strand is changed. -/
def State.setImpl (s : State Θ ι α ρ β) (i : ι) (impl : Impl α) : State Θ ι α ρ β :=
  { s with impl := Function.update s.impl i impl }

/-- The number of queued invokers is changed. -/
def State.setQueued (s : State Θ ι α ρ β) (i : ι) (n : ℕ) : State Θ ι α ρ β :=
  { s with queued := Function.update s.queued i n }

/-- An object is changed. -/
def State.setObject (s : State Θ ι α ρ β) (i : ι) (b : β) : State Θ ι α ρ β :=
  { s with object := Function.update s.object i b }

/-- `do_execute`, `dispatch`, `post` and `defer` up to the call of `enqueue`. -/
def submit (c : Code α ρ β) (s : State Θ ι α ρ β) (θ : Θ) (i : ι) (blocking : Blocking) (op : α) :
    State Θ ι α ρ β × List (ι × SerialQueue.Event α) :=
  if blocking = .possibly ∧ runningInThisThread i (s.stack θ) = true then
    (s.setStack θ (.immediate i (c.enter op) :: s.stack θ), [(i, .call op)])
  else (s.setStack θ (.enqueue i op blocking :: s.stack θ), [])

/-- The next step of a thread in the function that it executes. -/
def advance (c : Code α ρ β) (s : State Θ ι α ρ β) (θ : Θ) :
    Option (State Θ ι α ρ β × List (ι × SerialQueue.Event α)) :=
  match s.stack θ with
  | [] => none
  | .enqueue i op blocking :: stack =>
    match (s.impl i).enqueue op with
    | (_, .destroyed) => some (s.setStack θ stack, [])
    | (impl, .waiting) => some ((s.setImpl i impl).setStack θ stack, [(i, .submit op)])
    | (impl, .first) =>
      some ((s.setImpl i impl).setStack θ (.push i op blocking :: stack), [(i, .submit op)])
  | .push i op blocking :: stack =>
    let impl := { s.impl i with readyQueue := (s.impl i).readyQueue ++ [op] }
    some ((s.setImpl i impl).setStack θ (.execute i blocking :: stack), [])
  | .execute i _ :: stack => some ((s.setQueued i (s.queued i + 1)).setStack θ stack, [])
  | .invoker i none :: stack =>
    match (s.impl i).readyQueue with
    | [] => some (s.setStack θ (.onInvokerExit i false :: stack), [])
    | op :: readyQueue =>
      some ((s.setImpl i { s.impl i with readyQueue := readyQueue }).setStack θ
        (.invoker i (some (c.enter op)) :: stack), [(i, .begin op)])
  | .invoker i (some r) :: stack =>
    match c.access r (s.object i) with
    | none => some (s.setStack θ (.invoker i none :: stack), [(i, .finish)])
    | some (r', b) =>
      some ((s.setObject i b).setStack θ (.invoker i (some r') :: stack), [(i, .access)])
  | .onInvokerExit i _ :: stack =>
    match (s.impl i).pushWaitingToReady with
    | (impl, true) => some ((s.setImpl i impl).setStack θ (.execute i .never :: stack), [])
    | (impl, false) => some ((s.setImpl i impl).setStack θ stack, [])
  | .immediate i r :: stack =>
    match c.access r (s.object i) with
    | none => some (s.setStack θ stack, [(i, .finish)])
    | some (r', b) =>
      some ((s.setObject i b).setStack θ (.immediate i r' :: stack), [(i, .access)])

/-- One event, with what it does to which strand. -/
def step [Fintype Θ] (c : Code α ρ β) (s : State Θ ι α ρ β) :
    Event Θ ι α → Option (State Θ ι α ρ β × List (ι × SerialQueue.Event α))
  | .submit θ i blocking op =>
    if InUserCode (s.stack θ) then some (submit c s θ i blocking op) else none
  | .advance θ => advance c s θ
  | .inline θ =>
    match s.stack θ with
    | .execute i .possibly :: stack => some (s.setStack θ (.invoker i none :: stack), [])
    | _ => none
  | .start θ i =>
    if InUserCode (s.stack θ) ∧ 0 < s.queued i then
      some ((s.setQueued i (s.queued i - 1)).setStack θ (.invoker i none :: s.stack θ), [])
    else none
  | .throw θ =>
    match s.stack θ with
    | .invoker i (some _) :: stack =>
      some (s.setStack θ (.onInvokerExit i true :: stack), [(i, .abandon)])
    | .immediate i _ :: stack => some (s.setStack θ stack, [(i, .abandon)])
    | _ => none
  | .shutdown i =>
    if ∀ θ, (s.stack θ).isEmpty = true then
      some (s.setImpl i (s.impl i).shutDown, [(i, .clear)])
    else none

/-- New strands, which protect the given objects. -/
def State.init (object : ι → β) : State Θ ι α ρ β :=
  ⟨fun _ => createImplementation, fun _ => 0, fun _ => [], object⟩

/-! ## One step -/

/-- What a step of one thread in one strand reads and writes: the top of its stack, the strand, the
number of its queued invokers, and its object. -/
structure Local (ι α ρ β : Type*) where
  /-- The frames that the step replaces. -/
  top : List (Frame ι α ρ)
  /-- The strand. -/
  impl : Impl α
  /-- The number of queued invokers. -/
  queued : ℕ
  /-- The object of the strand. -/
  object : β

/-- The state in which the thread `θ` and the strand `i` are as given; `tail` is the part of the
stack that does not change. -/
def State.put (s : State Θ ι α ρ β) (θ : Θ) (i : ι) (tail : List (Frame ι α ρ))
    (x : Local ι α ρ β) : State Θ ι α ρ β where
  impl := Function.update s.impl i x.impl
  queued := Function.update s.queued i x.queued
  stack := Function.update s.stack θ (x.top ++ tail)
  object := Function.update s.object i x.object

/-- The steps of the threads other than calls by the code of the user. -/
inductive Rule (c : Code α ρ β) (i : ι) (tail : List (Frame ι α ρ)) :
    Local ι α ρ β → Local ι α ρ β → List (SerialQueue.Event α) → Prop where
  | destroyed {op blocking impl n b} (h : impl.shutdown = true) :
      Rule c i tail ⟨[.enqueue i op blocking], impl, n, b⟩ ⟨[], impl, n, b⟩ []
  | waiting {op blocking impl n b} (h : impl.locked = true) :
      Rule c i tail ⟨[.enqueue i op blocking], impl, n, b⟩
        ⟨[], { impl with waitingQueue := impl.waitingQueue ++ [op] }, n, b⟩ [.submit op]
  | first {op blocking impl n b} (h : impl.locked = false) :
      Rule c i tail ⟨[.enqueue i op blocking], impl, n, b⟩
        ⟨[.push i op blocking], { impl with locked := true }, n, b⟩ [.submit op]
  | push {op blocking impl n b} :
      Rule c i tail ⟨[.push i op blocking], impl, n, b⟩
        ⟨[.execute i blocking], { impl with readyQueue := impl.readyQueue ++ [op] }, n, b⟩ []
  | execute {blocking impl n b} :
      Rule c i tail ⟨[.execute i blocking], impl, n, b⟩ ⟨[], impl, n + 1, b⟩ []
  | inline {blocking impl n b} :
      Rule c i tail ⟨[.execute i blocking], impl, n, b⟩ ⟨[.invoker i none], impl, n, b⟩ []
  | start {impl n b} (h : InUserCode tail) (hn : 0 < n) :
      Rule c i tail ⟨[], impl, n, b⟩ ⟨[.invoker i none], impl, n - 1, b⟩ []
  | begin {op readyQueue impl n b} (h : impl.readyQueue = op :: readyQueue) :
      Rule c i tail ⟨[.invoker i none], impl, n, b⟩
        ⟨[.invoker i (some (c.enter op))], { impl with readyQueue := readyQueue }, n, b⟩
        [.begin op]
  | leave {impl n b} (h : impl.readyQueue = []) :
      Rule c i tail ⟨[.invoker i none], impl, n, b⟩ ⟨[.onInvokerExit i false], impl, n, b⟩ []
  | access {r r' impl n b b'} (h : c.access r b = some (r', b')) :
      Rule c i tail ⟨[.invoker i (some r)], impl, n, b⟩ ⟨[.invoker i (some r')], impl, n, b'⟩
        [.access]
  | finish {r impl n b} (h : c.access r b = none) :
      Rule c i tail ⟨[.invoker i (some r)], impl, n, b⟩ ⟨[.invoker i none], impl, n, b⟩ [.finish]
  | throw {r impl n b} :
      Rule c i tail ⟨[.invoker i (some r)], impl, n, b⟩ ⟨[.onInvokerExit i true], impl, n, b⟩
        [.abandon]
  | more {unwinding impl n b} (h : impl.readyQueue ++ impl.waitingQueue ≠ []) :
      Rule c i tail ⟨[.onInvokerExit i unwinding], impl, n, b⟩
        ⟨[.execute i .never], { impl with
          readyQueue := impl.readyQueue ++ impl.waitingQueue, waitingQueue := [],
          locked := true }, n, b⟩ []
  | idle {unwinding impl n b} (h : impl.readyQueue ++ impl.waitingQueue = []) :
      Rule c i tail ⟨[.onInvokerExit i unwinding], impl, n, b⟩
        ⟨[], { impl with readyQueue := [], waitingQueue := [], locked := false }, n, b⟩ []
  | immediateAccess {r r' impl n b b'} (h : c.access r b = some (r', b')) :
      Rule c i tail ⟨[.immediate i r], impl, n, b⟩ ⟨[.immediate i r'], impl, n, b'⟩ [.access]
  | immediateFinish {r impl n b} (h : c.access r b = none) :
      Rule c i tail ⟨[.immediate i r], impl, n, b⟩ ⟨[], impl, n, b⟩ [.finish]
  | immediateThrow {r impl n b} :
      Rule c i tail ⟨[.immediate i r], impl, n, b⟩ ⟨[], impl, n, b⟩ [.abandon]

/-- A step of the thread `θ` in the strand `i`. -/
def Acts (c : Code α ρ β) (s s' : State Θ ι α ρ β) (out : List (ι × SerialQueue.Event α)) (θ : Θ)
    (i : ι) : Prop :=
  ∃ top tail x es, s.stack θ = top ++ tail ∧
    Rule c i tail ⟨top, s.impl i, s.queued i, s.object i⟩ x es ∧
    s' = s.put θ i tail x ∧ out = es.map fun e => (i, e)

/-- A state in which nothing is changed but a stack. -/
lemma put_stack (s : State Θ ι α ρ β) (θ : Θ) (i : ι) (top tail : List (Frame ι α ρ)) :
    s.put θ i tail ⟨top, s.impl i, s.queued i, s.object i⟩ = s.setStack θ (top ++ tail) := by
  simp [State.put, State.setStack]

/-- A state in which a stack and a strand are changed. -/
lemma put_impl (s : State Θ ι α ρ β) (θ : Θ) (i : ι) (top tail : List (Frame ι α ρ))
    (impl : Impl α) :
    s.put θ i tail ⟨top, impl, s.queued i, s.object i⟩ =
      (s.setImpl i impl).setStack θ (top ++ tail) := by
  simp [State.put, State.setStack, State.setImpl]

/-- A state in which a stack and the number of queued invokers are changed. -/
lemma put_queued (s : State Θ ι α ρ β) (θ : Θ) (i : ι) (top tail : List (Frame ι α ρ)) (n : ℕ) :
    s.put θ i tail ⟨top, s.impl i, n, s.object i⟩ =
      (s.setQueued i n).setStack θ (top ++ tail) := by
  simp [State.put, State.setStack, State.setQueued]

/-- A state in which a stack and an object are changed. -/
lemma put_object (s : State Θ ι α ρ β) (θ : Θ) (i : ι) (top tail : List (Frame ι α ρ)) (b : β) :
    s.put θ i tail ⟨top, s.impl i, s.queued i, b⟩ =
      (s.setObject i b).setStack θ (top ++ tail) := by
  simp [State.put, State.setStack, State.setObject]

/-- What `enqueue` does while it holds the mutex. -/
lemma enqueue_cases (impl : Impl α) (op : α) :
    (impl.shutdown = true ∧ impl.enqueue op = (impl, .destroyed)) ∨
    (impl.locked = true ∧ impl.enqueue op =
      ({ impl with waitingQueue := impl.waitingQueue ++ [op] }, .waiting)) ∨
    (impl.locked = false ∧ impl.enqueue op = ({ impl with locked := true }, .first)) := by
  unfold Impl.enqueue
  by_cases hshutdown : impl.shutdown = true
  · exact Or.inl ⟨hshutdown, by rw [if_pos hshutdown]⟩
  · rw [if_neg hshutdown]
    by_cases hlocked : impl.locked = true
    · exact Or.inr (Or.inl ⟨hlocked, by rw [if_pos hlocked]⟩)
    · exact Or.inr (Or.inr ⟨by simpa using hlocked, by rw [if_neg hlocked]⟩)

/-- What `push_waiting_to_ready` does. -/
lemma pushWaitingToReady_cases (impl : Impl α) :
    (impl.readyQueue ++ impl.waitingQueue ≠ [] ∧ impl.pushWaitingToReady =
      ({ impl with
        readyQueue := impl.readyQueue ++ impl.waitingQueue, waitingQueue := [],
        locked := true }, true)) ∨
    (impl.readyQueue ++ impl.waitingQueue = [] ∧ impl.pushWaitingToReady =
      ({ impl with readyQueue := [], waitingQueue := [], locked := false }, false)) := by
  unfold Impl.pushWaitingToReady
  rcases hqueue : impl.readyQueue ++ impl.waitingQueue with _ | ⟨op, queue⟩
  · exact Or.inr ⟨rfl, rfl⟩
  · exact Or.inl ⟨by simp, rfl⟩

/-- A thread that goes on makes one of the steps. -/
lemma advance_acts {c : Code α ρ β} {s s' : State Θ ι α ρ β} {θ : Θ}
    {out : List (ι × SerialQueue.Event α)} (h : advance c s θ = some (s', out)) :
    ∃ i, Acts c s s' out θ i := by
  rcases hstack : s.stack θ with _ | ⟨f, tail⟩
  · simp [advance, hstack] at h
  rcases f with ⟨i, op, blocking⟩ | ⟨i, op, blocking⟩ | ⟨i, blocking⟩ | ⟨i, _ | r⟩ |
    ⟨i, unwinding⟩ | ⟨i, r⟩
  · -- `enqueue` gets the mutex
    obtain ⟨hcase, henqueue⟩ | ⟨hcase, henqueue⟩ | ⟨hcase, henqueue⟩ :=
      enqueue_cases (s.impl i) op
    · simp only [advance, hstack, henqueue] at h
      obtain ⟨rfl, rfl⟩ := Prod.mk.inj (Option.some.inj h)
      exact ⟨i, _, tail, _, [], hstack, .destroyed hcase, (put_stack s θ i [] tail).symm, rfl⟩
    · simp only [advance, hstack, henqueue] at h
      obtain ⟨rfl, rfl⟩ := Prod.mk.inj (Option.some.inj h)
      exact ⟨i, _, tail, _, [.submit op], hstack, .waiting hcase,
        (put_impl s θ i [] tail _).symm, rfl⟩
    · simp only [advance, hstack, henqueue] at h
      obtain ⟨rfl, rfl⟩ := Prod.mk.inj (Option.some.inj h)
      exact ⟨i, _, tail, _, [.submit op], hstack, .first hcase,
        (put_impl s θ i [.push i op blocking] tail _).symm, rfl⟩
  · simp only [advance, hstack] at h
    obtain ⟨rfl, rfl⟩ := Prod.mk.inj (Option.some.inj h)
    exact ⟨i, _, tail, _, [], hstack, .push, (put_impl s θ i [.execute i blocking] tail _).symm,
      rfl⟩
  · simp only [advance, hstack] at h
    obtain ⟨rfl, rfl⟩ := Prod.mk.inj (Option.some.inj h)
    exact ⟨i, _, tail, _, [], hstack, .execute, (put_queued s θ i [] tail _).symm, rfl⟩
  · -- the head of the loop of `run_ready_handlers`
    rcases hready : (s.impl i).readyQueue with _ | ⟨op, readyQueue⟩
    · simp only [advance, hstack, hready] at h
      obtain ⟨rfl, rfl⟩ := Prod.mk.inj (Option.some.inj h)
      exact ⟨i, _, tail, _, [], hstack, .leave hready,
        (put_stack s θ i [.onInvokerExit i false] tail).symm, rfl⟩
    · simp only [advance, hstack, hready] at h
      obtain ⟨rfl, rfl⟩ := Prod.mk.inj (Option.some.inj h)
      exact ⟨i, _, tail, _, [.begin op], hstack, .begin hready,
        (put_impl s θ i [.invoker i (some (c.enter op))] tail _).symm, rfl⟩
  · rcases haccess : c.access r (s.object i) with _ | ⟨r', b⟩
    · simp only [advance, hstack, haccess] at h
      obtain ⟨rfl, rfl⟩ := Prod.mk.inj (Option.some.inj h)
      exact ⟨i, _, tail, _, [.finish], hstack, .finish haccess,
        (put_stack s θ i [.invoker i none] tail).symm, rfl⟩
    · simp only [advance, hstack, haccess] at h
      obtain ⟨rfl, rfl⟩ := Prod.mk.inj (Option.some.inj h)
      exact ⟨i, _, tail, _, [.access], hstack, .access haccess,
        (put_object s θ i [.invoker i (some r')] tail b).symm, rfl⟩
  · obtain ⟨hcase, hpush⟩ | ⟨hcase, hpush⟩ := pushWaitingToReady_cases (s.impl i)
    · simp only [advance, hstack, hpush] at h
      obtain ⟨rfl, rfl⟩ := Prod.mk.inj (Option.some.inj h)
      exact ⟨i, _, tail, _, [], hstack, .more hcase,
        (put_impl s θ i [.execute i .never] tail _).symm, rfl⟩
    · simp only [advance, hstack, hpush] at h
      obtain ⟨rfl, rfl⟩ := Prod.mk.inj (Option.some.inj h)
      exact ⟨i, _, tail, _, [], hstack, .idle hcase, (put_impl s θ i [] tail _).symm, rfl⟩
  · rcases haccess : c.access r (s.object i) with _ | ⟨r', b⟩
    · simp only [advance, hstack, haccess] at h
      obtain ⟨rfl, rfl⟩ := Prod.mk.inj (Option.some.inj h)
      exact ⟨i, _, tail, _, [.finish], hstack, .immediateFinish haccess,
        (put_stack s θ i [] tail).symm, rfl⟩
    · simp only [advance, hstack, haccess] at h
      obtain ⟨rfl, rfl⟩ := Prod.mk.inj (Option.some.inj h)
      exact ⟨i, _, tail, _, [.access], hstack, .immediateAccess haccess,
        (put_object s θ i [.immediate i r'] tail b).symm, rfl⟩

/-- A thread that goes on does not abandon a handler. -/
lemma advance_not_abandon {c : Code α ρ β} {s s' : State Θ ι α ρ β} {θ : Θ}
    {out : List (ι × SerialQueue.Event α)} (h : advance c s θ = some (s', out)) :
    ∀ p ∈ out, p.2 ≠ .abandon := by
  unfold advance at h
  repeat' split at h
  all_goals cases h
  all_goals simp

/-- **What can happen in one step.**  The code of the user calls a strand in which its thread
already is, or another one; a thread makes one of the steps of `Rule`, which abandons a handler only
if the handler throws; or a strand is shut down. -/
lemma step_cases [Fintype Θ] {c : Code α ρ β} {s s' : State Θ ι α ρ β} {e : Event Θ ι α}
    {out : List (ι × SerialQueue.Event α)} (h : step c s e = some (s', out)) :
    (∃ θ i op, e = .submit θ i .possibly op ∧ InUserCode (s.stack θ) ∧
      runningInThisThread i (s.stack θ) = true ∧
      s' = s.setStack θ (.immediate i (c.enter op) :: s.stack θ) ∧ out = [(i, .call op)]) ∨
    (∃ θ i blocking op, e = .submit θ i blocking op ∧ InUserCode (s.stack θ) ∧
      s' = s.setStack θ (.enqueue i op blocking :: s.stack θ) ∧ out = []) ∨
    ((∀ θ i blocking op, e ≠ .submit θ i blocking op) ∧
      ((∀ θ, e ≠ .throw θ) → ∀ p ∈ out, p.2 ≠ .abandon) ∧ ∃ θ i, Acts c s s' out θ i) ∨
    (∃ i, e = .shutdown i ∧ (∀ θ, s.stack θ = []) ∧ s' = s.setImpl i (s.impl i).shutDown ∧
      out = [(i, .clear)]) := by
  rcases e with ⟨θ, i, blocking, op⟩ | θ | θ | ⟨θ, i⟩ | θ | i
  · simp only [step, Option.ite_none_right_eq_some, Option.some.injEq, submit] at h
    obtain ⟨huser, h⟩ := h
    split_ifs at h with hrunning
    · obtain ⟨rfl, rfl⟩ := Prod.mk.inj h
      obtain ⟨rfl, hrunning⟩ := hrunning
      exact Or.inl ⟨θ, i, op, rfl, huser, hrunning, rfl, rfl⟩
    · obtain ⟨rfl, rfl⟩ := Prod.mk.inj h
      exact Or.inr (Or.inl ⟨θ, i, blocking, op, rfl, huser, rfl, rfl⟩)
  · obtain ⟨i, hacts⟩ := advance_acts h
    exact Or.inr (Or.inr (Or.inl ⟨by simp, fun _ => advance_not_abandon h, θ, i, hacts⟩))
  · simp only [step] at h
    split at h
    · rename_i i tail hstack
      obtain ⟨rfl, rfl⟩ := Prod.mk.inj (Option.some.inj h)
      exact Or.inr (Or.inr (Or.inl ⟨by simp, by simp, θ, i, _, tail, _, [], hstack, .inline,
        (put_stack s θ i [.invoker i none] tail).symm, rfl⟩))
    · cases h
  · simp only [step, Option.ite_none_right_eq_some, Option.some.injEq] at h
    obtain ⟨⟨huser, hqueued⟩, h⟩ := h
    obtain ⟨rfl, rfl⟩ := Prod.mk.inj h
    exact Or.inr (Or.inr (Or.inl ⟨by simp, by simp, θ, i, [], s.stack θ, _, [], rfl,
      .start huser hqueued, (put_queued s θ i [.invoker i none] (s.stack θ) _).symm, rfl⟩))
  · simp only [step] at h
    split at h
    · rename_i i r tail hstack
      obtain ⟨rfl, rfl⟩ := Prod.mk.inj (Option.some.inj h)
      exact Or.inr (Or.inr (Or.inl ⟨by simp, by simp, θ, i, _, tail, _, [.abandon], hstack, .throw,
        (put_stack s θ i [.onInvokerExit i true] tail).symm, rfl⟩))
    · rename_i i r tail hstack
      obtain ⟨rfl, rfl⟩ := Prod.mk.inj (Option.some.inj h)
      exact Or.inr (Or.inr (Or.inl ⟨by simp, by simp, θ, i, _, tail, _, [.abandon], hstack,
        .immediateThrow, (put_stack s θ i [] tail).symm, rfl⟩))
    · cases h
  · simp only [step, Option.ite_none_right_eq_some, Option.some.injEq, List.isEmpty_iff] at h
    obtain ⟨hidle, h⟩ := h
    obtain ⟨rfl, rfl⟩ := Prod.mk.inj h
    exact Or.inr (Or.inr (Or.inr ⟨i, rfl, hidle, rfl, rfl⟩))

/-- A thread makes the same step in two programs if their handlers are entered in the same way and
make the same next access. -/
lemma step_congr [Fintype Θ] {c c' : Code α ρ β} (s : State Θ ι α ρ β) (e : Event Θ ι α)
    (henter : c.enter = c'.enter)
    (haccess : ∀ θ i r tail,
      s.stack θ = .invoker i (some r) :: tail ∨ s.stack θ = .immediate i r :: tail →
        c.access r (s.object i) = c'.access r (s.object i)) :
    step c s e = step c' s e := by
  rcases e with ⟨θ, i, blocking, op⟩ | θ | θ | ⟨θ, i⟩ | θ | i
  · simp only [step, submit, henter]
  · simp only [step]
    rcases hstack : s.stack θ with _ | ⟨f, tail⟩
    · simp only [advance, hstack]
    rcases f with ⟨i, op, blocking⟩ | ⟨i, op, blocking⟩ | ⟨i, blocking⟩ | ⟨i, _ | r⟩ |
      ⟨i, unwinding⟩ | ⟨i, r⟩
    · simp only [advance, hstack]
    · simp only [advance, hstack]
    · simp only [advance, hstack]
    · simp only [advance, hstack, henter]
    · simp only [advance, hstack, haccess θ i r tail (Or.inl hstack)]
    · simp only [advance, hstack]
    · simp only [advance, hstack, haccess θ i r tail (Or.inr hstack)]
  · rfl
  · rfl
  · rfl
  · rfl

end Transition

end Strand

end AsioStudy
