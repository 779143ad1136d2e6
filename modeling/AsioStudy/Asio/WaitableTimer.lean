import AsioStudy.Asio.TimerQueueInvariant

/-!
# Waiting for timers

The timers of a context, as `detail/deadline_timer_service.hpp` and the reactor
(`detail/impl/epoll_reactor.hpp`, `detail/impl/epoll_reactor.ipp`) manage them: operations wait on a
timer until the reactor finds that it has expired, or until they are cancelled, which also happens
when the expiry of the timer is changed.  A timer is used by one thread at a time and the queue of
the timers under the mutex of the reactor, hence the calls happen one after another, in any order.

`Sound` relates the members of the timers to the queue, `Armed` the setting of `timer_fd_`, and
`Past` the outputs of a run; each operation has lemmas that say that it keeps them.
-/

namespace AsioStudy

namespace Asio

/-- An operation that waits, `wait_op`: its handler, and the key by which it can be cancelled. -/
structure WaitOp (ω κ : Type*) where
  handler : ω
  cancellationKey : Option κ
  deriving DecidableEq, Repr

/-- The members of `implementation_type`, without the data that the queue keeps for the timer. -/
structure Implementation (T : Type*) where
  expiry : WithTop T
  mightHavePendingWaits : Bool

/-- How `timer_fd_` is set. -/
structure Setting (T : Type*) where
  /-- The time at which the clock was read to compute how much time is left. -/
  now : T
  /-- The time from which the descriptor counts, when `timerfd_settime` has set it. -/
  set : T
  /-- It is ready after so many microseconds, and at once if there are none. -/
  usec : ℤ
  deriving DecidableEq, Repr

/-- The time in microseconds at which `timer_fd_` is ready. -/
def Setting.ready {T : Type*} (μ : T → ℚ) (setting : Setting T) : ℚ := μ setting.set + setting.usec

/-- The timers of a context and the part of the reactor that looks after them. -/
structure TimerService (T τ ω κ : Type*) where
  /-- The implementations of the timers. -/
  impl : τ → Implementation T
  /-- The member `timer_queue_`. -/
  queue : TimerQueue T τ (WaitOp ω κ)
  /-- The member `shutdown_` of the reactor. -/
  shutdown : Bool
  /-- How `timer_fd_` was set last. -/
  timerFd : Option (Setting T)

/-- What the program does with its timers, and what the reactor does. -/
inductive TimerEvent (T τ ω κ : Type*) where
  /-- A wait is started.  If the reactor sets `timer_fd_`, it reads the clock at the time `now`, and
  the descriptor counts from the time `set`. -/
  | asyncWait (timer : τ) (op : WaitOp ω κ) (now set : T)
  | expiresAt (timer : τ) (expiryTime : WithTop T)
  | cancel (timer : τ)
  | cancelOne (timer : τ)
  /-- The cancellation slot of an operation is emitted. -/
  | cancelByKey (timer : τ) (key : κ)
  /-- A timer is constructed or assigned by moving another one. -/
  | move (target source : τ)
  /-- A timer is destroyed, and another one is constructed in its place. -/
  | renew (timer : τ)
  /-- The reactor checks the timers at the time `now`, and then sets `timer_fd_`. -/
  | checkTimers (now later set : T)
  | shutdown

/-- What becomes of an operation. -/
inductive TimerOutput (T ω κ : Type*) where
  /-- A wait is started on a timer with this expiry. -/
  | started (op : WaitOp ω κ) (expiry : WithTop T)
  /-- The operation is completed without an error. -/
  | expired (op : WaitOp ω κ) (now : T)
  /-- The operation is completed with `operation_aborted`. -/
  | aborted (op : WaitOp ω κ)
  /-- The reactor is shut down: the operation is posted at once. -/
  | posted (op : WaitOp ω κ)
  /-- The reactor shuts down: the operation is destroyed. -/
  | abandoned (op : WaitOp ω κ)

variable {T τ ω κ : Type*} [LinearOrder T] [DecidableEq τ]

namespace TimerService

/-- A context with timers that were constructed. -/
def init (clock : Clock T) : TimerService T τ ω κ :=
  ⟨fun _ => ⟨clock.epoch, false⟩, .empty, false, none⟩

/-- `cancel_timer` of the reactor: the operations are completed. -/
def reactorCancel (s : TimerService T τ ω κ) (timer : τ) (maxCancelled : Option ℕ) :
    TimerService T τ ω κ × List (WaitOp ω κ) :=
  let r := s.queue.cancelTimer timer maxCancelled
  ({ s with queue := r.1 }, r.2)

/-- Change the members of a timer. -/
def setImpl (s : TimerService T τ ω κ) (timer : τ) (impl : Implementation T) :
    TimerService T τ ω κ := { s with impl := Function.update s.impl timer impl }

/-- Cancel any asynchronous wait operations associated with the timer, `cancel`. -/
def cancel (s : TimerService T τ ω κ) (timer : τ) : TimerService T τ ω κ × List (WaitOp ω κ) :=
  if ¬ (s.impl timer).mightHavePendingWaits then (s, [])
  else
    let r := s.reactorCancel timer none
    (r.1.setImpl timer ⟨(s.impl timer).expiry, false⟩, r.2)

/-- Cancels one asynchronous wait operation associated with the timer, `cancel_one`. -/
def cancelOne (s : TimerService T τ ω κ) (timer : τ) : TimerService T τ ω κ × List (WaitOp ω κ) :=
  if ¬ (s.impl timer).mightHavePendingWaits then (s, [])
  else
    let r := s.reactorCancel timer (some 1)
    if r.2.length = 0 then (r.1.setImpl timer ⟨(s.impl timer).expiry, false⟩, r.2) else r

/-- Set the expiry time for the timer as an absolute time, `expires_at`. -/
def expiresAt (s : TimerService T τ ω κ) (timer : τ) (expiryTime : WithTop T) :
    TimerService T τ ω κ × List (WaitOp ω κ) :=
  let r := s.cancel timer
  (r.1.setImpl timer ⟨expiryTime, (r.1.impl timer).mightHavePendingWaits⟩, r.2)

/-- `cancel_timer_by_key` of the reactor. -/
def cancelByKey [DecidableEq κ] (s : TimerService T τ ω κ) (timer : τ) (key : κ) :
    TimerService T τ ω κ × List (WaitOp ω κ) :=
  let r := s.queue.cancelTimerByKey timer fun op => op.cancellationKey = some key
  ({ s with queue := r.1 }, r.2)

/-- Destroy a timer implementation, `destroy`, and `construct` one. -/
def renew (clock : Clock T) (s : TimerService T τ ω κ) (timer : τ) :
    TimerService T τ ω κ × List (WaitOp ω κ) :=
  let r := s.cancel timer
  (r.1.setImpl timer ⟨clock.epoch, false⟩, r.2)

/-- The longest time in microseconds for which the reactor sleeps. -/
def fiveMinutes : ℤ := 5 * 60 * 1000 * 1000

/-- `update_timeout`, with `get_timeout`. -/
def updateTimeout (clock : Clock T) (queue : TimerQueue T τ (WaitOp ω κ)) (now set : T) :
    Setting T :=
  ⟨now, set, queue.waitDurationUsec clock now fiveMinutes⟩

/-- `schedule_timer` of the reactor. -/
def scheduleTimer (clock : Clock T) (s : TimerService T τ ω κ) (time : WithTop T) (timer : τ)
    (op : WaitOp ω κ) (now set : T) : TimerService T τ ω κ × List (WaitOp ω κ) :=
  if s.shutdown then (s, [op])
  else
    let r := s.queue.enqueueTimer time timer op
    ({ s with
        queue := r.1
        timerFd := if r.2 then some (updateTimeout clock r.1 now set) else s.timerFd }, [])

/-- Start an asynchronous wait on the timer, `async_wait`. -/
def asyncWait (clock : Clock T) (s : TimerService T τ ω κ) (timer : τ) (op : WaitOp ω κ)
    (now set : T) : TimerService T τ ω κ × List (WaitOp ω κ) :=
  (s.setImpl timer ⟨(s.impl timer).expiry, true⟩).scheduleTimer clock (s.impl timer).expiry timer
    op now set

/-- `move_timer` of the reactor, and `move_construct` or `move_assign`. -/
def move (clock : Clock T) (s : TimerService T τ ω κ) (target source : τ) :
    TimerService T τ ω κ × List (WaitOp ω κ) :=
  let r := s.reactorCancel target none
  (({ r.1 with queue := r.1.queue.moveTimer target source }.setImpl target
      (s.impl source)).setImpl source ⟨clock.epoch, false⟩, r.2)

/-- The reactor dequeues the timers that have expired, and sets `timer_fd_` again. -/
def checkTimers (clock : Clock T) (s : TimerService T τ ω κ) (now later set : T) :
    TimerService T τ ω κ × List (WaitOp ω κ) :=
  let r := s.queue.getReadyTimers now
  ({ s with queue := r.1, timerFd := some (updateTimeout clock r.1 later set) }, r.2)

/-- The reactor shuts down, `shutdown`. -/
def shutDown (s : TimerService T τ ω κ) : TimerService T τ ω κ × List (WaitOp ω κ) :=
  let r := s.queue.getAllTimers
  ({ s with queue := r.1, shutdown := true }, r.2)

/-- One event; a timer is not moved to itself. -/
def step [DecidableEq κ] (clock : Clock T) (s : TimerService T τ ω κ) :
    TimerEvent T τ ω κ → Option (TimerService T τ ω κ × List (TimerOutput T ω κ))
  | .asyncWait timer op now set =>
    let r := s.asyncWait clock timer op now set
    some (r.1, .started op (s.impl timer).expiry :: r.2.map .posted)
  | .expiresAt timer expiryTime =>
    let r := s.expiresAt timer expiryTime
    some (r.1, r.2.map .aborted)
  | .cancel timer =>
    let r := s.cancel timer
    some (r.1, r.2.map .aborted)
  | .cancelOne timer =>
    let r := s.cancelOne timer
    some (r.1, r.2.map .aborted)
  | .cancelByKey timer key =>
    let r := s.cancelByKey timer key
    some (r.1, r.2.map .aborted)
  | .move target source =>
    if target = source then none
    else
      let r := s.move clock target source
      some (r.1, r.2.map .aborted)
  | .renew timer =>
    let r := s.renew clock timer
    some (r.1, r.2.map .aborted)
  | .checkTimers now later set =>
    let r := s.checkTimers clock now later set
    some (r.1, r.2.map (.expired · now))
  | .shutdown =>
    let r := s.shutDown
    some (r.1, r.2.map .abandoned)

/-! ## What holds of the timers -/

/-- The queue satisfies its invariant, or the reactor has shut down and it is cleared. -/
def Valid (down : Bool) (q : TimerQueue T τ (WaitOp ω κ)) : Prop :=
  if down then q.Cleared else q.Inv

/-- The members of the timers agree with the queue: the time of an entry in the heap is the expiry of
its timer, each timer with a finite expiry on which an operation waits has an entry, and the flag of
such a timer is set. -/
structure Sound (s : TimerService T τ ω κ) : Prop where
  valid : Valid s.shutdown s.queue
  mem_heap : ∀ (t : τ) (d : T), ⟨d, t⟩ ∈ s.queue.heap ↔
    s.queue.opQueue t ≠ [] ∧ (s.impl t).expiry = d
  might : ∀ t, s.queue.opQueue t ≠ [] → (s.impl t).mightHavePendingWaits

/-- If there are entries in the heap, then `timer_fd_` was set for the time that was left until an
expiry not later than theirs. -/
def Armed (clock : Clock T) (s : TimerService T τ ω κ) : Prop :=
  ∀ e ∈ s.queue.heap, ∃ setting, s.timerFd = some setting ∧
    ∃ first ≤ e.time, setting.usec = clock.toUsec first setting.now fiveMinutes

/-- The operation of a wait that is started. -/
def startedOp : TimerOutput T ω κ → Option (WaitOp ω κ)
  | .started op _ => some op
  | _ => none

/-- The operation of a wait that ends. -/
def endedOp : TimerOutput T ω κ → Option (WaitOp ω κ)
  | .started _ _ => none
  | .expired op _ => some op
  | .aborted op => some op
  | .posted op => some op
  | .abandoned op => some op

/-- The outputs so far agree with the queue: the waits that were started are those that have ended and
those that are pending, a pending one was started with the expiry that its timer still has, those of
one timer are in the order in which they were started, and one that has expired was started with an
expiry that had been reached. -/
structure Past (s : TimerService T τ ω κ) (out : List (TimerOutput T ω κ)) : Prop where
  conserved : (out.filterMap startedOp).Perm (out.filterMap endedOp ++ s.queue.pending)
  started : ∀ t, ∀ op ∈ s.queue.opQueue t, .started op (s.impl t).expiry ∈ out
  order : ∀ t, (s.queue.opQueue t).Sublist (out.filterMap startedOp)
  punctual : ∀ op now, .expired op now ∈ out → ∃ d ≤ now, .started op d ∈ out

variable {s s' : TimerService T τ ω κ} {q q' : TimerQueue T τ (WaitOp ω κ)} {t : τ}
  {out : List (TimerOutput T ω κ)} {taken rest : List (WaitOp ω κ)} {clock : Clock T}

/-- The outputs for operations that end, all in the same way. -/
structure EndedBy (f : WaitOp ω κ → TimerOutput T ω κ) : Prop where
  started : ∀ op, startedOp (f op) = none
  ended : ∀ op, endedOp (f op) = some op

omit [LinearOrder T] in
/-- No wait is started when operations end. -/
lemma EndedBy.filterMap_startedOp {f : WaitOp ω κ → TimerOutput T ω κ} (hf : EndedBy f)
    (ops : List (WaitOp ω κ)) : (ops.map f).filterMap startedOp = [] := by
  rw [List.filterMap_map, List.filterMap_eq_nil_iff]
  exact fun op _ => hf.started op

omit [LinearOrder T] in
/-- The operations that end are those for which there is an output. -/
lemma EndedBy.filterMap_endedOp {f : WaitOp ω κ → TimerOutput T ω κ} (hf : EndedBy f)
    (ops : List (WaitOp ω κ)) : (ops.map f).filterMap endedOp = ops := by
  rw [List.filterMap_map]
  exact (List.filterMap_congr fun op _ => hf.ended op).trans List.filterMap_some

omit [DecidableEq τ] in
/-- A queue that is cleared has no operation. -/
lemma Valid.opQueue_eq_nil (h : Valid s.shutdown s.queue) (hdown : s.shutdown = true) (t : τ) :
    s.queue.opQueue t = [] := by
  rw [Valid, if_pos hdown] at h
  exact h.opQueue_eq t

/-! ## Operations of one timer end -/

/-- Operations of one timer are dequeued, and its members change only if none is left. -/
structure Withdrawn (s s' : TimerService T τ ω κ) (t : τ) (taken rest : List (WaitOp ω κ)) :
    Prop where
  valid : Valid s.shutdown s'.queue
  opQueue_eq : s'.queue.opQueue = Function.update s.queue.opQueue t rest
  perm : s'.queue.heap.Perm
    (if rest = [] then s.queue.heap.filter fun e => e.timer ≠ t else s.queue.heap)
  taken_perm : (taken ++ rest).Perm (s.queue.opQueue t)
  rest_sublist : rest.Sublist (s.queue.opQueue t)
  pending_perm : (taken ++ s'.queue.pending).Perm s.queue.pending
  shutdown_eq : s'.shutdown = s.shutdown
  timerFd_eq : s'.timerFd = s.timerFd
  impl_of_ne : ∀ u, u ≠ t → s'.impl u = s.impl u
  impl_eq : rest ≠ [] → s'.impl t = s.impl t

/-- The members of a timer change on which no operation waits. -/
lemma Withdrawn.setImpl (h : Withdrawn s s' t taken []) (impl : Implementation T) :
    Withdrawn s (s'.setImpl t impl) t taken [] where
  valid := h.valid
  opQueue_eq := h.opQueue_eq
  perm := h.perm
  taken_perm := h.taken_perm
  rest_sublist := h.rest_sublist
  pending_perm := h.pending_perm
  shutdown_eq := h.shutdown_eq
  timerFd_eq := h.timerFd_eq
  impl_of_ne u hu := (Function.update_of_ne hu _ _).trans (h.impl_of_ne u hu)
  impl_eq hne := absurd rfl hne

/-- Operations are dequeued from a queue that satisfies its invariant. -/
lemma withdrawn_of_dequeued (hdown : s.shutdown = false) (hs : s.queue.Inv)
    (hq : TimerQueue.Dequeued s.queue q' t rest) (htaken : (taken ++ rest).Perm (s.queue.opQueue t))
    (hrest : rest.Sublist (s.queue.opQueue t)) :
    Withdrawn s { s with queue := q' } t taken rest where
  valid := by
    rw [Valid, hdown, if_neg Bool.false_ne_true]
    exact hq.inv
  opQueue_eq := hq.opQueue_eq
  perm := hq.perm
  taken_perm := htaken
  rest_sublist := hrest
  pending_perm := hq.pending_perm hs htaken
  shutdown_eq := rfl
  timerFd_eq := rfl
  impl_of_ne _ _ := rfl
  impl_eq _ := rfl

/-- Nothing is dequeued where nothing waits. -/
lemma Sound.withdrawn_self (h : Sound s) (ht : s.queue.opQueue t = []) :
    Withdrawn s s t [] [] where
  valid := h.valid
  opQueue_eq := by rw [← ht, Function.update_eq_self]
  perm := by
    rw [if_pos rfl, List.filter_eq_self.mpr]
    rintro ⟨d, u⟩ he
    refine decide_eq_true fun heq => ((h.mem_heap u d).mp he).1 ?_
    rw [show u = t from heq, ht]
  taken_perm := by rw [ht, List.append_nil]
  rest_sublist := List.nil_sublist _
  pending_perm := List.Perm.refl _
  shutdown_eq := rfl
  timerFd_eq := rfl
  impl_of_ne _ _ := rfl
  impl_eq _ := rfl

/-- The reactor completes the first operations of a timer. -/
lemma Sound.reactorCancel (h : Sound s) (t : τ) (maxCancelled : Option ℕ) :
    let n := maxCancelled.getD (s.queue.opQueue t).length
    (s.reactorCancel t maxCancelled).2 = (s.queue.opQueue t).take n ∧
      Withdrawn s (s.reactorCancel t maxCancelled).1 t ((s.queue.opQueue t).take n)
        ((s.queue.opQueue t).drop n) := by
  intro n
  have hvalid := h.valid
  rcases hdown : s.shutdown
  · rw [Valid, hdown, if_neg Bool.false_ne_true] at hvalid
    obtain ⟨htaken, hq⟩ := hvalid.cancelTimer t maxCancelled
    refine ⟨htaken, withdrawn_of_dequeued hdown hvalid hq ?_ (List.drop_sublist _ _)⟩
    rw [List.take_append_drop]
  · have hnil := h.valid.opQueue_eq_nil hdown t
    rw [Valid, if_pos hdown] at hvalid
    have hsame : s.reactorCancel t maxCancelled = (s, []) := by
      rw [TimerService.reactorCancel, hvalid.cancelTimer]
    rw [hsame, hnil, List.take_nil, List.drop_nil]
    exact ⟨rfl, h.withdrawn_self hnil⟩

/-- `cancel` completes all operations of the timer, also where it does not ask the reactor. -/
lemma Sound.cancel (h : Sound s) (t : τ) :
    (s.cancel t).2 = s.queue.opQueue t ∧
      Withdrawn s (s.cancel t).1 t (s.queue.opQueue t) [] := by
  unfold TimerService.cancel
  by_cases hmight : (s.impl t).mightHavePendingWaits
  · rw [if_neg (not_not.mpr hmight)]
    obtain ⟨htaken, hwithdrawn⟩ := h.reactorCancel t none
    rw [Option.getD_none, List.take_length, List.drop_length] at hwithdrawn
    rw [Option.getD_none, List.take_length] at htaken
    exact ⟨htaken, hwithdrawn.setImpl _⟩
  · rw [if_pos hmight]
    have hnil : s.queue.opQueue t = [] := by
      by_contra hne
      exact hmight (h.might t hne)
    rw [hnil]
    exact ⟨rfl, h.withdrawn_self hnil⟩

/-- `cancel_one` completes the operation that waits longest. -/
lemma Sound.cancelOne (h : Sound s) (t : τ) :
    (s.cancelOne t).2 = (s.queue.opQueue t).take 1 ∧
      Withdrawn s (s.cancelOne t).1 t ((s.queue.opQueue t).take 1)
        ((s.queue.opQueue t).drop 1) := by
  unfold TimerService.cancelOne
  by_cases hmight : (s.impl t).mightHavePendingWaits
  · rw [if_neg (not_not.mpr hmight)]
    obtain ⟨htaken, hwithdrawn⟩ := h.reactorCancel t (some 1)
    rw [Option.getD_some] at htaken hwithdrawn
    simp only [htaken]
    split_ifs with hlength
    · have hnil : s.queue.opQueue t = [] := by
        rw [List.length_take] at hlength
        exact List.length_eq_zero_iff.mp (by omega)
      rw [hnil, List.take_nil, List.drop_nil] at hwithdrawn ⊢
      exact ⟨rfl, hwithdrawn.setImpl _⟩
    · exact ⟨htaken, hwithdrawn⟩
  · rw [if_pos hmight]
    have hnil : s.queue.opQueue t = [] := by
      by_contra hne
      exact hmight (h.might t hne)
    rw [hnil]
    exact ⟨rfl, h.withdrawn_self hnil⟩

/-- `cancel_timer_by_key` completes the operations of the timer with the key. -/
lemma Sound.cancelByKey [DecidableEq κ] (h : Sound s) (t : τ) (key : κ) :
    (s.cancelByKey t key).2 =
        (s.queue.opQueue t).filter (fun op => op.cancellationKey = some key) ∧
      Withdrawn s (s.cancelByKey t key).1 t
        ((s.queue.opQueue t).filter fun op => op.cancellationKey = some key)
        ((s.queue.opQueue t).filter fun op => !decide (op.cancellationKey = some key)) := by
  have hvalid := h.valid
  rcases hdown : s.shutdown
  · rw [Valid, hdown, if_neg Bool.false_ne_true] at hvalid
    obtain ⟨htaken, hq⟩ := hvalid.cancelTimerByKey t fun op => op.cancellationKey = some key
    exact ⟨htaken, withdrawn_of_dequeued hdown hvalid hq (List.filter_append_perm _ _)
      List.filter_sublist⟩
  · have hnil := h.valid.opQueue_eq_nil hdown t
    rw [Valid, if_pos hdown] at hvalid
    have hsame : s.cancelByKey t key = (s, []) := by
      rw [TimerService.cancelByKey, hvalid.cancelTimerByKey]
    rw [hsame, hnil, List.filter_nil, List.filter_nil]
    exact ⟨rfl, h.withdrawn_self hnil⟩

/-- The timers are still in order. -/
lemma Withdrawn.sound (hs : Sound s) (h : Withdrawn s s' t taken rest) : Sound s' := by
  have hwaits : ∀ u, s'.queue.opQueue u ≠ [] →
      s.queue.opQueue u ≠ [] ∧ s'.impl u = s.impl u ∧ (u = t → rest ≠ []) := by
    intro u hu
    rw [h.opQueue_eq] at hu
    by_cases hut : u = t
    · rw [hut, Function.update_self] at hu
      have hne : s.queue.opQueue t ≠ [] := by
        intro hnil
        have hperm := h.taken_perm
        rw [hnil, List.perm_nil, List.append_eq_nil_iff] at hperm
        exact hu hperm.2
      rw [hut]
      exact ⟨hne, h.impl_eq hu, fun _ => hu⟩
    · rw [Function.update_of_ne hut] at hu
      exact ⟨hu, h.impl_of_ne u hut, fun heq => absurd heq hut⟩
  refine ⟨h.shutdown_eq ▸ h.valid, fun u d => ?_, fun u hu => ?_⟩
  · have hheap : (⟨d, u⟩ : HeapEntry T τ) ∈ s'.queue.heap ↔
        (⟨d, u⟩ : HeapEntry T τ) ∈ s.queue.heap ∧ (rest = [] → u ≠ t) := by
      rw [h.perm.mem_iff]
      split_ifs with hrest
      · simp [hrest]
      · simp [hrest]
    rw [hheap, hs.mem_heap]
    by_cases hut : u = t
    · have hopQueue : s'.queue.opQueue u = rest := by
        rw [h.opQueue_eq, hut, Function.update_self]
      constructor
      · rintro ⟨⟨-, hexpiry⟩, hrest⟩
        have hne : rest ≠ [] := fun hnil => hrest hnil hut
        rw [hopQueue, hut, h.impl_eq hne]
        exact ⟨hne, hut ▸ hexpiry⟩
      · rintro ⟨hne, hexpiry⟩
        obtain ⟨hne', himpl, hrest⟩ := hwaits u hne
        exact ⟨⟨hne', himpl ▸ hexpiry⟩, fun hnil => absurd hnil (hrest hut)⟩
    · rw [h.opQueue_eq, Function.update_of_ne hut, h.impl_of_ne u hut]
      exact and_iff_left fun _ => hut
  · obtain ⟨hne, himpl, -⟩ := hwaits u hu
    rw [himpl]
    exact hs.might u hne

/-- `timer_fd_` is still set in time. -/
lemma Withdrawn.armed (ha : Armed clock s) (h : Withdrawn s s' t taken rest) : Armed clock s' := by
  intro e he
  have he' := h.perm.mem_iff.mp he
  rw [h.timerFd_eq]
  split_ifs at he' with hrest
  · exact ha e (List.mem_filter.mp he').1
  · exact ha e he'

/-- The outputs still agree with the queue. -/
lemma Withdrawn.past (hpast : Past s out) (h : Withdrawn s s' t taken rest) :
    Past s' (out ++ taken.map .aborted) := by
  have haborted : EndedBy (TimerOutput.aborted (T := T) (ω := ω) (κ := κ)) :=
    ⟨fun _ => rfl, fun _ => rfl⟩
  refine ⟨?_, fun u op hop => ?_, fun u => ?_, fun op now hmem => ?_⟩
  · rw [List.filterMap_append, List.filterMap_append, haborted.filterMap_startedOp,
      haborted.filterMap_endedOp, List.append_nil, List.append_assoc]
    exact hpast.conserved.trans (h.pending_perm.symm.append_left _)
  · refine List.mem_append_left _ ?_
    rw [h.opQueue_eq] at hop
    by_cases hut : u = t
    · rw [hut, Function.update_self] at hop
      have hmem := h.taken_perm.mem_iff.mp (List.mem_append_right _ hop)
      rw [hut, h.impl_eq (List.ne_nil_of_mem hop)]
      exact hpast.started t op hmem
    · rw [Function.update_of_ne hut] at hop
      rw [h.impl_of_ne u hut]
      exact hpast.started u op hop
  · rw [List.filterMap_append, haborted.filterMap_startedOp, List.append_nil, h.opQueue_eq]
    by_cases hut : u = t
    · rw [hut, Function.update_self]
      exact h.rest_sublist.trans (hpast.order t)
    · rw [Function.update_of_ne hut]
      exact hpast.order u
  · rcases List.mem_append.mp hmem with hold | hnew
    · obtain ⟨d, hd, hstarted⟩ := hpast.punctual op now hold
      exact ⟨d, hd, List.mem_append_left _ hstarted⟩
    · obtain ⟨_, -, heq⟩ := List.mem_map.mp hnew
      cases heq

/-! ## Moving, starting, expiring and shutting down -/

omit [DecidableEq τ] in
/-- When the reactor has shut down, the timers are in order whatever their members are. -/
lemma sound_of_cleared (hdown : s.shutdown = true) (h : s.queue.Cleared) : Sound s where
  valid := by
    rw [Valid, if_pos hdown]
    exact h
  mem_heap t d := by simp [h.heap_eq, h.opQueue_eq]
  might t ht := absurd (h.opQueue_eq t) ht

omit [DecidableEq τ] in
/-- `timer_fd_` does not matter when there are no entries. -/
lemma armed_of_cleared (clock : Clock T) (h : s.queue.Cleared) : Armed clock s := by
  intro e he
  rw [h.heap_eq] at he
  cases he

omit [DecidableEq τ] [LinearOrder T] in
/-- A queue that is cleared has no pending operation. -/
lemma pending_eq_nil (h : q.Cleared) : q.pending = [] := by
  rw [TimerQueue.pending, h.timers_eq, List.flatMap_nil]

omit [DecidableEq τ] in
/-- The outputs agree with any queue that is cleared if they agree with one. -/
lemma Past.of_cleared (hpast : Past s out) (h : s.queue.Cleared) (h' : s'.queue.Cleared) :
    Past s' out where
  conserved := by
    rw [pending_eq_nil h', ← pending_eq_nil h]
    exact hpast.conserved
  started t op hop := by
    rw [h'.opQueue_eq] at hop
    cases hop
  order t := by
    rw [h'.opQueue_eq]
    exact List.nil_sublist _
  punctual := hpast.punctual

/-- The service after the members and the operations of a timer are moved to a target on which no
operation waits. -/
def moved (clock : Clock T) (s : TimerService T τ ω κ) (target source : τ)
    (impl : Implementation T) : TimerService T τ ω κ :=
  ({ s with queue := s.queue.moveTimer target source }.setImpl target impl).setImpl source
    ⟨clock.epoch, false⟩

omit [LinearOrder T] in
/-- The members of the timers after the move. -/
lemma impl_moved (target source : τ) (impl : Implementation T) (u : τ) :
    (moved clock s target source impl).impl u =
      if u = source then ⟨clock.epoch, false⟩ else if u = target then impl else s.impl u := by
  change Function.update (Function.update s.impl target impl) source _ u = _
  rw [Function.update_apply, Function.update_apply]

/-- The operations of the timers after the move. -/
lemma opQueue_moved {target source : τ} (hs : s.queue.Inv)
    (htarget : s.queue.opQueue target = []) (hne : target ≠ source) (impl : Implementation T)
    (u : τ) :
    (moved clock s target source impl).queue.opQueue u =
      if u = source then [] else if u = target then s.queue.opQueue source
      else s.queue.opQueue u := by
  have hq := hs.moveTimer (fun hmem => (hs.mem_iff target).mp hmem htarget) hne
  change (s.queue.moveTimer target source).opQueue u = _
  rw [hq.opQueue_eq, Function.update_apply, Function.update_apply]

/-- The entries of the heap after the move. -/
lemma mem_heap_moved (h : Sound s) {target source : τ} (hs : s.queue.Inv)
    (htarget : s.queue.opQueue target = []) (hne : target ≠ source) (u : τ) (d : T) :
    ⟨d, u⟩ ∈ (s.queue.moveTimer target source).heap ↔
      u ≠ source ∧ (⟨d, if u = target then source else u⟩ : HeapEntry T τ) ∈ s.queue.heap := by
  have hq := hs.moveTimer (fun hmem => (hs.mem_iff target).mp hmem htarget) hne
  rw [hq.heap_eq, List.mem_map]
  constructor
  · rintro ⟨⟨d', v⟩, hmem, heq⟩
    rw [TimerQueue.HeapEntry.move, HeapEntry.mk.injEq, TimerQueue.replaceTimer] at heq
    obtain ⟨rfl, rfl⟩ := heq
    by_cases hsource : v = source
    · rw [if_pos hsource, if_pos rfl, ← hsource]
      exact ⟨hsource ▸ hne, hmem⟩
    · have htv : v ≠ target := by
        rintro rfl
        exact ((h.mem_heap _ _).mp hmem).1 htarget
      rw [if_neg hsource, if_neg htv]
      exact ⟨hsource, hmem⟩
  · rintro ⟨hsource, hmem⟩
    refine ⟨_, hmem, ?_⟩
    rw [TimerQueue.HeapEntry.move, TimerQueue.replaceTimer]
    by_cases hut : u = target
    · simp [hut]
    · simp [hut, hsource]

/-- A move keeps the timers in order. -/
lemma Sound.moved (h : Sound s) {target source : τ} (htarget : s.queue.opQueue target = [])
    (hne : target ≠ source) : Sound (moved clock s target source (s.impl source)) := by
  have hvalid := h.valid
  rcases hdown : s.shutdown
  · rw [Valid, hdown, if_neg Bool.false_ne_true] at hvalid
    have hq := hvalid.moveTimer (fun hmem => (hvalid.mem_iff target).mp hmem htarget) hne
    refine ⟨?_, fun u d => ?_, fun u hu => ?_⟩
    · change Valid s.shutdown _
      rw [Valid, hdown, if_neg Bool.false_ne_true]
      exact hq.inv
    · change ⟨d, u⟩ ∈ (s.queue.moveTimer target source).heap ↔ _
      rw [mem_heap_moved h hvalid htarget hne, opQueue_moved hvalid htarget hne, impl_moved]
      by_cases hsource : u = source
      · simp [hsource]
      · by_cases hut : u = target
        · simp only [hut, hne, ne_eq, not_false_eq_true, if_true, if_false, true_and]
          exact h.mem_heap source d
        · simp only [hsource, hut, ne_eq, not_false_eq_true, if_false, true_and]
          exact h.mem_heap u d
    · rw [opQueue_moved hvalid htarget hne] at hu
      rw [impl_moved]
      by_cases hsource : u = source
      · rw [if_pos hsource] at hu
        exact absurd rfl hu
      · rw [if_neg hsource] at hu ⊢
        split_ifs at hu ⊢
        · exact h.might source hu
        · exact h.might u hu
  · rw [Valid, if_pos hdown] at hvalid
    exact sound_of_cleared hdown (hvalid.moveTimer target source)

/-- A move changes no time. -/
lemma Armed.moved (ha : Armed clock s) (h : Sound s) {target source : τ}
    (htarget : s.queue.opQueue target = []) (hne : target ≠ source) :
    Armed clock (moved clock s target source (s.impl source)) := by
  have hvalid := h.valid
  rcases hdown : s.shutdown
  · rw [Valid, hdown, if_neg Bool.false_ne_true] at hvalid
    intro e he
    obtain ⟨-, he'⟩ := (mem_heap_moved h hvalid htarget hne e.timer e.time).mp he
    exact ha (HeapEntry.mk e.time (if e.timer = target then source else e.timer)) he'
  · rw [Valid, if_pos hdown] at hvalid
    exact armed_of_cleared clock (hvalid.moveTimer target source)

/-- A move ends no wait. -/
lemma Past.moved (hpast : Past s out) (h : Sound s) {target source : τ}
    (htarget : s.queue.opQueue target = []) (hne : target ≠ source) :
    Past (moved clock s target source (s.impl source)) out := by
  have hvalid := h.valid
  rcases hdown : s.shutdown
  · rw [Valid, hdown, if_neg Bool.false_ne_true] at hvalid
    have hmem := fun hmem => (hvalid.mem_iff target).mp hmem htarget
    refine ⟨?_, fun u op hop => ?_, fun u => ?_, hpast.punctual⟩
    · change List.Perm _ (_ ++ (s.queue.moveTimer target source).pending)
      rw [(hvalid.moveTimer hmem hne).pending_eq hmem]
      exact hpast.conserved
    · rw [opQueue_moved hvalid htarget hne] at hop
      rw [impl_moved]
      by_cases hsource : u = source
      · rw [if_pos hsource] at hop
        cases hop
      · rw [if_neg hsource] at hop ⊢
        split_ifs at hop ⊢
        · exact hpast.started source op hop
        · exact hpast.started u op hop
    · rw [opQueue_moved hvalid htarget hne]
      split_ifs
      · exact List.nil_sublist _
      · exact hpast.order source
      · exact hpast.order u
  · rw [Valid, if_pos hdown] at hvalid
    exact hpast.of_cleared hvalid (hvalid.moveTimer target source)

/-- `move` completes the operations of the target, and then moves those of the source. -/
lemma Sound.move (h : Sound s) {target source : τ} (hne : target ≠ source) :
    Sound (s.move clock target source).1 ∧
      (Armed clock s → Armed clock (s.move clock target source).1) ∧
      ∀ out, Past s out → Past (s.move clock target source).1
        (out ++ (s.move clock target source).2.map .aborted) := by
  obtain ⟨htaken, hwithdrawn⟩ := h.reactorCancel target none
  rw [Option.getD_none, List.take_length] at htaken
  rw [Option.getD_none, List.take_length, List.drop_length] at hwithdrawn
  have hmove : s.move clock target source =
      ((s.reactorCancel target none).1.moved clock target source (s.impl source),
        (s.reactorCancel target none).2) := rfl
  have htarget : (s.reactorCancel target none).1.queue.opQueue target = [] := by
    rw [hwithdrawn.opQueue_eq, Function.update_self]
  have himpl : s.impl source = (s.reactorCancel target none).1.impl source := rfl
  have hsound := hwithdrawn.sound h
  rw [hmove, htaken, himpl]
  exact ⟨hsound.moved htarget hne, fun ha => (hwithdrawn.armed ha).moved hsound htarget hne,
    fun _ hpast => (hwithdrawn.past hpast).moved hsound htarget hne⟩

omit [LinearOrder T] [DecidableEq τ] in
/-- The entry of a timer that becomes active, and the other ones. -/
lemma mem_entries (heap : List (HeapEntry T τ)) (time : WithTop T) (u : τ) (d : T) :
    ⟨d, u⟩ ∈ TimerQueue.entries heap time t ↔ ⟨d, u⟩ ∈ heap ∨ (u = t ∧ time = d) := by
  rcases time with _ | d'
  · exact (or_iff_left fun hnew => WithTop.top_ne_coe hnew.2).symm
  · simp only [TimerQueue.entries, List.mem_cons, HeapEntry.mk.injEq]
    rw [or_comm, and_comm, eq_comm (a := d)]
    exact or_congr_right (and_congr_right fun _ => WithTop.coe_inj.symm)

/-- Starting a wait only sets the flag of its timer. -/
lemma impl_asyncWait (t : τ) (op : WaitOp ω κ) (now set : T) (u : τ) :
    (s.asyncWait clock t op now set).1.impl u =
      if u = t then ⟨(s.impl t).expiry, true⟩ else s.impl u := by
  rw [← Function.update_apply, TimerService.asyncWait, scheduleTimer]
  split_ifs
  · rfl
  · rfl

/-- Starting a wait does not change the expiry of any timer. -/
lemma expiry_asyncWait (t : τ) (op : WaitOp ω κ) (now set : T) (u : τ) :
    ((s.asyncWait clock t op now set).1.impl u).expiry = (s.impl u).expiry := by
  rw [impl_asyncWait]
  split_ifs with hut
  · rw [hut]
  · rfl

/-- A wait is started while the reactor runs. -/
lemma asyncWait_of_running (hdown : s.shutdown = false) (t : τ) (op : WaitOp ω κ) (now set : T) :
    s.asyncWait clock t op now set =
      ({ impl := Function.update s.impl t ⟨(s.impl t).expiry, true⟩
         queue := (s.queue.enqueueTimer (s.impl t).expiry t op).1
         shutdown := s.shutdown
         timerFd :=
           if (s.queue.enqueueTimer (s.impl t).expiry t op).2 then
             some (updateTimeout clock (s.queue.enqueueTimer (s.impl t).expiry t op).1 now set)
           else s.timerFd }, []) := by
  rw [TimerService.asyncWait, scheduleTimer, if_neg]
  · rfl
  · change ¬ s.shutdown = true
    rw [hdown]
    exact Bool.false_ne_true

/-- A wait is started when the reactor has shut down. -/
lemma asyncWait_of_shutdown (hdown : s.shutdown = true) (t : τ) (op : WaitOp ω κ) (now set : T) :
    s.asyncWait clock t op now set = (s.setImpl t ⟨(s.impl t).expiry, true⟩, [op]) := by
  rw [TimerService.asyncWait, scheduleTimer]
  exact if_pos hdown

/-- The entries of the heap when a wait is started: there is a new one for the timer if its expiry is
finite and no other operation waits on it. -/
lemma mem_heap_enqueueTimer (h : Sound s) (hs : s.queue.Inv) (t : τ) (op : WaitOp ω κ) (u : τ)
    (d : T) :
    ⟨d, u⟩ ∈ (s.queue.enqueueTimer (s.impl t).expiry t op).1.heap ↔
      ⟨d, u⟩ ∈ s.queue.heap ∨ (u = t ∧ (s.impl t).expiry = d) := by
  rw [(hs.enqueueTimer (s.impl t).expiry t op).perm.mem_iff]
  split_ifs with ht
  · refine ⟨Or.inl, ?_⟩
    rintro (hmem | ⟨rfl, hexpiry⟩)
    · exact hmem
    · exact (h.mem_heap u d).mpr ⟨(hs.mem_iff u).mp ht, hexpiry⟩
  · exact mem_entries _ _ u d

/-- `async_wait` keeps the timers in order. -/
lemma Sound.asyncWait (h : Sound s) (t : τ) (op : WaitOp ω κ) (now set : T) :
    Sound (s.asyncWait clock t op now set).1 := by
  have hvalid := h.valid
  rcases hdown : s.shutdown
  · rw [Valid, hdown, if_neg Bool.false_ne_true] at hvalid
    have hq := hvalid.enqueueTimer (s.impl t).expiry t op
    refine ⟨?_, fun u d => ?_, fun u hu => ?_⟩
    · rw [asyncWait_of_running hdown, Valid, hdown, if_neg Bool.false_ne_true]
      exact hq.inv
    · rw [expiry_asyncWait, asyncWait_of_running hdown, mem_heap_enqueueTimer h hvalid,
        hq.opQueue_eq, h.mem_heap]
      by_cases hut : u = t
      · simp [hut]
      · simp [hut]
    · rw [impl_asyncWait]
      split_ifs with hut
      · rfl
      · rw [asyncWait_of_running hdown, hq.opQueue_eq, Function.update_of_ne hut] at hu
        exact h.might u hu
  · rw [asyncWait_of_shutdown hdown]
    rw [Valid, if_pos hdown] at hvalid
    exact sound_of_cleared hdown hvalid

omit [DecidableEq τ] in
/-- When `timer_fd_` has just been set, it is set in time. -/
lemma armed_updateTimeout (hs : s.queue.Inv) {now set : T}
    (htimer : s.timerFd = some (updateTimeout clock s.queue now set)) : Armed clock s := by
  intro e he
  obtain ⟨first, hfirst⟩ : ∃ first, s.queue.heap.head? = some first :=
    ⟨_, List.head?_eq_some_head (List.ne_nil_of_mem he)⟩
  refine ⟨_, htimer, first.time, hs.head_le hfirst he, ?_⟩
  rw [updateTimeout, TimerQueue.waitDurationUsec, hfirst]

/-- `timer_fd_` is set again for a timer that is earlier than all the others, and need not be for the
other ones. -/
lemma Armed.asyncWait (ha : Armed clock s) (h : Sound s) (t : τ) (op : WaitOp ω κ) (now set : T) :
    Armed clock (s.asyncWait clock t op now set).1 := by
  have hvalid := h.valid
  rcases hdown : s.shutdown
  · rw [Valid, hdown, if_neg Bool.false_ne_true] at hvalid
    rw [asyncWait_of_running hdown]
    rcases hearliest : (s.queue.enqueueTimer (s.impl t).expiry t op).2
    · intro e he
      obtain ⟨x, hx, hle⟩ := hvalid.enqueueTimer_false hearliest e he
      obtain ⟨setting, htimer, first, hfirst, husec⟩ := ha x hx
      exact ⟨setting, htimer, first, hfirst.trans hle, husec⟩
    · exact armed_updateTimeout (hvalid.enqueueTimer _ t op).inv rfl
  · rw [asyncWait_of_shutdown hdown]
    rw [Valid, if_pos hdown] at hvalid
    exact armed_of_cleared clock hvalid

/-- `async_wait` starts a wait, which ends at once when the reactor has shut down. -/
lemma Past.asyncWait (hpast : Past s out) (h : Sound s) (t : τ) (op : WaitOp ω κ) (now set : T) :
    Past (s.asyncWait clock t op now set).1
      (out ++ .started op (s.impl t).expiry ::
        (s.asyncWait clock t op now set).2.map .posted) := by
  have hvalid := h.valid
  have hpunctual : ∀ posted : List (WaitOp ω κ), ∀ op' now',
      .expired op' now' ∈ out ++ .started op (s.impl t).expiry :: posted.map .posted →
        ∃ d ≤ now', .started op' d ∈
          out ++ .started op (s.impl t).expiry :: posted.map .posted := by
    intro posted op' now' hmem
    rcases List.mem_append.mp hmem with hold | hnew
    · obtain ⟨d, hd, hstarted⟩ := hpast.punctual op' now' hold
      exact ⟨d, hd, List.mem_append_left _ hstarted⟩
    · simp at hnew
  rcases hdown : s.shutdown
  · rw [Valid, hdown, if_neg Bool.false_ne_true] at hvalid
    have hq := hvalid.enqueueTimer (s.impl t).expiry t op
    refine ⟨?_, fun u op' hop => ?_, fun u => ?_, hpunctual _⟩
    · rw [asyncWait_of_running hdown, List.filterMap_append, List.filterMap_append]
      change (_ ++ [op]).Perm ((_ ++ []) ++ _)
      rw [List.append_nil]
      refine (List.perm_append_singleton _ _).trans (((hpast.conserved).cons op).trans ?_)
      exact List.perm_middle.symm.trans ((hq.pending_perm hvalid).symm.append_left _)
    · rw [expiry_asyncWait]
      rw [asyncWait_of_running hdown, hq.opQueue_eq] at hop
      by_cases hut : u = t
      · rw [hut, Function.update_self, List.mem_append, List.mem_singleton] at hop
        rw [hut]
        rcases hop with hop | rfl
        · exact List.mem_append_left _ (hpast.started t op' hop)
        · exact List.mem_append_right _ List.mem_cons_self
      · rw [Function.update_of_ne hut] at hop
        exact List.mem_append_left _ (hpast.started u op' hop)
    · rw [asyncWait_of_running hdown, hq.opQueue_eq, List.filterMap_append]
      change List.Sublist _ (_ ++ [op])
      by_cases hut : u = t
      · rw [hut, Function.update_self]
        exact (hpast.order t).append_right [op]
      · rw [Function.update_of_ne hut]
        exact (hpast.order u).trans (List.sublist_append_left _ _)
  · rw [asyncWait_of_shutdown hdown]
    rw [Valid, if_pos hdown] at hvalid
    refine ⟨?_, fun u op' hop => ?_, fun u => ?_, hpunctual [op]⟩
    · rw [List.filterMap_append, List.filterMap_append]
      change (_ ++ [op]).Perm ((_ ++ [op]) ++ s.queue.pending)
      have hconserved := hpast.conserved
      rw [pending_eq_nil hvalid, List.append_nil] at hconserved ⊢
      exact hconserved.append_right _
    · change op' ∈ s.queue.opQueue u at hop
      rw [hvalid.opQueue_eq] at hop
      cases hop
    · change (s.queue.opQueue u).Sublist _
      rw [hvalid.opQueue_eq]
      exact List.nil_sublist _

/-- What `get_ready_timers` does to the queue, as seen by the service: the operations of the timers
`ts` are dequeued, which are those that have expired, in the order of their expiries. -/
structure Checked (s : TimerService T τ ω κ) (q' : TimerQueue T τ (WaitOp ω κ)) (now : T)
    (ops : List (WaitOp ω κ)) (ts : List τ) : Prop where
  valid : Valid s.shutdown q'
  ops_eq : ops = ts.flatMap s.queue.opQueue
  nodup : ts.Nodup
  sorted : ts.Pairwise fun t u => (s.impl t).expiry ≤ (s.impl u).expiry
  mem_iff : ∀ t, t ∈ ts ↔ s.queue.opQueue t ≠ [] ∧ (s.impl t).expiry ≤ now
  opQueue_eq : ∀ t, q'.opQueue t = if (s.impl t).expiry ≤ now then [] else s.queue.opQueue t
  mem_heap_iff : ∀ e, e ∈ q'.heap ↔ e ∈ s.queue.heap ∧ now < e.time
  pending_perm : (ops ++ q'.pending).Perm s.queue.pending

/-- `get_ready_timers` takes the timers that have expired, and no others. -/
lemma Sound.getReadyTimers (h : Sound s) (now : T) :
    ∃ ts, Checked s (s.queue.getReadyTimers now).1 now (s.queue.getReadyTimers now).2 ts := by
  have hvalid := h.valid
  rcases hdown : s.shutdown
  · rw [Valid, hdown, if_neg Bool.false_ne_true] at hvalid
    obtain ⟨⟨es, hes⟩, hdone⟩ := hvalid.getReadyTimers now
    have hmem : ∀ e ∈ es, e ∈ s.queue.heap := fun e he =>
      hes.perm.mem_iff.mpr (List.mem_append_left _ he)
    have hexpiry : ∀ e ∈ es, (s.impl e.timer).expiry = e.time := fun e he =>
      ((h.mem_heap e.timer e.time).mp (hmem e he)).2
    have hmemIff : ∀ t, t ∈ es.map HeapEntry.timer ↔
        s.queue.opQueue t ≠ [] ∧ (s.impl t).expiry ≤ now := by
      intro t
      rw [List.mem_map]
      constructor
      · rintro ⟨e, he, rfl⟩
        rw [hexpiry e he]
        exact ⟨((h.mem_heap _ _).mp (hmem e he)).1, WithTop.coe_le_coe.mpr (hes.le_now e he)⟩
      · rintro ⟨hne, hle⟩
        obtain ⟨d, hd⟩ := WithTop.ne_top_iff_exists.mp (ne_top_of_le_ne_top WithTop.coe_ne_top hle)
        have hentry := (h.mem_heap t d).mpr ⟨hne, hd.symm⟩
        rcases List.mem_append.mp (hes.perm.mem_iff.mp hentry) with he | he
        · exact ⟨_, he, rfl⟩
        · rw [← hd, WithTop.coe_le_coe] at hle
          exact absurd (hdone _ he) hle.not_gt
    refine ⟨es.map HeapEntry.timer, ?_, ?_, ?_, ?_, hmemIff, fun t => ?_, fun e => ?_,
      hes.pending_perm⟩
    · rw [Valid, hdown, if_neg Bool.false_ne_true]
      exact hes.inv
    · rw [List.flatMap_map]
      exact hes.ops_eq
    · have hnodup := (hes.perm.map HeapEntry.timer).nodup_iff.mp hvalid.indexed.nodup
      rw [List.map_append] at hnodup
      exact hnodup.of_append_left
    · rw [List.pairwise_map]
      refine hes.sorted.imp_of_mem fun ha hb hle => ?_
      rw [hexpiry _ ha, hexpiry _ hb]
      exact WithTop.coe_le_coe.mpr hle
    · rw [hes.opQueue_eq]
      by_cases hle : (s.impl t).expiry ≤ now
      · rw [if_pos hle]
        split_ifs with ht
        · rfl
        · by_contra hne
          exact ht ((hmemIff t).mpr ⟨hne, hle⟩)
      · rw [if_neg hle, if_neg fun ht => hle ((hmemIff t).mp ht).2]
    · rw [hes.perm.mem_iff, List.mem_append]
      constructor
      · exact fun he => ⟨Or.inr he, hdone e he⟩
      · rintro ⟨he | he, hlt⟩
        · exact absurd (hes.le_now e he) hlt.not_ge
        · exact he
  · rw [Valid, if_pos hdown] at hvalid
    rw [hvalid.getReadyTimers]
    refine ⟨[], h.valid, rfl, List.nodup_nil, List.Pairwise.nil, fun t => ?_, fun t => ?_,
      fun e => ?_, List.Perm.refl _⟩
    · simp [hvalid.opQueue_eq]
    · rw [hvalid.opQueue_eq, ite_self]
    · simp [hvalid.heap_eq]

/-- Checking the timers keeps them in order. -/
lemma Sound.checkTimers (h : Sound s) (now later set : T) :
    Sound (s.checkTimers clock now later set).1 := by
  obtain ⟨ts, hts⟩ := h.getReadyTimers now
  refine ⟨hts.valid, fun t d => ?_, fun t ht => ?_⟩
  · change _ ∈ (s.queue.getReadyTimers now).1.heap ↔
      (s.queue.getReadyTimers now).1.opQueue t ≠ [] ∧ (s.impl t).expiry = d
    rw [hts.mem_heap_iff, h.mem_heap, hts.opQueue_eq]
    constructor
    · rintro ⟨⟨hne, hexpiry⟩, hlt⟩
      rw [hexpiry, if_neg (WithTop.coe_le_coe.not.mpr hlt.not_ge)]
      exact ⟨hne, rfl⟩
    · rintro ⟨hne, hexpiry⟩
      rw [hexpiry] at hne ⊢
      split_ifs at hne with hle
      · exact absurd rfl hne
      · exact ⟨⟨hne, rfl⟩, not_le.mp (WithTop.coe_le_coe.not.mp hle)⟩
  · change (s.queue.getReadyTimers now).1.opQueue t ≠ [] at ht
    rw [hts.opQueue_eq] at ht
    split_ifs at ht
    · exact absurd rfl ht
    · exact h.might t ht

/-- `timer_fd_` is always set when the timers have been checked. -/
lemma Sound.armed_checkTimers (h : Sound s) (now later set : T) :
    Armed clock (s.checkTimers clock now later set).1 := by
  obtain ⟨ts, hts⟩ := h.getReadyTimers now
  have hvalid := hts.valid
  rcases hdown : s.shutdown
  · rw [Valid, hdown, if_neg Bool.false_ne_true] at hvalid
    exact armed_updateTimeout hvalid rfl
  · rw [Valid, if_pos hdown] at hvalid
    exact armed_of_cleared clock hvalid

/-- Checking the timers ends the waits whose expiry has been reached. -/
lemma Past.checkTimers (hpast : Past s out) (h : Sound s) (now later set : T) :
    Past (s.checkTimers clock now later set).1
      (out ++ (s.checkTimers clock now later set).2.map (.expired · now)) := by
  obtain ⟨ts, hts⟩ := h.getReadyTimers now
  have hexpired : EndedBy fun op : WaitOp ω κ => TimerOutput.expired op now :=
    ⟨fun _ => rfl, fun _ => rfl⟩
  refine ⟨?_, fun t op hop => ?_, fun t => ?_, fun op now' hmem => ?_⟩
  · rw [List.filterMap_append, List.filterMap_append, hexpired.filterMap_startedOp,
      hexpired.filterMap_endedOp, List.append_nil, List.append_assoc]
    exact hpast.conserved.trans (hts.pending_perm.symm.append_left _)
  · change op ∈ (s.queue.getReadyTimers now).1.opQueue t at hop
    rw [hts.opQueue_eq] at hop
    split_ifs at hop
    · cases hop
    · exact List.mem_append_left _ (hpast.started t op hop)
  · change ((s.queue.getReadyTimers now).1.opQueue t).Sublist _
    rw [hts.opQueue_eq, List.filterMap_append, hexpired.filterMap_startedOp, List.append_nil]
    split_ifs
    · exact List.nil_sublist _
    · exact hpast.order t
  · rcases List.mem_append.mp hmem with hold | hnew
    · obtain ⟨d, hd, hstarted⟩ := hpast.punctual op now' hold
      exact ⟨d, hd, List.mem_append_left _ hstarted⟩
    · obtain ⟨op', hop', heq⟩ := List.mem_map.mp hnew
      cases heq
      change op ∈ (s.queue.getReadyTimers now).2 at hop'
      rw [hts.ops_eq, List.mem_flatMap] at hop'
      obtain ⟨t, ht, hop⟩ := hop'
      obtain ⟨d, hd, hle⟩ := WithTop.le_coe_iff.mp ((hts.mem_iff t).mp ht).2
      have hstarted := hpast.started t op hop
      rw [hd] at hstarted
      exact ⟨d, hle, List.mem_append_left _ hstarted⟩

/-- When the reactor shuts down, no timer is left. -/
lemma Sound.cleared_shutDown (h : Sound s) : s.shutDown.1.queue.Cleared := by
  have hvalid := h.valid
  rcases hdown : s.shutdown
  · rw [Valid, hdown, if_neg Bool.false_ne_true] at hvalid
    exact hvalid.getAllTimers.1
  · rw [Valid, if_pos hdown] at hvalid
    exact hvalid.getAllTimers.1

/-- All operations that wait are destroyed when the reactor shuts down. -/
lemma Past.shutDown (hpast : Past s out) (h : Sound s) :
    Past s.shutDown.1 (out ++ s.shutDown.2.map .abandoned) := by
  have habandoned : EndedBy (TimerOutput.abandoned (T := T) (ω := ω) (κ := κ)) :=
    ⟨fun _ => rfl, fun _ => rfl⟩
  have hcleared := h.cleared_shutDown
  refine ⟨?_, fun t op hop => ?_, fun t => ?_, fun op now hmem => ?_⟩
  · rw [List.filterMap_append, List.filterMap_append, habandoned.filterMap_startedOp,
      habandoned.filterMap_endedOp, List.append_nil, pending_eq_nil hcleared, List.append_nil]
    exact hpast.conserved
  · rw [hcleared.opQueue_eq] at hop
    cases hop
  · rw [hcleared.opQueue_eq]
    exact List.nil_sublist _
  · rcases List.mem_append.mp hmem with hold | hnew
    · obtain ⟨d, hd, hstarted⟩ := hpast.punctual op now hold
      exact ⟨d, hd, List.mem_append_left _ hstarted⟩
    · obtain ⟨_, -, heq⟩ := List.mem_map.mp hnew
      cases heq

end TimerService

end Asio

end AsioStudy
