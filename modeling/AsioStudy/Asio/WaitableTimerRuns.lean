import AsioStudy.Asio.WaitableTimer
import AsioStudy.Foundation.Machine

/-!
# What holds of the timers of a context at any time

Whatever the program does with its timers and whenever the reactor looks after them:
`waits_end_once` says that every wait ends exactly once and never too early, `checkTimers_complete`
that none is forgotten when the reactor checks its timers, `ready_le_expiry` that the reactor does
not sleep past the first one, up to a microsecond and the time that it takes to set `timer_fd_`,
`cancel_complete` that cancelling leaves nothing behind, and `heap_of_run` that the heap is what the
rest of the code takes it for.
-/

namespace AsioStudy

namespace Asio

namespace TimerService

variable {T τ ω κ : Type*} [LinearOrder T] [DecidableEq τ] [DecidableEq κ]
  {clock : Clock T} {s s' : TimerService T τ ω κ} {es : List (TimerEvent T τ ω κ)}
  {out o : List (TimerOutput T ω κ)}

omit [DecidableEq τ] [DecidableEq κ] in
/-- A context in which nothing has happened. -/
lemma sound_init (clock : Clock T) : Sound (init clock : TimerService T τ ω κ) where
  valid := TimerQueue.inv_empty
  mem_heap t d := by simp [init, TimerQueue.empty]
  might t ht := absurd rfl ht

omit [DecidableEq τ] [DecidableEq κ] in
/-- Nothing has happened yet. -/
lemma past_init (clock : Clock T) : Past (init clock : TimerService T τ ω κ) [] where
  conserved := List.Perm.refl _
  started t op hop := by simp [init, TimerQueue.empty] at hop
  order t := List.nil_sublist _
  punctual op now hmem := by simp at hmem

omit [DecidableEq τ] [DecidableEq κ] in
/-- There is nothing yet that `timer_fd_` must be set for. -/
lemma armed_init (clock : Clock T) : Armed clock (init clock : TimerService T τ ω κ) := by
  intro e he
  simp [init, TimerQueue.empty] at he

omit [DecidableEq κ] in
/-- Members of a timer change on which no operation waits any more. -/
lemma Sound.cancel_setImpl (h : Sound s) (ha : Armed clock s) (hpast : Past s out) (t : τ)
    (impl : Implementation T) :
    Sound ((s.cancel t).1.setImpl t impl) ∧ Armed clock ((s.cancel t).1.setImpl t impl) ∧
      Past ((s.cancel t).1.setImpl t impl) (out ++ (s.cancel t).2.map .aborted) := by
  obtain ⟨htaken, hwithdrawn⟩ := h.cancel t
  rw [htaken]
  have hset := hwithdrawn.setImpl impl
  exact ⟨hset.sound h, hset.armed ha, hset.past hpast⟩

/-- **One event** keeps the timers in order and `timer_fd_` set in time, and its outputs agree with
the queue. -/
theorem step_keeps {e : TimerEvent T τ ω κ} (hstep : step clock s e = some (s', o))
    (h : Sound s) (ha : Armed clock s) (hpast : Past s out) :
    Sound s' ∧ Armed clock s' ∧ Past s' (out ++ o) := by
  cases e with
  | asyncWait t op now set =>
    obtain ⟨rfl, rfl⟩ := Prod.mk.inj (Option.some.inj hstep)
    exact ⟨h.asyncWait t op now set, ha.asyncWait h t op now set,
      hpast.asyncWait h t op now set⟩
  | expiresAt t expiryTime =>
    obtain ⟨rfl, rfl⟩ := Prod.mk.inj (Option.some.inj hstep)
    exact h.cancel_setImpl ha hpast t _
  | cancel t =>
    obtain ⟨rfl, rfl⟩ := Prod.mk.inj (Option.some.inj hstep)
    obtain ⟨htaken, hwithdrawn⟩ := h.cancel t
    rw [htaken]
    exact ⟨hwithdrawn.sound h, hwithdrawn.armed ha, hwithdrawn.past hpast⟩
  | cancelOne t =>
    obtain ⟨rfl, rfl⟩ := Prod.mk.inj (Option.some.inj hstep)
    obtain ⟨htaken, hwithdrawn⟩ := h.cancelOne t
    rw [htaken]
    exact ⟨hwithdrawn.sound h, hwithdrawn.armed ha, hwithdrawn.past hpast⟩
  | cancelByKey t key =>
    obtain ⟨rfl, rfl⟩ := Prod.mk.inj (Option.some.inj hstep)
    obtain ⟨htaken, hwithdrawn⟩ := h.cancelByKey t key
    rw [htaken]
    exact ⟨hwithdrawn.sound h, hwithdrawn.armed ha, hwithdrawn.past hpast⟩
  | move target source =>
    rw [step] at hstep
    split_ifs at hstep with hne
    obtain ⟨rfl, rfl⟩ := Prod.mk.inj (Option.some.inj hstep)
    obtain ⟨hsound, harmed, hout⟩ := h.move hne
    exact ⟨hsound, harmed ha, hout _ hpast⟩
  | renew t =>
    obtain ⟨rfl, rfl⟩ := Prod.mk.inj (Option.some.inj hstep)
    exact h.cancel_setImpl ha hpast t _
  | checkTimers now later set =>
    obtain ⟨rfl, rfl⟩ := Prod.mk.inj (Option.some.inj hstep)
    exact ⟨h.checkTimers now later set, h.armed_checkTimers now later set,
      hpast.checkTimers h now later set⟩
  | shutdown =>
    obtain ⟨rfl, rfl⟩ := Prod.mk.inj (Option.some.inj hstep)
    have hcleared := h.cleared_shutDown
    exact ⟨sound_of_cleared rfl hcleared, armed_of_cleared clock hcleared, hpast.shutDown h⟩

/-- **Any sequence of events** keeps the timers in order and `timer_fd_` set in time. -/
theorem run_keeps (hrun : Machine.run (step clock) (init clock) es = some (s, out)) :
    Sound s ∧ Armed clock s ∧ Past s out :=
  Machine.run_history (I := fun t _ out => Sound t ∧ Armed clock t ∧ Past t out) hrun
    ⟨sound_init clock, armed_init clock, past_init clock⟩
    fun _ _ _ _ _ _ ⟨hsound, ha, hpast⟩ hstep => step_keeps hstep hsound ha hpast

/-! ## The results -/

/-- Two timers on which an operation waits, the second one of which expires first. -/
def twoTimers : List (TimerEvent ℕ Bool ℕ ℕ) :=
  [.expiresAt false 5, .asyncWait false ⟨1, none⟩ 0 0, .expiresAt true 3,
    .asyncWait true ⟨2, none⟩ 0 0]

/-- A clock that counts seconds. -/
def secondsClock : Clock ℕ :=
  ⟨0, fun t u => (t : ℤ) - u, fun t u => ((t : ℤ) - u) * 1000000⟩

/-- The events are possible. -/
lemma run_twoTimers :
    ∃ s out, Machine.run (step secondsClock) (init secondsClock) twoTimers = some (s, out) ∧
      s.queue.opQueue true ≠ [] ∧ s.shutdown = false := by
  obtain ⟨⟨s, out⟩, hrun⟩ := Option.isSome_iff_exists.mp
    (show (Machine.run (step secondsClock) (init secondsClock) twoTimers).isSome by decide +kernel)
  refine ⟨s, out, hrun, ?_, ?_⟩
  · have hqueue : ((Machine.run (step secondsClock) (init secondsClock) twoTimers).get
        (by decide +kernel)).1.queue.opQueue true ≠ [] := by decide +kernel
    simp only [hrun, Option.get_some] at hqueue
    exact hqueue
  · have hdown : ((Machine.run (step secondsClock) (init secondsClock) twoTimers).get
        (by decide +kernel)).1.shutdown = false := by decide +kernel
    simp only [hrun, Option.get_some] at hdown
    exact hdown

/-- **Every wait ends exactly once, and never too early.**  The waits that were started are those
that have ended, by expiring or by being cancelled, and those that are pending; there are none of the
latter when the reactor has shut down.  If a wait has expired at some time, then it was started when
the expiry of its timer was not later. -/
theorem waits_end_once (hrun : Machine.run (step clock) (init clock) es = some (s, out)) :
    (out.filterMap startedOp).Perm (out.filterMap endedOp ++ s.queue.pending) ∧
      (s.shutdown = true → s.queue.pending = []) ∧
      ∀ op now, .expired op now ∈ out → ∃ d ≤ now, .started op d ∈ out := by
  obtain ⟨hsound, -, hpast⟩ := run_keeps hrun
  refine ⟨hpast.conserved, fun hdown => ?_, hpast.punctual⟩
  have hvalid := hsound.valid
  rw [Valid, if_pos hdown] at hvalid
  exact pending_eq_nil hvalid

/-- Both waits are pending, and the second one expires. -/
theorem waits_end_once_twoTimers :
    ∃ s out, Machine.run (step secondsClock) (init secondsClock)
        (twoTimers ++ [.checkTimers 4 4 4]) = some (s, out) ∧
      (out.filterMap startedOp).Perm (out.filterMap endedOp ++ s.queue.pending) ∧
        (s.shutdown = true → s.queue.pending = []) ∧
        ∀ op now, .expired op now ∈ out → ∃ d ≤ now, .started op d ∈ out := by
  obtain ⟨⟨s, out⟩, hrun⟩ := Option.isSome_iff_exists.mp
    (show (Machine.run (step secondsClock) (init secondsClock)
      (twoTimers ++ [.checkTimers 4 4 4])).isSome by decide +kernel)
  exact ⟨s, out, hrun, waits_end_once hrun⟩

/-- **No wait is forgotten.**  When the reactor checks its timers it completes all operations that
wait on the timers whose expiry has been reached: timer by timer in the order of the expiries, and
for each timer in the order in which they were started.  The others go on waiting. -/
theorem checkTimers_complete (hrun : Machine.run (step clock) (init clock) es = some (s, out))
    (now later set : T) (hstep : step clock s (.checkTimers now later set) = some (s', o)) :
    ∃ ts : List τ, ts.Nodup ∧
      (∀ t, t ∈ ts ↔ s.queue.opQueue t ≠ [] ∧ (s.impl t).expiry ≤ now) ∧
      ts.Pairwise (fun t u => (s.impl t).expiry ≤ (s.impl u).expiry) ∧
      o = (ts.flatMap s.queue.opQueue).map (.expired · now) ∧
      (∀ t, (s.queue.opQueue t).Sublist (out.filterMap startedOp)) ∧
      ∀ t, s'.queue.opQueue t = if (s.impl t).expiry ≤ now then [] else s.queue.opQueue t := by
  obtain ⟨hsound, -, hpast⟩ := run_keeps hrun
  obtain ⟨ts, hts⟩ := hsound.getReadyTimers now
  obtain ⟨rfl, rfl⟩ := Prod.mk.inj (Option.some.inj hstep)
  refine ⟨ts, hts.nodup, hts.mem_iff, hts.sorted, ?_, hpast.order, hts.opQueue_eq⟩
  rw [← hts.ops_eq]
  rfl

/-- The reactor checks the timers after four seconds. -/
theorem checkTimers_complete_twoTimers :
    ∃ s out, Machine.run (step secondsClock) (init secondsClock) twoTimers = some (s, out) ∧
      ∃ s' o, step secondsClock s (.checkTimers 4 4 4) = some (s', o) ∧
      ∃ ts : List Bool, ts.Nodup ∧
        (∀ t, t ∈ ts ↔ s.queue.opQueue t ≠ [] ∧ (s.impl t).expiry ≤ (4 : ℕ)) ∧
        ts.Pairwise (fun t u => (s.impl t).expiry ≤ (s.impl u).expiry) ∧
        o = (ts.flatMap s.queue.opQueue).map (.expired · 4) ∧
        (∀ t, (s.queue.opQueue t).Sublist (out.filterMap startedOp)) ∧
        ∀ t, s'.queue.opQueue t =
          if (s.impl t).expiry ≤ (4 : ℕ) then [] else s.queue.opQueue t := by
  obtain ⟨s, out, hrun, -⟩ := run_twoTimers
  exact ⟨s, out, hrun, _, _, rfl, checkTimers_complete hrun 4 4 4 rfl⟩

/-- **The reactor does not sleep too long.**  Whenever an operation waits on a timer with a finite
expiry, `timer_fd_` is set, for five minutes at most.  If the expiry had been reached when the clock
was read for the last setting, then the descriptor is ready at once.  Otherwise it is ready at the
expiry, or a microsecond after the clock was read if the expiry is earlier than that, both later by
the time that has passed before the descriptor was set. -/
theorem ready_le_expiry {μ : T → ℚ} (hclock : clock.Measures μ)
    (hrun : Machine.run (step clock) (init clock) es = some (s, out)) {t : τ} {d : T}
    (ht : s.queue.opQueue t ≠ []) (hd : (s.impl t).expiry = d) :
    ∃ setting, s.timerFd = some setting ∧ setting.usec ≤ 300000000 ∧
      (d ≤ setting.now → setting.usec = 0) ∧
      setting.ready μ ≤ max (μ d) (μ setting.now + 1) + (μ setting.set - μ setting.now) := by
  obtain ⟨hsound, ha, -⟩ := run_keeps hrun
  obtain ⟨setting, htimer, first, hfirst, husec⟩ := ha ⟨d, t⟩ ((hsound.mem_heap t d).mpr ⟨ht, hd⟩)
  refine ⟨setting, htimer, ?_, fun hle => ?_, ?_⟩
  · rw [husec]
    exact clock.toUsec_le_max first setting.now (by decide)
  · rw [husec]
    exact hclock.toUsec_eq_zero (hfirst.trans hle) _
  · have hsleep : (clock.toUsec first setting.now fiveMinutes : ℚ) ≤
        max (μ d - μ setting.now) 1 := hclock.toUsec_le hfirst fiveMinutes
    rw [Setting.ready, husec]
    calc μ setting.set + (clock.toUsec first setting.now fiveMinutes : ℚ)
        ≤ μ setting.set + max (μ d - μ setting.now) 1 := by gcongr
      _ = max (μ d) (μ setting.now + 1) + (μ setting.set - μ setting.now) := by
          rw [← max_add_add_right, ← max_add_add_left]
          congr 1 <;> ring

/-- A timer that expires in half a microsecond, for which `timer_fd_` is set a little later. -/
def halfMicrosecond : List (TimerEvent Ticks Bool ℕ ℕ) :=
  [.expiresAt false (⟨500, by decide⟩ : Ticks),
    .asyncWait false ⟨1, none⟩ nanosecondClock.epoch ⟨200, by decide⟩]

/-- The reactor is woken after a whole microsecond. -/
theorem ready_le_expiry_halfMicrosecond :
    ∃ s out, Machine.run (step nanosecondClock) (init nanosecondClock) halfMicrosecond =
        some (s, out) ∧
      ∃ setting, s.timerFd = some setting ∧ setting.usec ≤ 300000000 ∧
        ((⟨500, by decide⟩ : Ticks) ≤ setting.now → setting.usec = 0) ∧
        setting.ready microseconds ≤
          max (microseconds ⟨500, by decide⟩) (microseconds setting.now + 1) +
            (microseconds setting.set - microseconds setting.now) := by
  obtain ⟨⟨s, out⟩, hrun⟩ := Option.isSome_iff_exists.mp
    (show (Machine.run (step nanosecondClock) (init nanosecondClock) halfMicrosecond).isSome
      by decide +kernel)
  have hpending : (Machine.run (step nanosecondClock) (init nanosecondClock)
      halfMicrosecond).map (fun r => (r.1.queue.opQueue false, (r.1.impl false).expiry)) =
        some ([⟨1, none⟩], ((⟨500, by decide⟩ : Ticks) : WithTop Ticks)) := by decide +kernel
  rw [hrun, Option.map_some, Option.some.injEq, Prod.mk.injEq] at hpending
  obtain ⟨hqueue, hexpiry⟩ := hpending
  have hwaits : s.queue.opQueue false ≠ [] := by
    rw [hqueue]
    exact List.cons_ne_nil _ _
  exact ⟨s, out, hrun, ready_le_expiry measures_nanosecondClock hrun hwaits hexpiry⟩

/-- **Cancelling leaves nothing behind.**  `cancel` and `expires_at` complete all operations that wait
on the timer, in the order in which they were started, and `cancel_one` the first one, although they
do not even ask the reactor when the flag of the timer is not set. -/
theorem cancel_complete (hrun : Machine.run (step clock) (init clock) es = some (s, out)) (t : τ)
    (expiryTime : WithTop T) :
    (s.queue.opQueue t).Sublist (out.filterMap startedOp) ∧
      (∃ s', step clock s (.cancel t) = some (s', (s.queue.opQueue t).map .aborted) ∧
        s'.queue.opQueue = Function.update s.queue.opQueue t []) ∧
      (∃ s', step clock s (.expiresAt t expiryTime) =
          some (s', (s.queue.opQueue t).map .aborted) ∧
        s'.queue.opQueue = Function.update s.queue.opQueue t [] ∧
        (s'.impl t).expiry = expiryTime) ∧
      ∃ s', step clock s (.cancelOne t) = some (s', ((s.queue.opQueue t).take 1).map .aborted) ∧
        s'.queue.opQueue = Function.update s.queue.opQueue t ((s.queue.opQueue t).drop 1) := by
  obtain ⟨hsound, -, hpast⟩ := run_keeps hrun
  obtain ⟨htaken, hwithdrawn⟩ := hsound.cancel t
  obtain ⟨htakenOne, hwithdrawnOne⟩ := hsound.cancelOne t
  refine ⟨hpast.order t, ⟨_, ?_, hwithdrawn.opQueue_eq⟩,
    ⟨(s.expiresAt t expiryTime).1, ?_, hwithdrawn.opQueue_eq, ?_⟩,
    ⟨_, ?_, hwithdrawnOne.opQueue_eq⟩⟩
  · rw [← htaken]
    rfl
  · rw [← htaken]
    rfl
  · change (Function.update (s.cancel t).1.impl t _ t).expiry = expiryTime
    rw [Function.update_self]
  · rw [← htakenOne]
    rfl

/-- The second timer is cancelled. -/
theorem cancel_complete_twoTimers :
    ∃ s out, Machine.run (step secondsClock) (init secondsClock) twoTimers = some (s, out) ∧
      s.queue.opQueue true ≠ [] ∧
      (s.queue.opQueue true).Sublist (out.filterMap startedOp) ∧
      (∃ s', step secondsClock s (.cancel true) =
          some (s', (s.queue.opQueue true).map .aborted) ∧
        s'.queue.opQueue = Function.update s.queue.opQueue true []) ∧
      (∃ s', step secondsClock s (.expiresAt true ⊤) =
          some (s', (s.queue.opQueue true).map .aborted) ∧
        s'.queue.opQueue = Function.update s.queue.opQueue true [] ∧
        (s'.impl true).expiry = ⊤) ∧
      ∃ s', step secondsClock s (.cancelOne true) =
          some (s', ((s.queue.opQueue true).take 1).map .aborted) ∧
        s'.queue.opQueue =
          Function.update s.queue.opQueue true ((s.queue.opQueue true).drop 1) := by
  obtain ⟨s, out, hrun, hqueue, -⟩ := run_twoTimers
  exact ⟨s, out, hrun, hqueue, cancel_complete hrun true ⊤⟩

/-- **The heap is right at any time.**  While the reactor runs, no entry of the heap is earlier than
its parent, each timer knows the index of its entry, and the entries are exactly those of the timers
on which operations wait, with their finite expiries. -/
theorem heap_of_run (hrun : Machine.run (step clock) (init clock) es = some (s, out))
    (hdown : s.shutdown = false) :
    HeapOrder.IsHeap (timeAt s.queue.heap) ∧ s.queue.Indexed ∧
      ∀ (t : τ) (d : T), ⟨d, t⟩ ∈ s.queue.heap ↔ s.queue.opQueue t ≠ [] ∧ (s.impl t).expiry = d := by
  obtain ⟨hsound, -⟩ := run_keeps hrun
  have hvalid := hsound.valid
  rw [Valid, hdown, if_neg Bool.false_ne_true] at hvalid
  exact ⟨hvalid.isHeap, hvalid.indexed, hsound.mem_heap⟩

/-- The heap of the two timers. -/
theorem heap_of_run_twoTimers :
    ∃ s : TimerService ℕ Bool ℕ ℕ, s.queue.opQueue true ≠ [] ∧
      HeapOrder.IsHeap (timeAt s.queue.heap) ∧ s.queue.Indexed ∧
        ∀ (t : Bool) (d : ℕ), ⟨d, t⟩ ∈ s.queue.heap ↔
          s.queue.opQueue t ≠ [] ∧ (s.impl t).expiry = d := by
  obtain ⟨s, out, hrun, hqueue, hdown⟩ := run_twoTimers
  exact ⟨s, hqueue, heap_of_run hrun hdown⟩

end TimerService

end Asio

end AsioStudy
