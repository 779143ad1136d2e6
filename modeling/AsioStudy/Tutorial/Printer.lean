import AsioStudy.Asio.StrandDriver

/-!
# Two timers that share a counter

The program `timer_5_synchronising_completion_handlers`: two timers, whose handlers print a counter,
increment it and wait again, until the counter is ten.  The handlers share the counter and the
output, and are bound to one strand; the context is run by any number of threads.

The main result is `print_run`: whatever the threads and the clock do, the lines that are printed
are those of one handler after another, the counter takes each value from zero to nine once, and the
program ends.
-/

namespace AsioStudy

namespace Tutorial

open SerialQueue (Code submitted begun)

/-- `timer1_` and `timer2_`, and with them the handlers `print1` and `print2`. -/
inductive Timer where
  | timer1
  | timer2
  deriving DecidableEq, Repr

/-- The lines that the handler of a timer prints. -/
inductive Line where
  /-- `count:` with the counter. -/
  | count (k : Timer) (n : ℕ)
  /-- The expiry of the timer is moved. -/
  | expiresAt (k : Timer)
  /-- The timer is waited for. -/
  | asyncWait (k : Timer)
  deriving DecidableEq, Repr

/-- `class printer`, with what the handlers have printed. -/
structure Printer where
  /-- `count_`. -/
  count : ℕ
  /-- The expiry of each timer, in seconds. -/
  expiry : Timer → ℕ
  /-- How often each timer was waited for. -/
  waits : Timer → ℕ
  /-- What was printed. -/
  output : List Line

/-- The constructor of `printer`. -/
def Printer.init : Printer := ⟨0, fun _ => 1, fun _ => 1, []⟩

/-- Where a handler is in its body.  `++count_` reads the counter and writes it. -/
inductive Position where
  | check (k : Timer)
  | printCount (k : Timer)
  | load (k : Timer)
  | store (k : Timer) (n : ℕ)
  | printExpiresAt (k : Timer)
  | expiresAt (k : Timer)
  | printAsyncWait (k : Timer)
  | asyncWait (k : Timer)
  | done
  deriving DecidableEq, Repr

/-- A line is printed. -/
def Printer.print (b : Printer) (line : Line) : Printer := { b with output := b.output ++ [line] }

/-- The next access of `print1` or `print2` to the printer. -/
def printStep : Position → Printer → Option (Position × Printer)
  | .check k, b => if b.count < 10 then some (.printCount k, b) else none
  | .printCount k, b => some (.load k, b.print (.count k b.count))
  | .load k, b => some (.store k b.count, b)
  | .store k n, b => some (.printExpiresAt k, { b with count := n + 1 })
  | .printExpiresAt k, b => some (.expiresAt k, b.print (.expiresAt k))
  | .expiresAt k, b =>
    some (.printAsyncWait k, { b with expiry := Function.update b.expiry k (b.expiry k + 1) })
  | .printAsyncWait k, b => some (.asyncWait k, b.print (.asyncWait k))
  | .asyncWait k, b =>
    some (.done, { b with waits := Function.update b.waits k (b.waits k + 1) })
  | .done, _ => none

/-- How many accesses are left. -/
def Position.rank : Position → ℕ
  | .check _ => 8
  | .printCount _ => 7
  | .load _ => 6
  | .store _ _ => 5
  | .printExpiresAt _ => 4
  | .expiresAt _ => 3
  | .printAsyncWait _ => 2
  | .asyncWait _ => 1
  | .done => 0

/-- The handlers `print1` and `print2`. -/
def printCode : Code Timer Position Printer where
  enter := .check
  access := printStep
  rank := Position.rank
  rank_lt := by
    intro r r' b b' h
    rcases r with k | k | k | ⟨k, n⟩ | k | k | k | k | _
    · simp only [printStep, Option.ite_none_right_eq_some, Option.some.injEq] at h
      obtain ⟨-, h⟩ := h
      cases h
      exact Nat.lt_succ_self 7
    all_goals cases h
    all_goals exact Nat.lt_succ_self _

/-- A wait that is outstanding completes, because the timer has expired or was cancelled: the
handlers do not look at the error code.  `fired` counts the waits of each timer that have
completed. -/
def expire (fired : Timer → ℕ) (object : Unit → Printer) (k : Timer) :
    Option ((Timer → ℕ) × Option (Unit × Timer)) :=
  if fired k < (object ()).waits k then
    some (Function.update fired k (fired k + 1), some ((), k))
  else none

/-- The program, run by the threads `Θ`. -/
def step {Θ : Type*} [DecidableEq Θ] [Fintype Θ] :
    Strand.Driver.State Θ Unit Timer Position Printer (Timer → ℕ) →
      Strand.Driver.Event Θ Unit Timer Timer →
      Option (Strand.Driver.State Θ Unit Timer Position Printer (Timer → ℕ) ×
        List (Strand.Driver.Mark Unit Timer)) :=
  Strand.Driver.step printCode expire

/-- The program when the constructor of `printer` has started both waits. -/
def start (Θ : Type*) : Strand.Driver.State Θ Unit Timer Position Printer (Timer → ℕ) :=
  .init (fun _ => .init) fun _ => 0

/-! ## A handler as a whole -/

/-- What a handler does if it is not interrupted. -/
def Printer.tick (b : Printer) (k : Timer) : Printer :=
  if b.count < 10 then
    { count := b.count + 1
      expiry := Function.update b.expiry k (b.expiry k + 1)
      waits := Function.update b.waits k (b.waits k + 1)
      output := b.output ++ [.count k b.count, .expiresAt k, .asyncWait k] }
  else b

/-- A handler as a whole does what its body says. -/
lemma exec_eq_tick (b : Printer) (k : Timer) : printCode.exec b k = b.tick k := by
  rw [Code.exec, Printer.tick]
  by_cases hlt : b.count < 10
  · have hcheck : printCode.access (.check k) b = some (.printCount k, b) := if_pos hlt
    rw [if_pos hlt, show printCode.enter k = .check k from rfl,
      SerialQueue.complete_of_some hcheck,
      SerialQueue.complete_of_some (c := printCode) (r := .printCount k) rfl,
      SerialQueue.complete_of_some (c := printCode) (r := .load k) rfl,
      SerialQueue.complete_of_some (c := printCode) (r := .store k _) rfl,
      SerialQueue.complete_of_some (c := printCode) (r := .printExpiresAt k) rfl,
      SerialQueue.complete_of_some (c := printCode) (r := .expiresAt k) rfl,
      SerialQueue.complete_of_some (c := printCode) (r := .printAsyncWait k) rfl,
      SerialQueue.complete_of_some (c := printCode) (r := .asyncWait k) rfl,
      SerialQueue.complete_of_none (c := printCode) (r := .done) rfl]
    simp [Printer.print]
  · have hcheck : printCode.access (.check k) b = none := if_neg hlt
    rw [if_neg hlt, show printCode.enter k = .check k from rfl,
      SerialQueue.complete_of_none hcheck]

/-- The lines of the handlers of some timers, one after another, with the counter from `n` on. -/
def transcript (n : ℕ) : List Timer → List Line
  | [] => []
  | k :: ks => [.count k n, .expiresAt k, .asyncWait k] ++ transcript (n + 1) ks

/-- The lines of one handler more. -/
lemma transcript_concat (n : ℕ) (ks : List Timer) (k : Timer) :
    transcript n (ks ++ [k]) =
      transcript n ks ++ [.count k (n + ks.length), .expiresAt k, .asyncWait k] := by
  induction ks generalizing n with
  | nil => rfl
  | cons k' ks ih =>
    rw [List.cons_append, transcript, ih, transcript, List.append_assoc, List.length_cons,
      Nat.add_assoc, Nat.add_comm 1]

/-- What the printer is after the handlers of some timers: those after the tenth have done
nothing. -/
structure Ticked (ks : List Timer) (b : Printer) : Prop where
  count_eq : b.count = min 10 ks.length
  expiry_eq : ∀ k, b.expiry k = 1 + (ks.take 10).count k
  waits_eq : ∀ k, b.waits k = 1 + (ks.take 10).count k
  output_eq : b.output = transcript 0 (ks.take 10)

/-- One handler after another. -/
lemma ticked_foldl (ks : List Timer) : Ticked ks (ks.foldl printCode.exec .init) := by
  induction ks using List.reverseRecOn with
  | nil => exact ⟨rfl, fun _ => rfl, fun _ => rfl, rfl⟩
  | append_singleton ks k ih =>
    obtain ⟨hcount, hexpiry, hwaits, houtput⟩ := ih
    rw [List.foldl_append, List.foldl_cons, List.foldl_nil, exec_eq_tick, Printer.tick]
    by_cases hlt : ks.length < 10
    · -- the counter is the number of the handlers
      have htake : ks.take 10 = ks := List.take_of_length_le hlt.le
      have htake' : (ks ++ [k]).take 10 = ks ++ [k] :=
        List.take_of_length_le (by rw [List.length_append]; exact hlt)
      have hcount' : (ks.foldl printCode.exec .init).count = ks.length := by omega
      rw [if_pos (by omega)]
      rw [htake] at hexpiry hwaits houtput
      refine ⟨?_, fun k' => ?_, fun k' => ?_, ?_⟩
      · simp only [List.length_append, List.length_singleton]
        omega
      · rw [htake', List.count_append, List.count_singleton']
        by_cases hk : k' = k
        · subst hk
          simp [hexpiry, Nat.add_assoc]
        · simp [hexpiry, hk, Ne.symm hk]
      · rw [htake', List.count_append, List.count_singleton']
        by_cases hk : k' = k
        · subst hk
          simp [hwaits, Nat.add_assoc]
        · simp [hwaits, hk, Ne.symm hk]
      · rw [htake', transcript_concat, houtput, hcount', Nat.zero_add]
    · have htake : (ks ++ [k]).take 10 = ks.take 10 := by
        rw [List.take_append_of_le_length (by omega)]
      rw [if_neg (by omega)]
      refine ⟨?_, fun k' => ?_, fun k' => ?_, ?_⟩
      · rw [hcount, List.length_append]
        omega
      · rw [htake, hexpiry]
      · rw [htake, hwaits]
      · rw [htake, houtput]

/-- A handler only adds lines and waits. -/
def Printer.Grows (b b' : Printer) : Prop :=
  b.output <+: b'.output ∧ ∀ k, b.waits k ≤ b'.waits k

/-- An access of a handler only adds lines and waits. -/
lemma grows_of_printStep {r r' : Position} {b b' : Printer} (h : printStep r b = some (r', b')) :
    b.Grows b' := by
  rcases r with k | k | k | ⟨k, n⟩ | k | k | k | k | _
  · simp only [printStep, Option.ite_none_right_eq_some, Option.some.injEq] at h
    obtain ⟨-, h⟩ := h
    cases h
    exact ⟨List.prefix_refl _, fun _ => le_refl _⟩
  · cases h
    exact ⟨List.prefix_append _ _, fun _ => le_refl _⟩
  · cases h
    exact ⟨List.prefix_refl _, fun _ => le_refl _⟩
  · cases h
    exact ⟨List.prefix_refl _, fun _ => le_refl _⟩
  · cases h
    exact ⟨List.prefix_append _ _, fun _ => le_refl _⟩
  · cases h
    exact ⟨List.prefix_refl _, fun _ => le_refl _⟩
  · cases h
    exact ⟨List.prefix_append _ _, fun _ => le_refl _⟩
  · cases h
    refine ⟨List.prefix_refl _, fun k' => ?_⟩
    by_cases hk : k' = k
    · subst hk
      simp
    · simp [hk]
  · cases h

/-- What the worker of the strand has not finished only adds lines and waits. -/
lemma grows_complete (q : SerialQueue.State Timer Position Printer) :
    q.object.Grows (q.complete printCode) :=
  SerialQueue.State.complete_rel (fun _ => ⟨List.prefix_refl _, fun _ => le_refl _⟩)
    (fun h h' => ⟨h.1.trans h'.1, fun k => (h.2 k).trans (h'.2 k)⟩) grows_of_printStep q

/-! ## Whole runs -/

section Runs

variable {Θ : Type*} [DecidableEq Θ] [Fintype Θ]
variable {s s' : Strand.Driver.State Θ Unit Timer Position Printer (Timer → ℕ)}
variable {out out' : List (Strand.Driver.Mark Unit Timer)}

/-- The handlers that have begun. -/
def ticks (out : List (Strand.Driver.Mark Unit Timer)) : List Timer :=
  begun (Strand.log () (Strand.Driver.strandMarks out))

/-- What every run of the program satisfies. -/
structure Printing (s : Strand.Driver.State Θ Unit Timer Position Printer (Timer → ℕ))
    (out : List (Strand.Driver.Mark Unit Timer)) : Prop where
  /-- The handlers run in a strand. -/
  history : Strand.Driver.History printCode (fun _ => .init) s out
  /-- Each wait that has completed has submitted a handler. -/
  fired_eq : ∀ k, s.env k = (Strand.Driver.requested () out).count k
  /-- No more waits have completed than the handlers have started. -/
  fired_le : ∀ k, s.env k ≤ 1 + ((ticks out).take 10).count k

/-- The handlers that have begun, when more has happened. -/
lemma ticks_isPrefix (out out' : List (Strand.Driver.Mark Unit Timer)) :
    ticks out <+: ticks (out ++ out') := by
  rw [ticks, ticks, Strand.Driver.strandMarks_append, Strand.log_append, SerialQueue.begun_append]
  exact List.prefix_append _ _

/-- The printer grows into what the handlers that have begun make of it. -/
lemma Printing.grows (h : Printing s out) :
    (s.strands.object ()).Grows ((ticks out).foldl printCode.exec .init) := by
  obtain ⟨q, -, -, hobject, -, hcomplete⟩ := h.history.worker ()
  have hgrows := grows_complete q
  rw [hobject, hcomplete] at hgrows
  exact hgrows

/-- One event more. -/
lemma Printing.step (h : Printing s out) {e : Strand.Driver.Event Θ Unit Timer Timer}
    (hstep : Tutorial.step s e = some (s', out')) : Printing s' (out ++ out') := by
  have hle : ∀ k, ((ticks out).take 10).count k ≤ ((ticks (out ++ out')).take 10).count k :=
    fun k => ((ticks_isPrefix out out').take 10).sublist.count_le k
  refine ⟨h.history.step hstep, fun k => ?_, fun k => ?_⟩
  · obtain ⟨θ, x, -, hrequest, -, -⟩ | ⟨θ, k', i, k'', -, -, hrequest, -, -, rfl⟩ |
      ⟨e', o, -, -, -, henv, rfl⟩ := Strand.Driver.step_cases hstep
    · simp [expire] at hrequest
    · simp only [expire, Option.ite_none_right_eq_some, Option.some.injEq, Prod.mk.injEq]
        at hrequest
      obtain ⟨-, henv, -, rfl⟩ := hrequest
      rw [← henv, Strand.Driver.requested_append, List.count_append, ← h.fired_eq]
      by_cases hk : k = k'
      · subst hk
        simp
      · simp [hk, Ne.symm hk]
    · rw [henv, h.fired_eq, Strand.Driver.requested_append, Strand.Driver.requested_map,
        List.append_nil]
  · obtain ⟨θ, x, -, hrequest, -, -⟩ | ⟨θ, k', i, k'', -, -, hrequest, -, -, rfl⟩ |
      ⟨e', o, -, -, -, henv, rfl⟩ := Strand.Driver.step_cases hstep
    · simp [expire] at hrequest
    · simp only [expire, Option.ite_none_right_eq_some, Option.some.injEq, Prod.mk.injEq]
        at hrequest
      obtain ⟨hlt, henv, -, -⟩ := hrequest
      have hk' := hle k
      rw [← henv]
      by_cases hk : k = k'
      · -- the wait was started by a handler that has begun
        subst hk
        have hwaits : (s.strands.object ()).waits k ≤ _ := h.grows.2 k
        rw [(ticked_foldl (ticks out)).waits_eq] at hwaits
        rw [Function.update_self]
        omega
      · rw [Function.update_of_ne hk]
        have hfired := h.fired_le k
        omega
    · have hk' := hle k
      have hfired := h.fired_le k
      rw [henv]
      omega

/-- What every run of the program satisfies. -/
lemma printing_run {es : List (Strand.Driver.Event Θ Unit Timer Timer)}
    (hrun : Machine.run step (start Θ) es = some (s, out)) : Printing s out :=
  Machine.run_history (I := fun t _ o => Printing t o) hrun
    ⟨Strand.Driver.history_init _ _, fun _ => rfl, fun _ => Nat.zero_le _⟩
    fun _ _ _ _ _ _ ht hstep => ht.step hstep

/-- A list of timers consists of both of them. -/
lemma length_eq_count_add_count (ks : List Timer) :
    ks.length = ks.count .timer1 + ks.count .timer2 := by
  induction ks with
  | nil => rfl
  | cons k ks ih =>
    rcases k with _ | _
    · simp [ih]
      omega
    · simp [ih]
      omega

/-- At most twelve handlers run. -/
lemma Printing.requested_length_le (h : Printing s out) :
    (Strand.Driver.requested () out).length ≤ 12 := by
  have hlength := length_eq_count_add_count (Strand.Driver.requested () out)
  have htake := length_eq_count_add_count ((ticks out).take 10)
  have hle : ((ticks out).take 10).length ≤ 10 := List.length_take_le 10 _
  have h₁ := h.fired_eq .timer1
  have h₂ := h.fired_eq .timer2
  have h₁' := h.fired_le .timer1
  have h₂' := h.fired_le .timer2
  omega

/-- When nothing can happen any more, no wait is outstanding. -/
lemma not_lt_of_stuck [Nonempty Θ] (hidle : ∀ θ, s.strands.stack θ = [])
    (hstuck : ∀ e, Tutorial.step s e = none) (k : Timer) :
    ¬ s.env k < (s.strands.object ()).waits k := by
  intro hlt
  obtain ⟨θ⟩ := ‹Nonempty Θ›
  have hstep := hstuck (.complete θ k)
  simp [Tutorial.step, Strand.Driver.step, hidle θ, expire, hlt, Strand.step,
    Strand.InUserCode] at hstep

/-- **The counter.**  Whatever the threads and the clock do, at any time the lines that were printed
are the first ones of at most ten handlers that run one after another, the counter being printed
with the values from zero on; the program makes finitely many steps; and when none is left, ten
handlers have printed their lines, the counter is ten, and no timer is waited for. -/
theorem print_run [Nonempty Θ] {es : List (Strand.Driver.Event Θ Unit Timer Timer)}
    (hrun : Machine.run step (start Θ) es = some (s, out)) :
    (∃ ks, ks.length ≤ 10 ∧ (s.strands.object ()).output <+: transcript 0 ks) ∧
      es.length ≤ 252 ∧
      ((∀ e, step s e = none) →
        (∃ ks, ks.length = 10 ∧ (s.strands.object ()).output = transcript 0 ks) ∧
          (s.strands.object ()).count = 10 ∧ ∀ k, s.env k = (s.strands.object ()).waits k) := by
  have hprinting := printing_run hrun
  refine ⟨⟨(ticks out).take 10, List.length_take_le 10 _, ?_⟩, ?_, fun hstuck => ?_⟩
  · rw [← (ticked_foldl (ticks out)).output_eq]
    exact hprinting.grows.1
  · have hlength := Strand.Driver.length_add_weight_le
      (fun fired object k fired' => by simp [expire]) hrun
    have hsum : ∑ i : Unit, ((Strand.Driver.requested i out).map
        fun k => printCode.rank (printCode.enter k) + 13).sum =
        (Strand.Driver.requested () out).length * 21 := by
      simp [printCode, Position.rank, Function.const_def]
    have hle := hprinting.requested_length_le
    omega
  · obtain ⟨hidle, hall⟩ := hprinting.history.finished fun e _ => hstuck (.thread e)
    obtain ⟨hperm, hobject⟩ := hall ()
    obtain ⟨hcount, -, hwaits, houtput⟩ := ticked_foldl (ticks out)
    change s.strands.object () = (ticks out).foldl printCode.exec .init at hobject
    rw [← hobject] at hcount hwaits houtput
    -- each wait that was started has completed, and its handler has run
    have hfired : ∀ k, s.env k = (s.strands.object ()).waits k := by
      intro k
      have hle : s.env k ≤ (s.strands.object ()).waits k := by
        rw [hwaits]
        exact hprinting.fired_le k
      have hnot := not_lt_of_stuck hidle hstuck k
      omega
    have hten : 10 ≤ (ticks out).length := by
      by_contra hlt
      have htake : (ticks out).take 10 = ticks out := List.take_of_length_le (by omega)
      have hwaits₁ := hwaits .timer1
      have hfired₁ := hfired .timer1
      rw [hprinting.fired_eq, hperm.count_eq] at hfired₁
      rw [htake, ← hfired₁] at hwaits₁
      change (ticks out).count _ = 1 + (ticks out).count _ at hwaits₁
      omega
    refine ⟨⟨(ticks out).take 10, ?_, houtput⟩, ?_, hfired⟩
    · rw [List.length_take]
      omega
    · omega

/-- Both timers expire, each on its own thread, and the second handler waits for the first one. -/
def bothExpire : List (Strand.Driver.Event Bool Unit Timer Timer) :=
  [.complete false .timer1, .complete true .timer2, .thread (.advance false),
    .thread (.advance true), .thread (.advance false), .thread (.advance false),
    .thread (.start true ()), .thread (.advance true), .thread (.advance true),
    .thread (.advance true), .thread (.advance true)]

/-- The program on two threads. -/
theorem print_run_bothExpire :
    ∃ s out, Machine.run step (start Bool) bothExpire = some (s, out) ∧
      (∃ ks, ks.length ≤ 10 ∧ (s.strands.object ()).output <+: transcript 0 ks) ∧
        bothExpire.length ≤ 252 ∧
        ((∀ e, step s e = none) →
          (∃ ks, ks.length = 10 ∧ (s.strands.object ()).output = transcript 0 ks) ∧
            (s.strands.object ()).count = 10 ∧
            ∀ k, s.env k = (s.strands.object ()).waits k) := by
  obtain ⟨⟨s, out⟩, hrun⟩ := Option.isSome_iff_exists.mp
    (show (Machine.run step (start Bool) bothExpire).isSome from rfl)
  exact ⟨s, out, hrun, print_run hrun⟩

end Runs

end Tutorial

end AsioStudy
