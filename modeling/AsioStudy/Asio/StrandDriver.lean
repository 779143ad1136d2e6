import AsioStudy.Asio.StrandProgress

/-!
# Programs whose handlers run in strands

A program starts operations, on sockets or on timers, whose handlers are bound to strands.  When an
operation completes, a thread that has nothing else to do submits the handler to its strand.  Which
operations can complete depends on the objects, where the handlers register what they start, and on
what has completed already.

`History` collects what is known of the strands after a run, and every step keeps it
(`History.step`): what happens to a strand is what a single worker does, no handler is called at once
by another one, and every completion has been accepted by its strand or is about to be.
-/

namespace AsioStudy

namespace Strand

namespace Driver

open SerialQueue (Code submitted begun)

variable {Θ ι α ρ β ε χ : Type*}

/-- The strands and what is known of the operations that have completed. -/
structure State (Θ ι α ρ β ε : Type*) where
  /-- The strands, their objects and the threads. -/
  strands : Strand.State Θ ι α ρ β
  /-- What has completed. -/
  env : ε

/-- What can happen. -/
inductive Event (Θ ι α χ : Type*) where
  /-- Something outside the strands happens on a thread that has nothing else to do. -/
  | complete (θ : Θ) (x : χ)
  /-- The threads execute handlers. -/
  | thread (e : Strand.Event Θ ι α)

/-- What is recorded of a run: the operations that are submitted, and what the strands do. -/
inductive Mark (ι α : Type*) where
  | request (i : ι) (op : α)
  | strand (i : ι) (e : SerialQueue.Event α)
  deriving DecidableEq, Repr

/-- The operations that were submitted to a strand. -/
def requested [DecidableEq ι] (i : ι) (out : List (Mark ι α)) : List α :=
  out.filterMap fun m =>
    match m with
    | .request j op => if j = i then some op else none
    | .strand _ _ => none

/-- What the strands have done. -/
def strandMarks (out : List (Mark ι α)) : List (ι × SerialQueue.Event α) :=
  out.filterMap fun m =>
    match m with
    | .request _ _ => none
    | .strand i e => some (i, e)

/-- The events of a thread that executes handlers, none of which exits by an exception. -/
def Regular : Strand.Event Θ ι α → Prop
  | .advance _ | .inline _ | .start _ _ => True
  | .submit _ _ _ _ | .throw _ | .shutdown _ => False

instance : DecidablePred (@Regular Θ ι α)
  | .advance _ | .inline _ | .start _ _ => .isTrue trivial
  | .submit _ _ _ _ | .throw _ | .shutdown _ => .isFalse id

section Step

variable [DecidableEq Θ] [DecidableEq ι] [Fintype Θ]

/-- One event; `request` says what can happen outside the strands, and which handler it submits. -/
def step (c : Code α ρ β) (request : ε → (ι → β) → χ → Option (ε × Option (ι × α)))
    (s : State Θ ι α ρ β ε) : Event Θ ι α χ → Option (State Θ ι α ρ β ε × List (Mark ι α))
  | .complete θ x =>
    if (s.strands.stack θ).isEmpty then
      match request s.env s.strands.object x with
      | none => none
      | some (env, none) => some (⟨s.strands, env⟩, [])
      | some (env, some (i, op)) =>
        (Strand.step c s.strands (.submit θ i .possibly op)).map fun r =>
          (⟨r.1, env⟩, .request i op :: r.2.map fun p => .strand p.1 p.2)
    else none
  | .thread e =>
    if Regular e then
      (Strand.step c s.strands e).map fun r =>
        (⟨r.1, s.env⟩, r.2.map fun p => .strand p.1 p.2)
    else none

/-- The program before its first event. -/
def State.init (object : ι → β) (env : ε) : State Θ ι α ρ β ε := ⟨.init object, env⟩

/-- A program makes the same step with other handlers that are entered in the same way and make the
same next access. -/
lemma step_congr {c c' : Code α ρ β}
    {request : ε → (ι → β) → χ → Option (ε × Option (ι × α))} (s : State Θ ι α ρ β ε)
    (e : Event Θ ι α χ) (henter : c.enter = c'.enter)
    (haccess : ∀ θ i r tail, s.strands.stack θ = .invoker i (some r) :: tail ∨
      s.strands.stack θ = .immediate i r :: tail →
        c.access r (s.strands.object i) = c'.access r (s.strands.object i)) :
    step c request s e = step c' request s e := by
  rcases e with ⟨θ, x⟩ | e
  · simp only [step, Strand.step_congr s.strands _ henter haccess]
  · simp only [step, Strand.step_congr s.strands e henter haccess]

/-- What one event does: something happens that submits no handler, or one that submits a handler,
whose call is then on the stack of its thread; or a thread makes a step. -/
lemma step_cases {c : Code α ρ β}
    {request : ε → (ι → β) → χ → Option (ε × Option (ι × α))} {s s' : State Θ ι α ρ β ε}
    {e : Event Θ ι α χ} {out : List (Mark ι α)} (h : step c request s e = some (s', out)) :
    (∃ θ x, e = .complete θ x ∧ request s.env s.strands.object x = some (s'.env, none) ∧
      s'.strands = s.strands ∧ out = []) ∨
    (∃ θ x i op, e = .complete θ x ∧ s.strands.stack θ = [] ∧
      request s.env s.strands.object x = some (s'.env, some (i, op)) ∧
      s'.strands = s.strands.setStack θ (.enqueue i op .possibly :: s.strands.stack θ) ∧
      Strand.step c s.strands (.submit θ i .possibly op) = some (s'.strands, []) ∧
      out = [.request i op]) ∨
    (∃ e' out', e = .thread e' ∧ Regular e' ∧
      Strand.step c s.strands e' = some (s'.strands, out') ∧ s'.env = s.env ∧
      out = out'.map fun p => .strand p.1 p.2) := by
  rcases e with ⟨θ, x⟩ | e
  · simp only [step, Option.ite_none_right_eq_some, List.isEmpty_iff] at h
    obtain ⟨hidle, h⟩ := h
    rcases hrequest : request s.env s.strands.object x with _ | ⟨env, _ | ⟨i, op⟩⟩
    · simp [hrequest] at h
    · simp only [hrequest] at h
      obtain ⟨rfl, rfl⟩ := Prod.mk.inj (Option.some.inj h)
      exact Or.inl ⟨θ, x, rfl, hrequest, rfl, rfl⟩
    · have hsubmit : Strand.step c s.strands (.submit θ i .possibly op) =
          some (s.strands.setStack θ (.enqueue i op .possibly :: s.strands.stack θ), []) := by
        simp [Strand.step, Strand.submit, hidle, InUserCode, runningInThisThread]
      simp only [hrequest, hsubmit, Option.map_some, List.map_nil] at h
      obtain ⟨rfl, rfl⟩ := Prod.mk.inj (Option.some.inj h)
      exact Or.inr (Or.inl ⟨θ, x, i, op, rfl, hidle, hrequest, rfl, hsubmit, rfl⟩)
  · simp only [step, Option.ite_none_right_eq_some, Option.map_eq_some_iff] at h
    obtain ⟨hregular, ⟨s'', out'⟩, hstep, h⟩ := h
    obtain ⟨rfl, rfl⟩ := Prod.mk.inj h
    exact Or.inr (Or.inr ⟨e, out', rfl, hregular, hstep, rfl, rfl⟩)

end Step

/-! ## Whole runs -/

section Runs

variable [DecidableEq Θ] [DecidableEq ι] [DecidableEq α] [Fintype Θ]

/-- What is known of the strands after a run of the program. -/
structure History (c : Code α ρ β) (object : ι → β) (s : State Θ ι α ρ β ε)
    (out : List (Mark ι α)) : Prop where
  /-- The strands have made a run, in which none of them was shut down. -/
  hrun : ∃ es, Machine.run (Strand.step c) (.init object) es = some (s.strands, strandMarks out) ∧
    ∀ i, .shutdown i ∉ es
  /-- No strand is shut down. -/
  hshutdown : ∀ i, (s.strands.impl i).shutdown = false
  /-- No handler has called another one at once, or has exited by an exception. -/
  hquiet : ∀ p ∈ strandMarks out, ¬ p.2.Disturbs
  /-- What was submitted to a strand has been accepted by it or is about to be. -/
  hcalls : ∀ i op, (requested i out).count op =
    (submitted (log i (strandMarks out))).count op + s.strands.calls i op

variable {c : Code α ρ β} {request : ε → (ι → β) → χ → Option (ε × Option (ι × α))}
variable {object : ι → β} {s s' : State Θ ι α ρ β ε} {out out' : List (Mark ι α)}

omit [DecidableEq ι] [DecidableEq α] in
/-- The marks of the strands in two parts of a run. -/
@[simp] lemma strandMarks_append (out out' : List (Mark ι α)) :
    strandMarks (out ++ out') = strandMarks out ++ strandMarks out' := List.filterMap_append

omit [DecidableEq α] in
/-- The operations that were submitted in two parts of a run. -/
@[simp] lemma requested_append (i : ι) (out out' : List (Mark ι α)) :
    requested i (out ++ out') = requested i out ++ requested i out' := List.filterMap_append

omit [DecidableEq α] in
/-- A single operation that is submitted. -/
@[simp] lemma requested_request (i j : ι) (op : α) :
    requested j [.request i op] = if i = j then [op] else [] := by
  by_cases h : i = j
  · simp [requested, h]
  · simp [requested, h]

omit [DecidableEq ι] [DecidableEq α] in
/-- What the strands do is recorded as it is. -/
@[simp] lemma strandMarks_map (out : List (ι × SerialQueue.Event α)) :
    strandMarks (out.map fun p => Mark.strand p.1 p.2) = out := by
  simp [strandMarks, List.filterMap_map]

omit [DecidableEq α] in
/-- What the strands do submits nothing. -/
@[simp] lemma requested_map (i : ι) (out : List (ι × SerialQueue.Event α)) :
    requested i (out.map fun p => Mark.strand p.1 p.2) = [] := by
  simp [requested, List.filterMap_map]

omit [DecidableEq α] in
/-- A step of a regular thread is one of the steps of `Rule`, and disturbs no handler. -/
lemma acts_of_regular {t t' : Strand.State Θ ι α ρ β} {e : Strand.Event Θ ι α}
    {o : List (ι × SerialQueue.Event α)} (he : Regular e)
    (hstep : Strand.step c t e = some (t', o)) :
    (∃ θ i, Acts c t t' o θ i) ∧ ∀ p ∈ o, ¬ p.2.Disturbs := by
  obtain ⟨θ, i, op, rfl, -⟩ | ⟨θ, i, blocking, op, rfl, -⟩ | ⟨-, habandon, θ, i, hacts⟩ |
    ⟨i, rfl, -⟩ := Strand.step_cases hstep
  · exact he.elim
  · exact he.elim
  · refine ⟨⟨θ, i, hacts⟩, fun p hp => ?_⟩
    have hnot : p.2 ≠ .abandon := habandon (fun φ hφ => by rw [hφ] at he; exact he) p hp
    obtain ⟨top, tail, x, es, -, hrule, -, rfl⟩ := hacts
    obtain ⟨f, hf, rfl⟩ := List.mem_map.mp hp
    cases hrule <;> simp_all [SerialQueue.Event.Disturbs]
  · exact he.elim

omit [DecidableEq α] [Fintype Θ] in
/-- A step in a strand does not shut any strand down. -/
lemma shutdown_of_acts {t t' : Strand.State Θ ι α ρ β} {o : List (ι × SerialQueue.Event α)} {θ : Θ}
    {i : ι} (h : Acts c t t' o θ i) (j : ι) : (t'.impl j).shutdown = (t.impl j).shutdown := by
  obtain ⟨top, tail, x, es, -, hrule, rfl, -⟩ := h
  by_cases hij : j = i
  · rw [hij, (put_self t θ i tail x).1]
    exact hrule.shutdown_eq
  · rw [(put_of_ne t θ hij tail x).1]

omit [DecidableEq α] [Fintype Θ] in
/-- What every access respects, a step in a strand respects. -/
lemma object_rel_of_acts {R : β → β → Prop} (hrefl : ∀ b, R b b)
    (haccess : ∀ {r r' b b'}, c.access r b = some (r', b') → R b b') {t t' : Strand.State Θ ι α ρ β}
    {o : List (ι × SerialQueue.Event α)} {θ : Θ} {i : ι} (h : Acts c t t' o θ i) (j : ι) :
    R (t.object j) (t'.object j) := by
  obtain ⟨top, tail, x, es, -, hrule, rfl, -⟩ := h
  by_cases hij : j = i
  · rw [hij, (put_self t θ i tail x).2.2]
    cases hrule with
    | access h => exact haccess h
    | immediateAccess h => exact haccess h
    | _ => exact hrefl _
  · rw [(put_of_ne t θ hij tail x).2.2]
    exact hrefl _

omit [DecidableEq α] in
/-- What every access respects, every event respects. -/
lemma object_rel_of_step {R : β → β → Prop} (hrefl : ∀ b, R b b)
    (haccess : ∀ {r r' b b'}, c.access r b = some (r', b') → R b b') {e : Event Θ ι α χ}
    (hstep : Driver.step c request s e = some (s', out')) (i : ι) :
    R (s.strands.object i) (s'.strands.object i) := by
  obtain ⟨-, -, -, -, hstrands, -⟩ | ⟨θ, -, j, op, -, -, -, hstrands, -, -⟩ |
    ⟨e', o, -, hregular, hstep', -, -⟩ := step_cases hstep
  · rw [hstrands]
    exact hrefl _
  · rw [hstrands]
    exact hrefl _
  · obtain ⟨⟨θ, j, hacts⟩, -⟩ := acts_of_regular hregular hstep'
    exact object_rel_of_acts hrefl haccess hacts i

omit [DecidableEq α] in
/-- Nothing has happened yet. -/
lemma history_init [DecidableEq α] (object : ι → β) (env : ε) :
    History c object (State.init object env : State Θ ι α ρ β ε) [] where
  hrun := ⟨[], rfl, by simp⟩
  hshutdown _ := rfl
  hquiet := by simp [strandMarks]
  hcalls i op := by simp [requested, submitted, strandMarks, log, State.calls, State.init,
    Strand.State.init]

/-- One event more. -/
lemma History.step (h : History c object s out) {e : Event Θ ι α χ}
    (hstep : Driver.step c request s e = some (s', out')) :
    History c object s' (out ++ out') := by
  obtain ⟨es, hrun, hes⟩ := h.hrun
  obtain ⟨θ, x, -, -, hstrands, rfl⟩ | ⟨θ, x, i, op, -, hidle, -, hstrands, hsubmit, rfl⟩ |
    ⟨e', o, -, hregular, hstep', -, rfl⟩ := step_cases hstep
  · rw [List.append_nil]
    exact ⟨⟨es, hstrands ▸ hrun, hes⟩, hstrands ▸ h.hshutdown, h.hquiet, hstrands ▸ h.hcalls⟩
  · refine ⟨⟨es ++ [.submit θ i .possibly op], ?_, ?_⟩, ?_, ?_, ?_⟩
    · rw [strandMarks_append]
      exact Machine.run_concat_iff.mpr ⟨_, _, _, hrun, hsubmit, rfl⟩
    · intro j hmem
      rcases List.mem_append.mp hmem with hmem | hmem
      · exact hes j hmem
      · simp at hmem
    · intro j
      rw [hstrands]
      exact h.hshutdown j
    · rw [strandMarks_append]
      exact List.forall_mem_append.mpr ⟨h.hquiet, by simp [strandMarks]⟩
    · intro j op'
      have hcalls := h.hcalls j op'
      rw [requested_append, strandMarks_append, List.count_append, hstrands, calls_submit, hcalls]
      by_cases hij : i = j
      · simp [requested, strandMarks, hij, List.count_cons, Nat.add_assoc]
      · simp [requested, strandMarks, hij]
  · obtain ⟨⟨θ, i, hacts⟩, hnot⟩ := acts_of_regular hregular hstep'
    refine ⟨⟨es ++ [e'], ?_, ?_⟩, ?_, ?_, ?_⟩
    · rw [strandMarks_append, strandMarks_map]
      exact Machine.run_concat_iff.mpr ⟨_, _, _, hrun, hstep', rfl⟩
    · intro j hmem
      rcases List.mem_append.mp hmem with hmem | hmem
      · exact hes j hmem
      · rw [← List.mem_singleton.mp hmem] at hregular
        exact hregular
    · intro j
      rw [shutdown_of_acts hacts, h.hshutdown]
    · rw [strandMarks_append, strandMarks_map]
      exact List.forall_mem_append.mpr ⟨h.hquiet, hnot⟩
    · intro j op'
      have hcalls := h.hcalls j op'
      have hacts' := calls_acts hacts (h.hshutdown j) op'
      rw [requested_append, strandMarks_append, strandMarks_map, requested_map, List.append_nil,
        log_append, SerialQueue.submitted_append, List.count_append]
      omega

/-- What the worker of a strand has done after a run, and how the threads serve the strand. -/
lemma History.worker (h : History c object s out) (i : ι) :
    ∃ q, SerialQueue.run c (.init (object i)) (log i (strandMarks out)) = some q ∧
      Serves s.strands i q ∧ q.object = s.strands.object i ∧
      begun (log i (strandMarks out)) ++ q.queue = submitted (log i (strandMarks out)) ∧
      q.complete c = (begun (log i (strandMarks out))).foldl c.exec (object i) := by
  obtain ⟨es, hrun, hes⟩ := h.hrun
  obtain ⟨q, hq, hserves, hobject⟩ := exists_serves_run hrun i
  refine ⟨q, hq, hserves, hobject, ?_, ?_⟩
  · exact SerialQueue.begun_append_queue_eq hq (clear_notMem_log hrun (hes i))
  · exact SerialQueue.complete_eq_foldl hq fun e he => h.hquiet (i, e) (mem_log_iff.mp he)

/-- The handler at the top of a stack is the one of its strand that was begun last; it was entered on
what the others have made of the object, and nobody else has accessed the object since. -/
lemma History.running (h : History c object s out) {θ : Θ} {i : ι} {f : Frame ι α ρ} {r : ρ}
    {tail : List (Frame ι α ρ)} (hstack : s.strands.stack θ = f :: tail)
    (hf : f.handler? i = some r) :
    ∃ ops op, begun (log i (strandMarks out)) = ops ++ [op] ∧
      c.Reaches op (ops.foldl c.exec (object i)) r (s.strands.object i) := by
  obtain ⟨q, hq, hserves, hobject, -, -⟩ := h.worker i
  have hinside : ¬ Outside i (s.strands.stack θ) := by
    intro hout
    rw [hstack, outside_cons_iff] at hout
    rw [handler?_of_not_inside hout.1] at hf
    cases hf
  have hhandlers : q.stack = r :: handlers i tail := by
    rw [hserves.stack_eq hinside, hstack, handlers, List.filterMap_cons_some hf]
    rfl
  have hquiet : ∀ e ∈ log i (strandMarks out), ¬ e.Disturbs := fun e he =>
    h.hquiet (i, e) (mem_log_iff.mp he)
  rcases SerialQueue.running_cases hq hquiet with
    ⟨hidle, -⟩ | ⟨ops, op, r', hbegun, hrunning, hreaches⟩
  · rw [hhandlers] at hidle
    cases hidle
  · rw [hhandlers] at hrunning
    obtain ⟨rfl, -⟩ := List.cons.inj hrunning
    exact ⟨ops, op, hbegun, hobject ▸ hreaches⟩

/-- When no handler of a strand is executed, its object is what the handlers that have begun make of
it. -/
lemma History.object_eq (h : History c object s out) {i : ι}
    (hidle : ∀ θ, handlers i (s.strands.stack θ) = []) :
    s.strands.object i = (begun (log i (strandMarks out))).foldl c.exec (object i) := by
  obtain ⟨q, -, hserves, hobject, -, hcomplete⟩ := h.worker i
  have hstack : q.stack = [] := by
    rcases hserves with ⟨-, -, -, -, -, -, hstack⟩ | ⟨-, -, -, -, hstack⟩ |
      ⟨θ, -, -, -, -, -, -, -, -, -, -, -, -, -, hstack⟩
    · exact hstack
    · exact hstack
    · rw [hstack, hidle θ]
  rw [← hcomplete, ← hobject, SerialQueue.State.complete, hstack]
  rfl

/-- When the threads have nothing left to do, no thread executes anything, and all operations that
were submitted to a strand have been executed. -/
lemma History.finished [Nonempty Θ] (h : History c object s out)
    (hstuck : ∀ e : Strand.Event Θ ι α, Regular e → Driver.step c request s (.thread e) = none) :
    (∀ θ, s.strands.stack θ = []) ∧ ∀ i,
      (requested i out).Perm (begun (log i (strandMarks out))) ∧
        s.strands.object i = (begun (log i (strandMarks out))).foldl c.exec (object i) := by
  have hnone : ∀ e : Strand.Event Θ ι α, Regular e → Strand.step c s.strands e = none := by
    intro e he
    have hdriver := hstuck e he
    simp only [Driver.step, if_pos he, Option.map_eq_none_iff] at hdriver
    exact hdriver
  have hstack : ∀ θ, s.strands.stack θ = [] := fun θ =>
    stack_eq_nil_of_stuck (hnone (.advance θ) trivial)
  refine ⟨hstack, fun i => ?_⟩
  obtain ⟨θ⟩ := ‹Nonempty Θ›
  have hqueued : s.strands.queued i = 0 := by
    have hstart := hnone (.start θ i) trivial
    simp only [Strand.step, hstack θ, InUserCode, true_and, ite_eq_right_iff] at hstart
    by_contra hpos
    exact absurd (hstart (Nat.pos_of_ne_zero hpos)) (by simp)
  have hcalls : ∀ op, s.strands.calls i op = 0 := by
    intro op
    simp [Strand.State.calls, hstack]
  obtain ⟨q, -, hserves, hobject, hqueue, hcomplete⟩ := h.worker i
  obtain ⟨hq, hqstack⟩ : q.queue = [] ∧ q.stack = [] := by
    rcases hserves with ⟨-, -, -, -, -, hq, hqstack⟩ | ⟨-, hqueued', -⟩ |
      ⟨φ, above, f, below, -, -, -, hframes, -⟩
    · exact ⟨hq, hqstack⟩
    · omega
    · rw [hstack φ] at hframes
      simp at hframes
  rw [hq, List.append_nil] at hqueue
  constructor
  · rw [List.perm_iff_count]
    intro op
    rw [h.hcalls i op, hcalls op, Nat.add_zero, hqueue]
  · rw [← hcomplete, ← hobject, SerialQueue.State.complete, hqstack]
    rfl

omit [DecidableEq α] in
/-- A call adds the weight of its operation. -/
lemma weight_submit [Fintype ι] (t : Strand.State Θ ι α ρ β) (θ : Θ) (i : ι) (op : α) :
    (t.setStack θ (.enqueue i op .possibly :: t.stack θ)).weight c =
      t.weight c + (c.rank (c.enter op) + 12) := by
  have hθ : t.stack θ = [] ++ t.stack θ := rfl
  have hput := weight_put (c := c) (i := i) t
    ⟨[.enqueue i op .possibly], t.impl i, t.queued i, t.object i⟩ hθ
  rw [put_stack] at hput
  simp only [stackWeight, Frame.weight, List.map_cons, List.map_nil, List.sum_cons,
    List.sum_nil, List.singleton_append] at hput
  omega

/-- A bound on the length of a run, if everything that happens outside the strands submits a
handler: it depends on the handlers that were submitted. -/
lemma length_add_weight_le [Fintype ι] {env : ε} {es : List (Event Θ ι α χ)}
    (hsubmits : ∀ env object x env', request env object x ≠ some (env', none))
    (hrun : Machine.run (Driver.step c request) (State.init object env) es = some (s, out)) :
    es.length + s.strands.weight c ≤
      ∑ i, ((requested i out).map fun op => c.rank (c.enter op) + 13).sum := by
  have hinit : (State.init object env : State Θ ι α ρ β ε).strands.weight c = 0 := by
    simp [State.init, Strand.State.init, Strand.State.weight, stackWeight, strandWeight,
      Impl.weight, createImplementation]
  have hhistory := Machine.run_history (I := fun t es o => History c object t o ∧
    es.length + t.strands.weight c ≤
      ∑ i, ((requested i o).map fun op => c.rank (c.enter op) + 13).sum) hrun
    ⟨history_init object env, by rw [hinit]; exact Nat.zero_le _⟩ ?_
  · exact hhistory.2
  rintro t t' e es o o' ⟨ht, hle⟩ hstep
  refine ⟨ht.step hstep, ?_⟩
  rw [List.length_append, List.length_singleton]
  obtain ⟨θ, x, -, hrequest, -, -⟩ | ⟨θ, x, i, op, -, hidle, -, hstrands, hsubmit, rfl⟩ |
    ⟨e', o, -, hregular, hstep', -, rfl⟩ := step_cases hstep
  · exact absurd hrequest (hsubmits _ _ _ _)
  · have hsum := sum_add_eq_sum_add
      (f := fun j => ((requested j (o ++ [Mark.request i op])).map
        fun op => c.rank (c.enter op) + 13).sum)
      (g := fun j => ((requested j o).map fun op => c.rank (c.enter op) + 13).sum) i
      fun j hj => by simp [hj.symm]
    have hi : ((requested i (o ++ [Mark.request i op])).map
        fun op => c.rank (c.enter op) + 13).sum =
        ((requested i o).map fun op => c.rank (c.enter op) + 13).sum +
          (c.rank (c.enter op) + 13) := by
      simp
    rw [hstrands, weight_submit]
    omega
  · have hserves : ∀ i, ∃ q, Serves t.strands i q := fun i =>
      (ht.worker i).imp fun q hq => hq.2.1
    have hinternal : e'.Internal := by
      rcases e' with _ | _ | _ | _ | _ | _
      · exact hregular.elim
      · exact trivial
      · exact trivial
      · exact trivial
      · exact hregular.elim
      · exact hregular.elim
    have hlt := weight_lt_of_internal hserves hinternal hstep'
    simp only [requested_append, requested_map, List.append_nil]
    omega

end Runs

end Driver

end Strand

end AsioStudy
