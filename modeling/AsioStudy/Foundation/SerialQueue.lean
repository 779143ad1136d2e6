import Mathlib

/-!
# A queue served by one worker

Jobs wait in a queue and are executed one after another.  A job is a sequence of accesses to an
object; while it is executed it can call another job, which is executed at once and on top of it.

The file describes what a queue with a single worker does with the jobs: they are begun in the order
in which they were submitted, each of them once (`begun_append_queue_sublist` and
`begun_append_queue_eq`), and if no job calls another one or is abandoned, the object is what the
jobs make of it one after another, although it is accessed step by step (`complete_eq_foldl`), and
the job that is executed is the last one that was begun (`running_cases`).
-/

namespace AsioStudy

namespace SerialQueue

variable {α ρ β : Type*}

/-! ## Jobs -/

/-- How jobs are executed: the local state in which a job is entered, and its next access to the
object, after which it has another local state; there is none when the job returns.  Every job
returns after finitely many accesses. -/
structure Code (α ρ β : Type*) where
  /-- The local state in which a job begins. -/
  enter : α → ρ
  /-- The next access to the object, or `none` if the job returns. -/
  access : ρ → β → Option (ρ × β)
  /-- A bound on the number of the accesses that are left. -/
  rank : ρ → ℕ
  /-- Each access lowers the bound. -/
  rank_lt : ∀ {r r' b b'}, access r b = some (r', b') → rank r' < rank r

/-- At most `n` of the accesses that are left, without any interruption. -/
def Code.complete' (c : Code α ρ β) : ℕ → ρ → β → β
  | 0, _, b => b
  | n + 1, r, b =>
    match c.access r b with
    | none => b
    | some (r', b') => c.complete' n r' b'

/-- All accesses that are left, without any interruption. -/
def Code.complete (c : Code α ρ β) (r : ρ) (b : β) : β := c.complete' (c.rank r) r b

/-- The effect of a job as a whole. -/
def Code.exec (c : Code α ρ β) (b : β) (job : α) : β := c.complete (c.enter job) b

variable {c : Code α ρ β}

/-- More steps than are left change nothing. -/
lemma complete'_eq_complete {n : ℕ} {r : ρ} (b : β) (h : c.rank r ≤ n) :
    c.complete' n r b = c.complete r b := by
  rw [Code.complete]
  induction hk : c.rank r using Nat.strong_induction_on generalizing n r b with
  | _ k ih =>
    rcases haccess : c.access r b with _ | ⟨r', b'⟩
    · have hstop : ∀ m, c.complete' m r b = b := by
        intro m
        rcases m with _ | m
        · rfl
        · rw [Code.complete', haccess]
      rw [hstop, hstop]
    · -- both sides make this access, and fewer accesses are left after it
      have hlt : c.rank r' < c.rank r := c.rank_lt haccess
      obtain ⟨k, rfl⟩ : ∃ k', k = k' + 1 := ⟨k - 1, by omega⟩
      obtain ⟨n, rfl⟩ : ∃ n', n = n' + 1 := ⟨n - 1, by omega⟩
      rw [Code.complete', Code.complete', haccess]
      have hn := ih (c.rank r') (by omega) (n := n) b' (by omega) rfl
      have hk' := ih (c.rank r') (by omega) (n := k) b' (by omega) rfl
      exact hn.trans hk'.symm

/-- A job that returns changes nothing any more. -/
lemma complete_of_none {r : ρ} {b : β} (h : c.access r b = none) : c.complete r b = b := by
  rw [Code.complete]
  rcases c.rank r with _ | n
  · rfl
  · rw [Code.complete', h]

/-- The first access of a job, followed by the others. -/
lemma complete_of_some {r r' : ρ} {b b' : β} (h : c.access r b = some (r', b')) :
    c.complete r b = c.complete r' b' := by
  have hlt : c.rank r' < c.rank r := c.rank_lt h
  obtain ⟨n, hn⟩ : ∃ n, c.rank r = n + 1 := ⟨c.rank r - 1, by omega⟩
  rw [Code.complete, hn, Code.complete', h]
  exact complete'_eq_complete b' (by omega)

/-- What every access respects, a job as a whole respects. -/
lemma complete_rel {R : β → β → Prop} (hrefl : ∀ b, R b b)
    (htrans : ∀ {a b d}, R a b → R b d → R a d)
    (haccess : ∀ {r r' b b'}, c.access r b = some (r', b') → R b b') (r : ρ) (b : β) :
    R b (c.complete r b) := by
  induction hk : c.rank r using Nat.strong_induction_on generalizing r b with
  | _ k ih =>
    rcases h : c.access r b with _ | ⟨r', b'⟩
    · rw [complete_of_none h]
      exact hrefl b
    · rw [complete_of_some h]
      exact htrans (haccess h) (ih (c.rank r') (hk ▸ c.rank_lt h) r' b' rfl)

/-! ## The worker -/

/-- What happens to the queue, to the jobs that are executed, and to the object. -/
inductive Event (α : Type*) where
  /-- A job joins the queue. -/
  | submit (job : α)
  /-- The worker begins the first job of the queue. -/
  | begin (job : α)
  /-- The job that is executed calls another one. -/
  | call (job : α)
  /-- The job that is executed accesses the object. -/
  | access
  /-- The job that is executed returns. -/
  | finish
  /-- The job that is executed ends before it returns. -/
  | abandon
  /-- The jobs that wait are dropped. -/
  | clear
  deriving DecidableEq, Repr

/-- The queue, the jobs that are executed with the innermost one first, and the object. -/
structure State (α ρ β : Type*) where
  /-- The jobs that wait. -/
  queue : List α
  /-- The local states of the jobs that have begun and have not ended. -/
  stack : List ρ
  /-- What the jobs work on. -/
  object : β

/-- An empty queue. -/
def State.init (b : β) : State α ρ β := ⟨[], [], b⟩

variable [DecidableEq α]

/-- One event.  A job is begun only when no other is executed. -/
def step (c : Code α ρ β) (s : State α ρ β) : Event α → Option (State α ρ β)
  | .submit job => some { s with queue := s.queue ++ [job] }
  | .begin job =>
    match s.queue, s.stack with
    | first :: queue, [] =>
      if first = job then some { s with queue := queue, stack := [c.enter job] } else none
    | _, _ => none
  | .call job =>
    match s.stack with
    | [] => none
    | stack => some { s with stack := c.enter job :: stack }
  | .access =>
    match s.stack with
    | [] => none
    | r :: stack =>
      (c.access r s.object).map fun p => { s with stack := p.1 :: stack, object := p.2 }
  | .finish =>
    match s.stack with
    | [] => none
    | r :: stack =>
      if (c.access r s.object).isNone then some { s with stack := stack } else none
  | .abandon =>
    match s.stack with
    | [] => none
    | _ :: stack => some { s with stack := stack }
  | .clear => some { s with queue := [] }

/-- A sequence of events. -/
def run (c : Code α ρ β) (s : State α ρ β) (es : List (Event α)) : Option (State α ρ β) :=
  es.foldlM (step c) s

/-- The first job of the queue is begun when no other is executed. -/
lemma step_begin {s : State α ρ β} {job : α} {queue : List α} (hqueue : s.queue = job :: queue)
    (hstack : s.stack = []) :
    step c s (.begin job) = some { s with queue := queue, stack := [c.enter job] } := by
  simp [step, hqueue, hstack]

/-- The innermost job can call another one. -/
lemma step_call {s : State α ρ β} (job : α) (hstack : s.stack ≠ []) :
    step c s (.call job) = some { s with stack := c.enter job :: s.stack } := by
  obtain ⟨r, stack, hs⟩ := List.exists_cons_of_ne_nil hstack
  simp [step, hs]

/-- The innermost job makes its next access. -/
lemma step_access {s : State α ρ β} {r r' : ρ} {stack : List ρ} {b : β}
    (hstack : s.stack = r :: stack) (haccess : c.access r s.object = some (r', b)) :
    step c s .access = some { s with stack := r' :: stack, object := b } := by
  simp [step, hstack, haccess]

/-- The innermost job returns when it has no access left. -/
lemma step_finish {s : State α ρ β} {r : ρ} {stack : List ρ} (hstack : s.stack = r :: stack)
    (haccess : c.access r s.object = none) :
    step c s .finish = some { s with stack := stack } := by
  simp [step, hstack, haccess]

/-- The innermost job can be abandoned. -/
lemma step_abandon {s : State α ρ β} {r : ρ} {stack : List ρ} (hstack : s.stack = r :: stack) :
    step c s .abandon = some { s with stack := stack } := by
  simp [step, hstack]

/-- What one event makes of the queue, the jobs that are executed and the object. -/
lemma step_cases {s s' : State α ρ β} {e : Event α} (h : step c s e = some s') :
    (∃ job, e = .submit job ∧ s' = { s with queue := s.queue ++ [job] }) ∨
    (∃ job queue, e = .begin job ∧ s.queue = job :: queue ∧ s.stack = [] ∧
      s' = { s with queue := queue, stack := [c.enter job] }) ∨
    (∃ job, e = .call job ∧ s.stack ≠ [] ∧ s' = { s with stack := c.enter job :: s.stack }) ∨
    (∃ r stack r' b, e = .access ∧ s.stack = r :: stack ∧ c.access r s.object = some (r', b) ∧
      s' = { s with stack := r' :: stack, object := b }) ∨
    (∃ r stack, e = .finish ∧ s.stack = r :: stack ∧ c.access r s.object = none ∧
      s' = { s with stack := stack }) ∨
    (∃ r stack, e = .abandon ∧ s.stack = r :: stack ∧ s' = { s with stack := stack }) ∨
    (e = .clear ∧ s' = { s with queue := [] }) := by
  obtain ⟨queue, stack, object⟩ := s
  rcases e with job | job | job | _ | _ | _ | _
  · exact Or.inl ⟨job, rfl, (Option.some.inj h).symm⟩
  · rcases queue with _ | ⟨first, queue⟩
    · simp [step] at h
    rcases stack with _ | ⟨r, stack⟩
    · simp only [step, Option.ite_none_right_eq_some, Option.some.injEq] at h
      obtain ⟨rfl, rfl⟩ := h
      exact Or.inr (Or.inl ⟨first, queue, rfl, rfl, rfl, rfl⟩)
    · simp [step] at h
  · rcases stack with _ | ⟨r, stack⟩
    · simp [step] at h
    · simp only [step, Option.some.injEq] at h
      exact Or.inr (Or.inr (Or.inl ⟨job, rfl, by simp, h.symm⟩))
  · rcases stack with _ | ⟨r, stack⟩
    · simp [step] at h
    · simp only [step, Option.map_eq_some_iff] at h
      obtain ⟨⟨r', b⟩, haccess, rfl⟩ := h
      exact Or.inr (Or.inr (Or.inr (Or.inl ⟨r, stack, r', b, rfl, rfl, haccess, rfl⟩)))
  · rcases stack with _ | ⟨r, stack⟩
    · simp [step] at h
    · simp only [step, Option.ite_none_right_eq_some, Option.isNone_iff_eq_none,
        Option.some.injEq] at h
      obtain ⟨haccess, rfl⟩ := h
      exact Or.inr (Or.inr (Or.inr (Or.inr (Or.inl ⟨r, stack, rfl, rfl, haccess, rfl⟩))))
  · rcases stack with _ | ⟨r, stack⟩
    · simp [step] at h
    · simp only [step, Option.some.injEq] at h
      exact Or.inr (Or.inr (Or.inr (Or.inr (Or.inr (Or.inl ⟨r, stack, rfl, rfl, h.symm⟩)))))
  · exact Or.inr (Or.inr (Or.inr (Or.inr (Or.inr (Or.inr ⟨rfl, (Option.some.inj h).symm⟩)))))

/-- The empty sequence of events. -/
@[simp] lemma run_nil (s : State α ρ β) : run c s [] = some s := rfl

/-- A sequence of events in two parts. -/
lemma run_append_iff {s s'' : State α ρ β} {es fs : List (Event α)} :
    run c s (es ++ fs) = some s'' ↔ ∃ s', run c s es = some s' ∧ run c s' fs = some s'' := by
  rw [run, List.foldlM_append, Option.bind_eq_bind, Option.bind_eq_some_iff]
  rfl

/-- A single event. -/
@[simp] lemma run_singleton (s : State α ρ β) (e : Event α) : run c s [e] = step c s e := by
  rw [run, List.foldlM_cons, Option.bind_eq_bind]
  exact Option.bind_fun_some (step c s e)

/-- **Induction over the events.**  A relation between the past and the state holds after every
sequence of events if it holds initially and every event preserves it. -/
theorem run_history {I : State α ρ β → List (Event α) → Prop} {s s' : State α ρ β}
    {es : List (Event α)} (hrun : run c s es = some s') (hinit : I s [])
    (hstep : ∀ t t' es e, I t es → step c t e = some t' → I t' (es ++ [e])) : I s' es := by
  induction es using List.reverseRecOn generalizing s' with
  | nil =>
    cases hrun
    exact hinit
  | append_singleton es e ih =>
    obtain ⟨t, hes, he⟩ := run_append_iff.mp hrun
    rw [run_singleton] at he
    exact hstep t s' es e (ih hes) he

/-! ## First in, first out -/

/-- The job that an event submits. -/
def Event.submitted? : Event α → Option α
  | .submit job => some job
  | _ => none

/-- The job that an event begins. -/
def Event.begun? : Event α → Option α
  | .begin job => some job
  | _ => none

/-- The jobs that were submitted, in order. -/
def submitted (es : List (Event α)) : List α := es.filterMap Event.submitted?

/-- The jobs that were begun, in order. -/
def begun (es : List (Event α)) : List α := es.filterMap Event.begun?

omit [DecidableEq α] in
/-- Nothing is submitted by no event. -/
@[simp] lemma submitted_nil : submitted ([] : List (Event α)) = [] := rfl

omit [DecidableEq α] in
/-- What a single event submits. -/
@[simp] lemma submitted_singleton (e : Event α) : submitted [e] = e.submitted?.toList := by
  cases e <;> rfl

omit [DecidableEq α] in
/-- What a single event begins. -/
@[simp] lemma begun_singleton (e : Event α) : begun [e] = e.begun?.toList := by
  cases e <;> rfl

omit [DecidableEq α] in
/-- One event more, for the jobs that were submitted. -/
@[simp] lemma submitted_append (es fs : List (Event α)) :
    submitted (es ++ fs) = submitted es ++ submitted fs := List.filterMap_append

omit [DecidableEq α] in
/-- One event more, for the jobs that were begun. -/
@[simp] lemma begun_append (es fs : List (Event α)) : begun (es ++ fs) = begun es ++ begun fs :=
  List.filterMap_append

/-- **No job is lost, doubled or overtaken.**  The jobs that were begun and those that still wait
are, in this order, jobs that were submitted. -/
theorem begun_append_queue_sublist {b : β} {s : State α ρ β} {es : List (Event α)}
    (hrun : run c (.init b) es = some s) : (begun es ++ s.queue).Sublist (submitted es) := by
  refine run_history (I := fun t es => (begun es ++ t.queue).Sublist (submitted es)) hrun
    (List.Sublist.refl _) ?_
  intro t t' es e ih he
  obtain ⟨job, rfl, rfl⟩ | ⟨job, queue, rfl, hq, -, rfl⟩ | ⟨job, rfl, -, rfl⟩ |
    ⟨r, stack, r', b', rfl, -, -, rfl⟩ | ⟨r, stack, rfl, -, -, rfl⟩ | ⟨r, stack, rfl, -, rfl⟩ |
    ⟨rfl, rfl⟩ := step_cases he
  · simpa [Event.begun?, Event.submitted?] using ih.append_right [job]
  · rw [hq] at ih
    simpa [Event.begun?, Event.submitted?] using ih
  · simpa [Event.begun?, Event.submitted?] using ih
  · simpa [Event.begun?, Event.submitted?] using ih
  · simpa [Event.begun?, Event.submitted?] using ih
  · simpa [Event.begun?, Event.submitted?] using ih
  · have hle : (begun es).Sublist (submitted es) := (List.sublist_append_left _ _).trans ih
    simpa [Event.begun?, Event.submitted?] using hle

/-- Unless jobs are dropped, those that were submitted are exactly those that were begun and those
that still wait. -/
theorem begun_append_queue_eq {b : β} {s : State α ρ β} {es : List (Event α)}
    (hrun : run c (.init b) es = some s) (hclear : .clear ∉ es) :
    begun es ++ s.queue = submitted es := by
  refine run_history (I := fun t es => .clear ∉ es → begun es ++ t.queue = submitted es) hrun
    (fun _ => rfl) ?_ hclear
  intro t t' es e ih he hclear
  have hclear' : Event.clear ∉ es := fun h => hclear (List.mem_append_left _ h)
  specialize ih hclear'
  rw [begun_append, submitted_append, ← ih]
  obtain ⟨job, rfl, rfl⟩ | ⟨job, queue, rfl, hq, -, rfl⟩ | ⟨job, rfl, -, rfl⟩ |
    ⟨r, stack, r', b', rfl, -, -, rfl⟩ | ⟨r, stack, rfl, -, -, rfl⟩ | ⟨r, stack, rfl, -, rfl⟩ |
    ⟨rfl, rfl⟩ := step_cases he
  · simp [Event.begun?, Event.submitted?]
  · simp [Event.begun?, Event.submitted?, hq]
  · simp [Event.begun?, Event.submitted?]
  · simp [Event.begun?, Event.submitted?]
  · simp [Event.begun?, Event.submitted?]
  · simp [Event.begun?, Event.submitted?]
  · exact absurd (List.mem_append_right es (List.mem_singleton_self _)) hclear

/-! ## Jobs as a whole -/

/-- An event by which a job interferes with another one, or ends early. -/
def Event.Disturbs : Event α → Prop
  | .call _ | .abandon => True
  | _ => False

/-- The object when the jobs that are executed have returned, the innermost first. -/
def State.complete (c : Code α ρ β) (s : State α ρ β) : β :=
  s.stack.foldl (fun b r => c.complete r b) s.object

omit [DecidableEq α] in
/-- What every access respects, the jobs that are executed respect. -/
lemma State.complete_rel {R : β → β → Prop} (hrefl : ∀ b, R b b)
    (htrans : ∀ {a b d}, R a b → R b d → R a d)
    (haccess : ∀ {r r' b b'}, c.access r b = some (r', b') → R b b') (s : State α ρ β) :
    R s.object (s.complete c) := by
  obtain ⟨queue, stack, object⟩ := s
  rw [State.complete]
  induction stack generalizing object with
  | nil => exact hrefl object
  | cons r stack ih =>
    exact htrans (SerialQueue.complete_rel hrefl htrans haccess r object) (ih _)

/-- **Jobs are atomic.**  Unless a job calls another one or is abandoned, the object is what the
jobs that were begun make of it as wholes, one after another, up to the accesses that the last one
has left. -/
theorem complete_eq_foldl {b : β} {s : State α ρ β} {es : List (Event α)}
    (hrun : run c (.init b) es = some s) (hquiet : ∀ e ∈ es, ¬ e.Disturbs) :
    s.complete c = (begun es).foldl c.exec b := by
  refine run_history (I := fun t es => (∀ e ∈ es, ¬ e.Disturbs) →
    t.complete c = (begun es).foldl c.exec b) hrun (fun _ => rfl) ?_ hquiet
  intro t t' es e ih he hquiet
  obtain ⟨hes, hlast⟩ := List.forall_mem_append.mp hquiet
  have he' : ¬ e.Disturbs := hlast e (List.mem_singleton_self e)
  rw [begun_append, List.foldl_append, ← ih hes]
  obtain ⟨job, rfl, rfl⟩ | ⟨job, queue, rfl, hq, hstack, rfl⟩ | ⟨job, rfl, -, rfl⟩ |
    ⟨r, stack, r', b', rfl, hstack, haccess, rfl⟩ | ⟨r, stack, rfl, hstack, haccess, rfl⟩ |
    ⟨r, stack, rfl, -, rfl⟩ | ⟨rfl, rfl⟩ := step_cases he
  · rfl
  · simp [State.complete, hstack, Event.begun?, Code.exec]
  · exact absurd trivial he'
  · simp [State.complete, hstack, Event.begun?, complete_of_some haccess]
  · simp [State.complete, hstack, Event.begun?, complete_of_none haccess]
  · exact absurd trivial he'
  · rfl

/-- How far a job has come that was entered on the object `b`: its local state and the object after
some of its accesses, if nobody else has accessed the object since. -/
inductive Code.Reaches (c : Code α ρ β) (job : α) (b : β) : ρ → β → Prop
  | enter : c.Reaches job b (c.enter job) b
  | access {r r' : ρ} {b' b'' : β} (h : c.Reaches job b r b')
      (haccess : c.access r b' = some (r', b'')) : c.Reaches job b r' b''

omit [DecidableEq α] in
/-- The accesses that are left complete the job. -/
lemma Code.Reaches.complete_eq {job : α} {b b' : β} {r : ρ} (h : c.Reaches job b r b') :
    c.complete r b' = c.exec b job := by
  induction h with
  | enter => rfl
  | access _ haccess ih => rw [← complete_of_some haccess, ih]

omit [DecidableEq α] in
/-- An event that begins no job. -/
lemma begun_concat_of_none (es : List (Event α)) {e : Event α} (h : e.begun? = none) :
    begun (es ++ [e]) = begun es := by
  rw [begun_append, begun, begun, List.filterMap_cons_none h, List.filterMap_nil, List.append_nil]

/-- **The job that is executed.**  Unless a job calls another one or is abandoned, either no job is
executed, and the object is what the jobs that were begun have made of it, or the last one of them
is, which was entered on what the others have made of the object. -/
theorem running_cases {b : β} {s : State α ρ β} {es : List (Event α)}
    (hrun : run c (.init b) es = some s) (hquiet : ∀ e ∈ es, ¬ e.Disturbs) :
    (s.stack = [] ∧ s.object = (begun es).foldl c.exec b) ∨
      ∃ jobs job r, begun es = jobs ++ [job] ∧ s.stack = [r] ∧
        c.Reaches job (jobs.foldl c.exec b) r s.object := by
  refine run_history (I := fun t es => (∀ e ∈ es, ¬ e.Disturbs) →
    (t.stack = [] ∧ t.object = (begun es).foldl c.exec b) ∨
      ∃ jobs job r, begun es = jobs ++ [job] ∧ t.stack = [r] ∧
        c.Reaches job (jobs.foldl c.exec b) r t.object) hrun (fun _ => Or.inl ⟨rfl, rfl⟩) ?_ hquiet
  intro t t' es e ih he hquiet
  obtain ⟨hes, hlast⟩ := List.forall_mem_append.mp hquiet
  have he' : ¬ e.Disturbs := hlast e (List.mem_singleton_self e)
  specialize ih hes
  obtain ⟨job, rfl, rfl⟩ | ⟨job, queue, rfl, hq, hstack, rfl⟩ | ⟨job, rfl, -, rfl⟩ |
    ⟨r, stack, r', b', rfl, hstack, haccess, rfl⟩ | ⟨r, stack, rfl, hstack, haccess, rfl⟩ |
    ⟨r, stack, rfl, -, rfl⟩ | ⟨rfl, rfl⟩ := step_cases he
  · rwa [begun_concat_of_none es rfl]
  · rw [begun_append]
    rcases ih with ⟨-, hobject⟩ | ⟨_, _, _, -, hrunning, -⟩
    · exact Or.inr ⟨begun es, job, c.enter job, rfl, rfl, hobject ▸ .enter⟩
    · rw [hstack] at hrunning
      cases hrunning
  · exact absurd trivial he'
  · rw [begun_concat_of_none es rfl]
    rcases ih with ⟨hidle, -⟩ | ⟨jobs, job, r₀, hbegun, hrunning, hreaches⟩
    · rw [hstack] at hidle
      cases hidle
    · rw [hstack] at hrunning
      obtain ⟨rfl, rfl⟩ := List.cons.inj hrunning
      exact Or.inr ⟨jobs, job, r', hbegun, rfl, hreaches.access haccess⟩
  · rw [begun_concat_of_none es rfl]
    rcases ih with ⟨hidle, -⟩ | ⟨jobs, job, r₀, hbegun, hrunning, hreaches⟩
    · rw [hstack] at hidle
      cases hidle
    · rw [hstack] at hrunning
      obtain ⟨rfl, rfl⟩ := List.cons.inj hrunning
      refine Or.inl ⟨rfl, ?_⟩
      rw [hbegun, List.foldl_append, List.foldl_cons, List.foldl_nil, ← hreaches.complete_eq,
        complete_of_none haccess]
  · exact absurd trivial he'
  · rwa [begun_concat_of_none es rfl]

end SerialQueue

end AsioStudy
