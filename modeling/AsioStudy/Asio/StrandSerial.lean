import AsioStudy.Asio.Strand

/-!
# A strand is a queue with one worker

Several threads execute the functions of the strand service, whose `ready_queue_` no mutex
protects.  The file proves that this makes no difference: what happens to a strand is what happens
to a queue that is served by a single worker.

The invariant is `Serves`.  A strand that is not locked has nobody inside; a locked one has exactly
one token, which is a queued invoker or a frame of one thread, and only that thread is inside the
strand.  The main results are `serial_run`, mutual exclusion (`inside_subsingleton`), the order of
the operations (`begun_prefix_submitted`) and their effect as a whole (`object_eq_foldl`).
-/

namespace AsioStudy

namespace Strand

open SerialQueue (Code)

section Frames

variable {ι α ρ : Type*}

/-- The function is responsible for the strand: it has acquired it and not released it yet. -/
def Frame.Holds (i : ι) : Frame ι α ρ → Prop
  | .push j _ _ | .execute j _ | .invoker j _ | .onInvokerExit j _ => j = i
  | .enqueue _ _ _ | .immediate _ _ => False

/-- The function is within the strand: it is responsible for it, or a handler of it. -/
def Frame.Inside (i : ι) : Frame ι α ρ → Prop
  | .push j _ _ | .execute j _ | .invoker j _ | .onInvokerExit j _ | .immediate j _ => j = i
  | .enqueue _ _ _ => False

/-- No function of the stack is within the strand. -/
def Outside (i : ι) (stack : List (Frame ι α ρ)) : Prop := ∀ f ∈ stack, ¬ f.Inside i

/-- The operation that the function is to push. -/
def Frame.pushed : Frame ι α ρ → List α
  | .push _ op _ => [op]
  | _ => []

/-- The function finds `ready_queue_` empty. -/
def Frame.FindsEmpty : Frame ι α ρ → Prop
  | .push _ _ _ | .onInvokerExit _ false => True
  | _ => False

/-- The handler of the strand that the function is in. -/
def Frame.handler? [DecidableEq ι] (i : ι) : Frame ι α ρ → Option ρ
  | .invoker j (some r) | .immediate j r => if j = i then some r else none
  | _ => none

/-- The handlers of the strand that are executed, the innermost first. -/
def handlers [DecidableEq ι] (i : ι) (stack : List (Frame ι α ρ)) : List ρ :=
  stack.filterMap (Frame.handler? i)

/-- What is responsible for the strand is within it. -/
lemma Frame.Holds.inside {i : ι} {f : Frame ι α ρ} (h : f.Holds i) : f.Inside i := by
  rcases f with _ | _ | _ | _ | _ | _
  · exact h.elim
  · exact h
  · exact h
  · exact h
  · exact h
  · exact h.elim

/-- A function that is not within the strand executes no handler of it. -/
lemma handler?_of_not_inside [DecidableEq ι] {i : ι} {f : Frame ι α ρ} (h : ¬ f.Inside i) :
    f.handler? i = none := by
  rcases f with _ | _ | _ | ⟨j, _ | r⟩ | _ | ⟨j, r⟩
  · rfl
  · rfl
  · rfl
  · rfl
  · exact if_neg h
  · rfl
  · exact if_neg h

/-- A stack outside the strand executes no handler of it. -/
lemma handlers_of_outside [DecidableEq ι] {i : ι} {stack : List (Frame ι α ρ)}
    (h : Outside i stack) : handlers i stack = [] := by
  rw [handlers, List.filterMap_eq_nil_iff]
  exact fun f hf => handler?_of_not_inside (h f hf)

/-- The handlers of two parts of a stack. -/
@[simp] lemma handlers_append [DecidableEq ι] (i : ι) (stack tail : List (Frame ι α ρ)) :
    handlers i (stack ++ tail) = handlers i stack ++ handlers i tail := List.filterMap_append

/-- Two parts of a stack are outside if the stack is. -/
lemma outside_append_iff {i : ι} {stack tail : List (Frame ι α ρ)} :
    Outside i (stack ++ tail) ↔ Outside i stack ∧ Outside i tail := List.forall_mem_append

/-- A frame and the rest of a stack are outside if the stack is. -/
lemma outside_cons_iff {i : ι} {f : Frame ι α ρ} {tail : List (Frame ι α ρ)} :
    Outside i (f :: tail) ↔ ¬ f.Inside i ∧ Outside i tail := List.forall_mem_cons

/-- The empty stack is outside. -/
@[simp] lemma outside_nil (i : ι) : Outside i ([] : List (Frame ι α ρ)) := List.forall_mem_nil _

/-- On top of the invoker of a strand there is the code of the user only if it executes a handler. -/
lemma inUserCode_singleton_of_holds {i : ι} {f : Frame ι α ρ} {tail : List (Frame ι α ρ)}
    (hf : f.Holds i) (h : InUserCode (f :: tail)) : ∃ r, f = .invoker i (some r) := by
  rcases f with _ | _ | _ | ⟨j, _ | r⟩ | _ | _
  · exact hf.elim
  · exact h.elim
  · exact h.elim
  · exact h.elim
  · cases hf
    exact ⟨r, rfl⟩
  · exact h.elim
  · exact hf.elim

end Frames

section Serves

variable {Θ ι α ρ β : Type*} [DecidableEq ι]

/-- The threads serve a strand in the way in which the single worker serves its queue. -/
inductive Serves (s : State Θ ι α ρ β) (i : ι) (q : SerialQueue.State α ρ β) : Prop where
  /-- Nobody is responsible for the strand, and there is nothing to do. -/
  | free (hlocked : (s.impl i).locked = false) (hqueued : s.queued i = 0)
      (hout : ∀ θ, Outside i (s.stack θ)) (hready : (s.impl i).readyQueue = [])
      (hwaiting : (s.impl i).waitingQueue = []) (hqueue : q.queue = []) (hstack : q.stack = [])
  /-- An invoker is queued. -/
  | pool (hlocked : (s.impl i).locked = true) (hqueued : s.queued i = 1)
      (hout : ∀ θ, Outside i (s.stack θ))
      (hqueue : q.queue = (s.impl i).readyQueue ++ (s.impl i).waitingQueue) (hstack : q.stack = [])
  /-- The frame `f` of the thread `θ` is responsible; what is above it was called by a handler. -/
  | thread (θ : Θ) (above : List (Frame ι α ρ)) (f : Frame ι α ρ) (below : List (Frame ι α ρ))
      (hlocked : (s.impl i).locked = true) (hqueued : s.queued i = 0)
      (hout : ∀ φ, φ ≠ θ → Outside i (s.stack φ)) (hframes : s.stack θ = above ++ f :: below)
      (hf : f.Holds i) (habove : ∀ g ∈ above, ¬ g.Holds i) (hbelow : Outside i below)
      (huser : above = [] ∨ ∃ r, f = .invoker i (some r))
      (hempty : f.FindsEmpty → (s.impl i).readyQueue = [])
      (hqueue : q.queue = f.pushed ++ (s.impl i).readyQueue ++ (s.impl i).waitingQueue)
      (hstack : q.stack = handlers i (s.stack θ))

variable {s s' : State Θ ι α ρ β} {i : ι} {q : SerialQueue.State α ρ β} {θ : Θ}

/-- A new strand is served. -/
lemma serves_init (object : ι → β) (i : ι) :
    Serves (State.init object : State Θ ι α ρ β) i (.init (object i)) :=
  .free rfl rfl (fun _ => outside_nil i) rfl rfl rfl rfl

omit [DecidableEq ι] in
/-- The frames that another strand replaces at the top of a stack are above the frame that is
responsible. -/
lemma exists_above_eq {top tail above below : List (Frame ι α ρ)} {f : Frame ι α ρ}
    (h : top ++ tail = above ++ f :: below) (htop : Outside i top) (hf : f.Inside i) :
    ∃ above', above = top ++ above' ∧ tail = above' ++ f :: below := by
  rcases List.append_eq_append_iff.mp h with ⟨above', rfl, rfl⟩ | ⟨top', rfl, htail⟩
  · exact ⟨above', rfl, rfl⟩
  · rcases top' with _ | ⟨g, top'⟩
    · exact ⟨[], by simp, by simpa using htail.symm⟩
    · obtain ⟨rfl, -⟩ := List.cons.inj htail
      exact absurd hf (htop f (by simp))

/-- **Frame rule.**  A step of a thread outside the strand does not matter for it. -/
lemma Serves.other {top top' tail : List (Frame ι α ρ)} (h : Serves s i q)
    (himpl : s'.impl i = s.impl i) (hqueued' : s'.queued i = s.queued i)
    (hothers : ∀ φ, φ ≠ θ → s'.stack φ = s.stack φ) (hθ : s.stack θ = top ++ tail)
    (hθ' : s'.stack θ = top' ++ tail) (htop : Outside i top) (htop' : Outside i top')
    (htail : top = [] → InUserCode tail) : Serves s' i q := by
  have hout' : ∀ φ, Outside i (s.stack φ) → Outside i (s'.stack φ) := by
    intro φ hφ
    by_cases hφθ : φ = θ
    · subst hφθ
      rw [hθ, outside_append_iff] at hφ
      rw [hθ', outside_append_iff]
      exact ⟨htop', hφ.2⟩
    · rw [hothers φ hφθ]
      exact hφ
  rcases h with ⟨hlocked, hqueued, hout, hready, hwaiting, hqueue, hstack⟩ |
    ⟨hlocked, hqueued, hout, hqueue, hstack⟩ |
    ⟨φ, above, f, below, hlocked, hqueued, hout, hframes, hf, habove, hbelow, huser, hempty,
      hqueue, hstack⟩
  · exact .free (himpl ▸ hlocked) (hqueued' ▸ hqueued) (fun φ => hout' φ (hout φ))
      (himpl ▸ hready) (himpl ▸ hwaiting) hqueue hstack
  · exact .pool (himpl ▸ hlocked) (hqueued' ▸ hqueued) (fun φ => hout' φ (hout φ))
      (himpl ▸ hqueue) hstack
  · by_cases hφθ : φ = θ
    · subst hφθ
      obtain ⟨above', rfl, htail'⟩ := exists_above_eq (hθ ▸ hframes) htop hf.inside
      refine .thread φ (top' ++ above') f below (himpl ▸ hlocked) (hqueued' ▸ hqueued)
        (fun ψ hψ => hout' ψ (hout ψ hψ)) ?_ hf ?_ hbelow ?_ (himpl ▸ hempty) (himpl ▸ hqueue) ?_
      · rw [hθ', htail', List.append_assoc]
      · intro g hg
        rcases List.mem_append.mp hg with hg | hg
        · exact fun hholds => htop' g hg hholds.inside
        · exact habove g (List.mem_append_right _ hg)
      · -- nothing but a handler lets other functions run on top of the frame
        rcases huser with hnil | huser
        · obtain ⟨rfl, rfl⟩ := List.append_eq_nil_iff.mp hnil
          have huser : InUserCode (f :: below) := by
            rw [List.nil_append] at htail'
            exact htail' ▸ htail rfl
          exact Or.inr (inUserCode_singleton_of_holds hf huser)
        · exact Or.inr huser
      · rw [hstack, hθ, hθ', handlers_append, handlers_append, handlers_of_outside htop,
          handlers_of_outside htop']
    · refine .thread φ above f below (himpl ▸ hlocked) (hqueued' ▸ hqueued)
        (fun ψ hψ => hout' ψ (hout ψ hψ)) ?_ hf habove hbelow huser (himpl ▸ hempty)
        (himpl ▸ hqueue) ?_
      · rw [hothers φ hφθ, hframes]
      · rw [hothers φ hφθ, hstack]

/-- Other strands and objects do not matter. -/
lemma Serves.congr (h : Serves s i q) (himpl : s'.impl i = s.impl i)
    (hqueued' : s'.queued i = s.queued i) (hstack' : s'.stack = s.stack) : Serves s' i q := by
  rcases h with ⟨hlocked, hqueued, hout, hready, hwaiting, hqueue, hstack⟩ |
    ⟨hlocked, hqueued, hout, hqueue, hstack⟩ |
    ⟨φ, above, f, below, hlocked, hqueued, hout, hframes, hf, habove, hbelow, huser, hempty,
      hqueue, hstack⟩
  · exact .free (himpl ▸ hlocked) (hqueued' ▸ hqueued) (hstack' ▸ hout) (himpl ▸ hready)
      (himpl ▸ hwaiting) hqueue hstack
  · exact .pool (himpl ▸ hlocked) (hqueued' ▸ hqueued) (hstack' ▸ hout) (himpl ▸ hqueue) hstack
  · exact .thread φ above f below (himpl ▸ hlocked) (hqueued' ▸ hqueued) (hstack' ▸ hout)
      (hstack' ▸ hframes) hf habove hbelow huser (himpl ▸ hempty) (himpl ▸ hqueue)
      (hstack' ▸ hstack)

/-- What a frame at the top of a stack that is responsible for the strand says about it. -/
lemma Serves.top_holds {f : Frame ι α ρ} {tail : List (Frame ι α ρ)} (h : Serves s i q)
    (hθ : s.stack θ = f :: tail) (hf : f.Holds i) :
    (s.impl i).locked = true ∧ s.queued i = 0 ∧ (∀ φ, φ ≠ θ → Outside i (s.stack φ)) ∧
      Outside i tail ∧ (f.FindsEmpty → (s.impl i).readyQueue = []) ∧
      q.queue = f.pushed ++ (s.impl i).readyQueue ++ (s.impl i).waitingQueue ∧
      q.stack = (f.handler? i).toList := by
  have hin : ∀ φ, φ = θ → ¬ Outside i (s.stack φ) := by
    rintro φ rfl hout
    rw [hθ, outside_cons_iff] at hout
    exact hout.1 hf.inside
  rcases h with ⟨-, -, hout, -⟩ | ⟨-, -, hout, -⟩ |
    ⟨φ, above, g, below, hlocked, hqueued, hout, hframes, hg, habove, hbelow, -, hempty, hqueue,
      hstack⟩
  · exact absurd (hout θ) (hin θ rfl)
  · exact absurd (hout θ) (hin θ rfl)
  · have hφ : φ = θ := by
      by_contra hne
      exact hin θ rfl (hout θ fun h => hne h.symm)
    subst hφ
    -- the frame is the one that is responsible, since no other above it is
    rcases above with _ | ⟨a, above⟩
    · rw [hθ, List.nil_append] at hframes
      obtain ⟨rfl, rfl⟩ := List.cons.inj hframes
      refine ⟨hlocked, hqueued, hout, hbelow, hempty, hqueue, ?_⟩
      rw [hstack, hθ, ← List.singleton_append, handlers_append, handlers_of_outside hbelow,
        List.append_nil]
      rcases hhandler : f.handler? i with _ | r
      · simp [handlers, hhandler]
      · simp [handlers, hhandler]
    · rw [hθ] at hframes
      obtain ⟨rfl, -⟩ := List.cons.inj hframes
      exact absurd hf (habove f List.mem_cons_self)

/-- A frame at the top of a stack takes the responsibility for the strand. -/
lemma Serves.of_top {f : Frame ι α ρ} {tail : List (Frame ι α ρ)} (hθ : s.stack θ = f :: tail)
    (hf : f.Holds i) (hlocked : (s.impl i).locked = true) (hqueued : s.queued i = 0)
    (hout : ∀ φ, φ ≠ θ → Outside i (s.stack φ)) (htail : Outside i tail)
    (hempty : f.FindsEmpty → (s.impl i).readyQueue = [])
    (hqueue : q.queue = f.pushed ++ (s.impl i).readyQueue ++ (s.impl i).waitingQueue)
    (hstack : q.stack = (f.handler? i).toList) : Serves s i q := by
  refine .thread θ [] f tail hlocked hqueued hout hθ hf (List.forall_mem_nil _) htail (Or.inl rfl)
    hempty hqueue ?_
  rw [hstack, hθ, ← List.singleton_append, handlers_append, handlers_of_outside htail,
    List.append_nil]
  rcases hhandler : f.handler? i with _ | r
  · simp [handlers, hhandler]
  · simp [handlers, hhandler]

/-- A strand that is not locked is idle. -/
lemma Serves.of_unlocked (h : Serves s i q) (hlocked : (s.impl i).locked = false) :
    s.queued i = 0 ∧ (∀ θ, Outside i (s.stack θ)) ∧ (s.impl i).readyQueue = [] ∧
      (s.impl i).waitingQueue = [] ∧ q.queue = [] ∧ q.stack = [] := by
  rcases h with ⟨-, hqueued, hout, hready, hwaiting, hqueue, hstack⟩ | ⟨hlocked', -⟩ |
    ⟨-, -, -, -, hlocked', -⟩
  · exact ⟨hqueued, hout, hready, hwaiting, hqueue, hstack⟩
  · rw [hlocked] at hlocked'
    cases hlocked'
  · rw [hlocked] at hlocked'
    cases hlocked'

/-- A queued invoker is responsible for its strand. -/
lemma Serves.of_queued (h : Serves s i q) (hpos : 0 < s.queued i) :
    (s.impl i).locked = true ∧ s.queued i = 1 ∧ (∀ θ, Outside i (s.stack θ)) ∧
      q.queue = (s.impl i).readyQueue ++ (s.impl i).waitingQueue ∧ q.stack = [] := by
  rcases h with ⟨-, hqueued, -⟩ | ⟨hlocked, hqueued, hout, hqueue, hstack⟩ |
    ⟨-, -, -, -, -, hqueued, -⟩
  · omega
  · exact ⟨hlocked, hqueued, hout, hqueue, hstack⟩
  · omega

/-- An operation joins the operations that wait. -/
lemma Serves.wait {op : α} (h : Serves s i q) (hlocked : (s.impl i).locked = true)
    (himpl : s'.impl i = { s.impl i with waitingQueue := (s.impl i).waitingQueue ++ [op] })
    (hqueued' : s'.queued i = s.queued i) (hstack' : s'.stack = s.stack) :
    Serves s' i { q with queue := q.queue ++ [op] } := by
  rcases h with ⟨hfree, -⟩ | ⟨-, hqueued, hout, hqueue, hstack⟩ |
    ⟨φ, above, f, below, -, hqueued, hout, hframes, hf, habove, hbelow, huser, hempty, hqueue,
      hstack⟩
  · rw [hlocked] at hfree
    cases hfree
  · refine .pool ?_ (hqueued' ▸ hqueued) (hstack' ▸ hout) ?_ hstack
    · rw [himpl, hlocked]
    · rw [himpl, hqueue, List.append_assoc]
  · refine .thread φ above f below ?_ (hqueued' ▸ hqueued) (hstack' ▸ hout) (hstack' ▸ hframes) hf
      habove hbelow huser ?_ ?_ (hstack' ▸ hstack)
    · rw [himpl, hlocked]
    · rw [himpl]
      exact hempty
    · rw [himpl, hqueue, List.append_assoc]

/-- A thread is in a handler of the strand: the invoker is somewhere on its stack, and what is above
it was called by the handler. -/
structure InHandler (s : State Θ ι α ρ β) (i : ι) (q : SerialQueue.State α ρ β) (θ : Θ)
    (above : List (Frame ι α ρ)) (r : ρ) (below : List (Frame ι α ρ)) : Prop where
  hlocked : (s.impl i).locked = true
  hqueued : s.queued i = 0
  hout : ∀ φ, φ ≠ θ → Outside i (s.stack φ)
  hframes : s.stack θ = above ++ .invoker i (some r) :: below
  habove : ∀ g ∈ above, ¬ g.Holds i
  hbelow : Outside i below
  hqueue : q.queue = (s.impl i).readyQueue ++ (s.impl i).waitingQueue
  hstack : q.stack = handlers i (s.stack θ)

/-- A thread within the strand is in a handler, unless its last function is responsible for the
strand and not in a handler. -/
lemma Serves.inHandler (h : Serves s i q) (hin : ¬ Outside i (s.stack θ))
    (htop : ∀ f tail, s.stack θ = f :: tail → f.Holds i → ∃ r, f = .invoker i (some r)) :
    ∃ above r below, InHandler s i q θ above r below := by
  rcases h with ⟨-, -, hout, -⟩ | ⟨-, -, hout, -⟩ |
    ⟨φ, above, f, below, hlocked, hqueued, hout, hframes, hf, habove, hbelow, huser, -, hqueue,
      hstack⟩
  · exact absurd (hout θ) hin
  · exact absurd (hout θ) hin
  · have hφ : θ = φ := by
      by_contra hne
      exact hin (hout θ hne)
    subst hφ
    obtain ⟨r, rfl⟩ : ∃ r, f = .invoker i (some r) := by
      rcases huser with rfl | huser
      · exact htop f below hframes hf
      · exact huser
    exact ⟨above, r, below, hlocked, hqueued, hout, hframes, habove, hbelow, hqueue, hstack⟩

/-- The worker executes the handlers that are on the stack of a thread within the strand. -/
lemma Serves.stack_eq (h : Serves s i q) (hin : ¬ Outside i (s.stack θ)) :
    q.stack = handlers i (s.stack θ) := by
  rcases h with ⟨-, -, hout, -⟩ | ⟨-, -, hout, -⟩ |
    ⟨φ, -, -, -, -, -, hout, -, -, -, -, -, -, -, hstack⟩
  · exact absurd (hout θ) hin
  · exact absurd (hout θ) hin
  · have hφ : θ = φ := by
      by_contra hne
      exact hin (hout θ hne)
    rw [hφ, hstack]

/-- A thread in a handler executes a handler. -/
lemma InHandler.stack_ne_nil {above below : List (Frame ι α ρ)} {r : ρ}
    (h : InHandler s i q θ above r below) : q.stack ≠ [] := by
  rw [h.hstack, h.hframes]
  simp [handlers, Frame.handler?]

/-- What is above the invoker is replaced. -/
lemma InHandler.serves {above above' below : List (Frame ι α ρ)} {r : ρ}
    {q' : SerialQueue.State α ρ β} (h : InHandler s i q θ above r below)
    (himpl : s'.impl i = s.impl i) (hqueued' : s'.queued i = s.queued i)
    (hothers : ∀ φ, φ ≠ θ → s'.stack φ = s.stack φ)
    (hθ' : s'.stack θ = above' ++ .invoker i (some r) :: below)
    (habove' : ∀ g ∈ above', ¬ g.Holds i) (hqueue' : q'.queue = q.queue)
    (hstack' : q'.stack = handlers i (s'.stack θ)) : Serves s' i q' := by
  refine .thread θ above' (.invoker i (some r)) below (himpl ▸ h.hlocked)
    (hqueued' ▸ h.hqueued) (fun φ hφ => hothers φ hφ ▸ h.hout φ hφ) hθ' rfl habove' h.hbelow
    (Or.inr ⟨r, rfl⟩) False.elim ?_ hstack'
  rw [hqueue', himpl, h.hqueue]
  rfl

/-- The handler at the top of a stack runs immediately: there is an invoker below it. -/
lemma Serves.inHandler_immediate {r : ρ} {tail : List (Frame ι α ρ)} (h : Serves s i q)
    (hθ : s.stack θ = .immediate i r :: tail) :
    ∃ above r' below, tail = above ++ .invoker i (some r') :: below ∧
      InHandler s i q θ (.immediate i r :: above) r' below := by
  have hin : ¬ Outside i (s.stack θ) := by
    rw [hθ, outside_cons_iff]
    exact fun hout => hout.1 rfl
  obtain ⟨above, r', below, hhandler⟩ := h.inHandler hin fun f tail' hf hholds => by
    obtain ⟨rfl, -⟩ := List.cons.inj (hθ.symm.trans hf)
    exact hholds.elim
  have hframes := hθ.symm.trans hhandler.hframes
  rcases above with _ | ⟨g, above⟩
  · cases hframes
  · obtain ⟨rfl, rfl⟩ := List.cons.inj hframes
    exact ⟨above, r', below, rfl, hhandler⟩

end Serves

/-! ## One step -/

section Step

variable {Θ ι α ρ β : Type*} [DecidableEq Θ] [DecidableEq ι] [DecidableEq α]
variable {c : Code α ρ β} {s s' : State Θ ι α ρ β} {i : ι} {q : SerialQueue.State α ρ β} {θ : Θ}

omit [DecidableEq α] in
/-- The thread of a state that was put together. -/
@[simp] lemma stack_put_self (s : State Θ ι α ρ β) (θ : Θ) (i : ι) (tail : List (Frame ι α ρ))
    (x : Local ι α ρ β) : (s.put θ i tail x).stack θ = x.top ++ tail := by
  simp [State.put]

omit [DecidableEq α] in
/-- The other threads of a state that was put together. -/
lemma stack_put_of_ne (s : State Θ ι α ρ β) {θ φ : Θ} (h : φ ≠ θ) (i : ι)
    (tail : List (Frame ι α ρ)) (x : Local ι α ρ β) :
    (s.put θ i tail x).stack φ = s.stack φ := by
  simp [State.put, h]

omit [DecidableEq α] in
/-- The strand of a state that was put together. -/
@[simp] lemma put_self (s : State Θ ι α ρ β) (θ : Θ) (i : ι) (tail : List (Frame ι α ρ))
    (x : Local ι α ρ β) :
    (s.put θ i tail x).impl i = x.impl ∧ (s.put θ i tail x).queued i = x.queued ∧
      (s.put θ i tail x).object i = x.object := by
  simp [State.put]

omit [DecidableEq α] in
/-- The other strands of a state that was put together. -/
lemma put_of_ne (s : State Θ ι α ρ β) (θ : Θ) {i j : ι} (h : j ≠ i) (tail : List (Frame ι α ρ))
    (x : Local ι α ρ β) :
    (s.put θ i tail x).impl j = s.impl j ∧ (s.put θ i tail x).queued j = s.queued j ∧
      (s.put θ i tail x).object j = s.object j := by
  simp [State.put, h]

omit [DecidableEq α] in
/-- When a thread has stepped out of the strand, all threads are outside. -/
lemma outside_put {tail : List (Frame ι α ρ)} {x : Local ι α ρ β}
    (hout : ∀ φ, φ ≠ θ → Outside i (s.stack φ)) (htop : Outside i x.top)
    (htail : Outside i tail) (φ : Θ) : Outside i ((s.put θ i tail x).stack φ) := by
  by_cases hφ : φ = θ
  · rw [hφ, stack_put_self, outside_append_iff]
    exact ⟨htop, htail⟩
  · rw [stack_put_of_ne s hφ]
    exact hout φ hφ

omit [DecidableEq α] in
/-- A frame that is responsible for the strand hands it over to the frame that replaces it. -/
lemma Serves.handOver {f f' : Frame ι α ρ} {tail : List (Frame ι α ρ)}
    {q' : SerialQueue.State α ρ β} {impl' : Impl α} {b' : β} (h : Serves s i q)
    (hθ : s.stack θ = [f] ++ tail) (hf : f.Holds i) (hf' : f'.Holds i)
    (hlocked' : impl'.locked = true) (hempty' : f'.FindsEmpty → impl'.readyQueue = [])
    (hqueue' : q'.queue = f'.pushed ++ impl'.readyQueue ++ impl'.waitingQueue)
    (hstack' : q'.stack = (f'.handler? i).toList) :
    Serves (s.put θ i tail ⟨[f'], impl', s.queued i, b'⟩) i q' := by
  obtain ⟨-, hqueued, hout, htail, -⟩ := h.top_holds hθ hf
  obtain ⟨himpl, hqueued', -⟩ := put_self s θ i tail ⟨[f'], impl', s.queued i, b'⟩
  refine .of_top (stack_put_self s θ i tail _) hf' ?_ (hqueued'.trans hqueued) (fun φ hφ => ?_)
    htail ?_ ?_ hstack'
  · rw [himpl]
    exact hlocked'
  · rw [stack_put_of_ne s hφ]
    exact hout φ hφ
  · rw [himpl]
    exact hempty'
  · rw [himpl]
    exact hqueue'

omit [DecidableEq α] in
/-- A handler that runs immediately is the last one that the worker has begun.  The frames that
replace it run on top of the same invoker. -/
lemma Serves.immediate {r : ρ} {tail : List (Frame ι α ρ)} (h : Serves s i q)
    (hθ : s.stack θ = [.immediate i r] ++ tail) (top : List (Frame ι α ρ))
    (htop : ∀ g ∈ top, ¬ g.Holds i) (b b' : β) :
    q.stack = r :: handlers i tail ∧
      Serves (s.put θ i tail ⟨top, s.impl i, s.queued i, b⟩) i
        ⟨q.queue, handlers i top ++ handlers i tail, b'⟩ := by
  obtain ⟨above, r₀, below, rfl, hhandler⟩ := h.inHandler_immediate hθ
  obtain ⟨himpl, hqueued, -⟩ := put_self s θ i (above ++ .invoker i (some r₀) :: below)
    ⟨top, s.impl i, s.queued i, b⟩
  have hstack : (s.put θ i (above ++ .invoker i (some r₀) :: below)
      ⟨top, s.impl i, s.queued i, b⟩).stack θ =
        (top ++ above) ++ .invoker i (some r₀) :: below := by
    rw [stack_put_self, List.append_assoc]
  refine ⟨?_, hhandler.serves himpl hqueued (fun φ hφ => stack_put_of_ne s hφ i _ _) hstack ?_ rfl
    ?_⟩
  · rw [hhandler.hstack, hθ]
    simp [handlers, Frame.handler?]
  · exact List.forall_mem_append.mpr
      ⟨htop, fun g hg => hhandler.habove g (List.mem_cons_of_mem _ hg)⟩
  · rw [stack_put_self]
    exact (handlers_append i _ _).symm

/-- The worker follows a step of a thread in the strand. -/
lemma Serves.rule {top tail : List (Frame ι α ρ)} {x : Local ι α ρ β}
    {es : List (SerialQueue.Event α)} (h : Serves s i q) (hobject : q.object = s.object i)
    (hθ : s.stack θ = top ++ tail)
    (hrule : Rule c i tail ⟨top, s.impl i, s.queued i, s.object i⟩ x es) :
    ∃ q', SerialQueue.run c q es = some q' ∧ Serves (s.put θ i tail x) i q' ∧
      q'.object = x.object := by
  obtain ⟨himpl', hqueued', hobject'⟩ := put_self s θ i tail x
  have hothers' : ∀ φ, φ ≠ θ → (s.put θ i tail x).stack φ = s.stack φ :=
    fun φ hφ => stack_put_of_ne s hφ i tail x
  have hθ' : (s.put θ i tail x).stack θ = x.top ++ tail := stack_put_self s θ i tail x
  cases hrule with
  | destroyed hshutdown =>
    refine ⟨q, rfl, h.other himpl' hqueued' hothers' hθ hθ' ?_ (outside_nil i) ?_, hobject⟩
    · simp [Outside, Frame.Inside]
    · simp
  | @waiting op blocking _ _ _ hlocked =>
    have hpop : Serves (s.setStack θ tail) i q := by
      have hθ'' : (s.setStack θ tail).stack θ = [] ++ tail := by simp [State.setStack]
      refine h.other rfl rfl (fun φ hφ => ?_) hθ hθ'' ?_ (outside_nil i) (by simp)
      · simp [State.setStack, hφ]
      · simp [Outside, Frame.Inside]
    refine ⟨{ q with queue := q.queue ++ [op] }, ?_, hpop.wait hlocked himpl' hqueued' rfl,
      hobject⟩
    rw [SerialQueue.run_singleton]
    rfl
  | @first op blocking _ _ _ hlocked =>
    -- nobody is responsible for the strand, hence nobody is inside
    obtain ⟨hqueued, hout, hready, hwaiting, hqueue, hstack⟩ := h.of_unlocked hlocked
    have htail : Outside i tail := (outside_append_iff.mp (hθ ▸ hout θ)).2
    refine ⟨{ q with queue := q.queue ++ [op] }, ?_, ?_, hobject⟩
    · rw [SerialQueue.run_singleton]
      rfl
    · refine .of_top hθ' rfl (by rw [himpl']) (hqueued'.trans hqueued)
        (fun φ hφ => hothers' φ hφ ▸ hout φ) htail (fun _ => by rw [himpl', hready]) ?_ hstack
      rw [himpl', hready, hwaiting, hqueue]
      rfl
  | @push op blocking _ _ _ =>
    obtain ⟨hlocked, -, -, -, hempty, hqueue, hstack⟩ := h.top_holds hθ rfl
    refine ⟨q, rfl, h.handOver hθ rfl rfl hlocked False.elim ?_ hstack, hobject⟩
    rw [hqueue, hempty trivial]
    rfl
  | execute =>
    obtain ⟨hlocked, hqueued, hout, htail, -, hqueue, hstack⟩ := h.top_holds hθ rfl
    refine ⟨q, rfl, .pool (by rw [himpl', hlocked]) ?_ (outside_put hout (outside_nil i) htail) ?_
      hstack, hobject⟩
    · rw [hqueued', hqueued]
    · rw [himpl', hqueue]
      rfl
  | inline =>
    obtain ⟨hlocked, -, -, -, -, hqueue, hstack⟩ := h.top_holds hθ rfl
    exact ⟨q, rfl, h.handOver hθ rfl rfl hlocked False.elim hqueue hstack, hobject⟩
  | start huser hpos =>
    -- the queued invoker is the one that is responsible
    obtain ⟨hlocked, hqueued, hout, hqueue, hstack⟩ := h.of_queued hpos
    have htail : Outside i tail := (outside_append_iff.mp (hθ ▸ hout θ)).2
    refine ⟨q, rfl, ?_, hobject⟩
    refine .of_top hθ' rfl (by rw [himpl', hlocked]) (by rw [hqueued', hqueued])
      (fun φ hφ => hothers' φ hφ ▸ hout φ) htail False.elim ?_ hstack
    rw [himpl', hqueue]
    rfl
  | @begin op readyQueue _ _ _ hready =>
    obtain ⟨hlocked, -, -, -, -, hqueue, hstack⟩ := h.top_holds hθ rfl
    have hqueue' : q.queue = op :: (readyQueue ++ (s.impl i).waitingQueue) := by
      rw [hqueue, hready]
      rfl
    refine ⟨{ q with queue := readyQueue ++ (s.impl i).waitingQueue, stack := [c.enter op] }, ?_,
      h.handOver hθ rfl rfl hlocked False.elim rfl ?_, hobject⟩
    · rw [SerialQueue.run_singleton, SerialQueue.step_begin hqueue' hstack]
    · simp [Frame.handler?]
  | leave hready =>
    obtain ⟨hlocked, -, -, -, -, hqueue, hstack⟩ := h.top_holds hθ rfl
    exact ⟨q, rfl, h.handOver hθ rfl rfl hlocked (fun _ => hready) hqueue hstack, hobject⟩
  | @access r r' _ _ _ b' haccess =>
    obtain ⟨hlocked, -, -, -, -, hqueue, hstack⟩ := h.top_holds hθ rfl
    have hstack' : q.stack = [r] := by simpa [Frame.handler?] using hstack
    refine ⟨{ q with stack := [r'], object := b' }, ?_,
      h.handOver hθ rfl rfl hlocked False.elim hqueue ?_, rfl⟩
    · rw [SerialQueue.run_singleton, SerialQueue.step_access hstack' (hobject ▸ haccess)]
    · simp [Frame.handler?]
  | @finish r _ _ _ haccess =>
    obtain ⟨hlocked, -, -, -, -, hqueue, hstack⟩ := h.top_holds hθ rfl
    have hstack' : q.stack = [r] := by simpa [Frame.handler?] using hstack
    refine ⟨{ q with stack := [] }, ?_, h.handOver hθ rfl rfl hlocked False.elim hqueue rfl,
      hobject⟩
    rw [SerialQueue.run_singleton, SerialQueue.step_finish hstack' (hobject ▸ haccess)]
  | @throw r _ _ _ =>
    obtain ⟨hlocked, -, -, -, -, hqueue, hstack⟩ := h.top_holds hθ rfl
    have hstack' : q.stack = [r] := by simpa [Frame.handler?] using hstack
    refine ⟨{ q with stack := [] }, ?_, h.handOver hθ rfl rfl hlocked False.elim hqueue rfl,
      hobject⟩
    rw [SerialQueue.run_singleton, SerialQueue.step_abandon hstack']
  | more hmore =>
    obtain ⟨hlocked, -, -, -, -, hqueue, hstack⟩ := h.top_holds hθ rfl
    refine ⟨q, rfl, h.handOver hθ rfl rfl rfl False.elim ?_ hstack, hobject⟩
    rw [hqueue]
    simp [Frame.pushed]
  | idle hidle =>
    obtain ⟨hlocked, hqueued, hout, htail, -, hqueue, hstack⟩ := h.top_holds hθ rfl
    refine ⟨q, rfl, .free (by rw [himpl']) (hqueued'.trans hqueued)
      (outside_put hout (outside_nil i) htail) (by rw [himpl']) (by rw [himpl']) ?_ hstack, hobject⟩
    rw [hqueue, List.append_assoc, hidle]
    rfl
  | @immediateAccess r r' _ _ _ b' haccess =>
    obtain ⟨hstack, hserves⟩ := h.immediate hθ [.immediate i r']
      (List.forall_mem_singleton.mpr False.elim) b' b'
    have hhandlers : handlers i ([.immediate i r'] : List (Frame ι α ρ)) = [r'] := by
      simp [handlers, Frame.handler?]
    rw [hhandlers] at hserves
    refine ⟨_, ?_, hserves, rfl⟩
    rw [SerialQueue.run_singleton, SerialQueue.step_access hstack (hobject ▸ haccess)]
    rfl
  | @immediateFinish r _ _ _ haccess =>
    obtain ⟨hstack, hserves⟩ := h.immediate hθ [] (List.forall_mem_nil _) (s.object i) q.object
    refine ⟨_, ?_, hserves, hobject⟩
    rw [SerialQueue.run_singleton, SerialQueue.step_finish hstack (hobject ▸ haccess)]
    rfl
  | @immediateThrow r _ _ _ =>
    obtain ⟨hstack, hserves⟩ := h.immediate hθ [] (List.forall_mem_nil _) (s.object i) q.object
    refine ⟨_, ?_, hserves, hobject⟩
    rw [SerialQueue.run_singleton, SerialQueue.step_abandon hstack]
    rfl

/-- What happens to a strand, in order. -/
def log (i : ι) (out : List (ι × SerialQueue.Event α)) : List (SerialQueue.Event α) :=
  out.filterMap fun p => if p.1 = i then some p.2 else none

omit [DecidableEq α] in
/-- What happens to a strand in two parts of a run. -/
@[simp] lemma log_append (i : ι) (out out' : List (ι × SerialQueue.Event α)) :
    log i (out ++ out') = log i out ++ log i out' := List.filterMap_append

omit [DecidableEq α] in
/-- What happens to the strand in which a thread makes a step. -/
@[simp] lemma log_map_self (i : ι) (es : List (SerialQueue.Event α)) :
    log i (es.map fun e => (i, e)) = es := by
  simp [log, List.filterMap_map]

omit [DecidableEq α] in
/-- Nothing happens to the other strands. -/
lemma log_map_of_ne {i j : ι} (h : j ≠ i) (es : List (SerialQueue.Event α)) :
    log i (es.map fun e => (j, e)) = [] := by
  simp [log, List.filterMap_map, h]

omit [DecidableEq ι] [DecidableEq α] in
/-- What a step does in one strand is local to it. -/
lemma Rule.top_outside {j : ι} {tail : List (Frame ι α ρ)} {x x' : Local ι α ρ β}
    {es : List (SerialQueue.Event α)} (h : Rule c j tail x x' es) (hij : j ≠ i) :
    Outside i x.top ∧ Outside i x'.top ∧ (x.top = [] → InUserCode tail) := by
  cases h <;> simp_all [Outside, Frame.Inside]

/-- The worker of a strand follows a step of a thread in any strand. -/
lemma Serves.acts {out : List (ι × SerialQueue.Event α)} {j : ι} (h : Serves s i q)
    (hobject : q.object = s.object i) (hacts : Acts c s s' out θ j) :
    ∃ q', SerialQueue.run c q (log i out) = some q' ∧ Serves s' i q' ∧
      q'.object = s'.object i := by
  obtain ⟨top, tail, x, es, hθ, hrule, rfl, rfl⟩ := hacts
  by_cases hij : j = i
  · subst hij
    obtain ⟨q', hrun, hserves, hobject'⟩ := h.rule hobject hθ hrule
    refine ⟨q', by rw [log_map_self]; exact hrun, hserves, hobject'.trans ?_⟩
    exact (put_self s θ j tail x).2.2.symm
  · obtain ⟨himpl, hqueued, hobject'⟩ := put_of_ne s θ (fun h => hij h.symm) tail x
    obtain ⟨htop, htop', htail⟩ := hrule.top_outside hij
    refine ⟨q, by rw [log_map_of_ne hij]; rfl, ?_, hobject.trans hobject'.symm⟩
    exact h.other himpl hqueued (fun φ hφ => stack_put_of_ne s hφ j tail x) hθ
      (stack_put_self s θ j tail x) htop htop' htail

omit [DecidableEq Θ] [DecidableEq α] in
/-- A thread that is in a strand, with the code of the user on top, is in a handler of it. -/
lemma Serves.inHandler_running (h : Serves s i q) (huser : InUserCode (s.stack θ))
    (hrunning : runningInThisThread i (s.stack θ) = true) :
    ∃ above r below, InHandler s i q θ above r below := by
  refine h.inHandler ?_ fun f tail hf hholds => ?_
  · intro hout
    obtain ⟨f, hf, hmatch⟩ := List.any_eq_true.mp hrunning
    rcases f with _ | _ | _ | ⟨j, r⟩ | _ | _
    · cases hmatch
    · cases hmatch
    · cases hmatch
    · have hj : j = i := of_decide_eq_true hmatch
      exact hout _ hf hj
    · cases hmatch
    · cases hmatch
  · rw [hf] at huser
    exact inUserCode_singleton_of_holds hholds huser

omit [DecidableEq α] in
/-- A handler of the strand calls another one, which runs immediately. -/
lemma Serves.call (h : Serves s i q) (huser : InUserCode (s.stack θ))
    (hrunning : runningInThisThread i (s.stack θ) = true) (r : ρ) :
    q.stack ≠ [] ∧ Serves (s.setStack θ (.immediate i r :: s.stack θ)) i
      { q with stack := r :: q.stack } := by
  obtain ⟨above, r₀, below, hhandler⟩ := h.inHandler_running huser hrunning
  refine ⟨hhandler.stack_ne_nil, ?_⟩
  have hstack : (s.setStack θ (.immediate i r :: s.stack θ)).stack θ =
      .immediate i r :: s.stack θ := Function.update_self _ _ _
  have hframes : (s.setStack θ (.immediate i r :: s.stack θ)).stack θ =
      (.immediate i r :: above) ++ .invoker i (some r₀) :: below := by
    rw [hstack, hhandler.hframes]
    rfl
  refine hhandler.serves rfl rfl (fun φ hφ => Function.update_of_ne hφ _ _) hframes ?_ rfl ?_
  · exact List.forall_mem_cons.mpr ⟨False.elim, hhandler.habove⟩
  · rw [hstack, hhandler.hstack]
    simp [handlers, Frame.handler?]

omit [DecidableEq Θ] [DecidableEq α] in
/-- When the strand is shut down, nobody is in a handler, and what waits is forgotten. -/
lemma Serves.shutDown (h : Serves s i q) (hidle : ∀ θ, s.stack θ = []) :
    Serves (s.setImpl i (s.impl i).shutDown) i { q with queue := [] } := by
  have himpl : (s.setImpl i (s.impl i).shutDown).impl i = (s.impl i).shutDown :=
    Function.update_self _ _ _
  rcases h with ⟨hlocked, hqueued, hout, hready, hwaiting, hqueue, hstack⟩ |
    ⟨hlocked, hqueued, hout, hqueue, hstack⟩ | ⟨φ, above, f, below, -, -, -, hframes, -⟩
  · exact .free (by rw [himpl]; exact hlocked) hqueued hout (by rw [himpl]; rfl)
      (by rw [himpl]; rfl) rfl hstack
  · exact .pool (by rw [himpl]; exact hlocked) hqueued hout (by rw [himpl]; rfl) hstack
  · rw [hidle φ] at hframes
    simp at hframes

/-- **Step lemma.**  The worker of a strand follows every step. -/
lemma Serves.step [Fintype Θ] {e : Event Θ ι α} {out : List (ι × SerialQueue.Event α)}
    (h : Serves s i q) (hobject : q.object = s.object i)
    (hstep : Strand.step c s e = some (s', out)) :
    ∃ q', SerialQueue.run c q (log i out) = some q' ∧ Serves s' i q' ∧
      q'.object = s'.object i := by
  obtain ⟨θ, j, op, -, huser, hrunning, rfl, rfl⟩ | ⟨θ, j, blocking, op, -, huser, rfl, rfl⟩ |
    ⟨-, -, θ, j, hacts⟩ | ⟨j, -, hidle, rfl, rfl⟩ := step_cases hstep
  · have hothers : ∀ φ, φ ≠ θ →
        (s.setStack θ (.immediate j (c.enter op) :: s.stack θ)).stack φ = s.stack φ :=
      fun φ hφ => by simp [State.setStack, hφ]
    have hθ' : (s.setStack θ (.immediate j (c.enter op) :: s.stack θ)).stack θ =
        [.immediate j (c.enter op)] ++ s.stack θ := by simp [State.setStack]
    by_cases hij : j = i
    · subst hij
      obtain ⟨hne, hserves⟩ := h.call huser hrunning (c.enter op)
      refine ⟨{ q with stack := c.enter op :: q.stack }, ?_, hserves, hobject⟩
      rw [show log j [(j, SerialQueue.Event.call op)] = [.call op] from log_map_self j [_],
        SerialQueue.run_singleton, SerialQueue.step_call op hne]
    · refine ⟨q, by rw [show log i [(j, SerialQueue.Event.call op)] = [] from
        log_map_of_ne hij [_]]; rfl, ?_, hobject⟩
      have hθ : s.stack θ = [] ++ s.stack θ := rfl
      refine h.other rfl rfl hothers hθ hθ' (outside_nil i) ?_ fun _ => huser
      simpa [Outside, Frame.Inside] using hij
  · refine ⟨q, rfl, ?_, hobject⟩
    have hθ : s.stack θ = [] ++ s.stack θ := rfl
    have hθ' : (s.setStack θ (.enqueue j op blocking :: s.stack θ)).stack θ =
        [.enqueue j op blocking] ++ s.stack θ := by simp [State.setStack]
    refine h.other rfl rfl (fun φ hφ => ?_) hθ hθ' (outside_nil i) ?_ fun _ => huser
    · simp [State.setStack, hφ]
    · simp [Outside, Frame.Inside]
  · exact h.acts hobject hacts
  · by_cases hij : j = i
    · subst hij
      refine ⟨{ q with queue := [] }, ?_, h.shutDown hidle, hobject⟩
      rw [show log j [(j, (SerialQueue.Event.clear : SerialQueue.Event α))] = [.clear] from
        log_map_self j [_], SerialQueue.run_singleton]
      rfl
    · refine ⟨q, by rw [show log i [(j, (SerialQueue.Event.clear : SerialQueue.Event α))] = [] from
        log_map_of_ne hij [_]]; rfl, ?_, hobject⟩
      have himpl : (s.setImpl j (s.impl j).shutDown).impl i = s.impl i :=
        Function.update_of_ne (fun h => hij h.symm) _ _
      exact h.congr himpl rfl rfl

/-- **Run lemma.**  After every run, what has happened to a strand is what a single worker does, and
the threads serve the strand as that worker does. -/
lemma exists_serves_run [Fintype Θ] {object : ι → β} {es : List (Event Θ ι α)}
    {out : List (ι × SerialQueue.Event α)}
    (hrun : Machine.run (Strand.step c) (State.init object) es = some (s, out)) (i : ι) :
    ∃ q, SerialQueue.run c (.init (object i)) (log i out) = some q ∧ Serves s i q ∧
      q.object = s.object i := by
  refine Machine.run_history (I := fun t _ out => ∃ q,
    SerialQueue.run c (.init (object i)) (log i out) = some q ∧ Serves t i q ∧
      q.object = t.object i) hrun ⟨_, rfl, serves_init object i, rfl⟩ ?_
  intro t t' e es out out' ⟨q, hq, hserves, hobject⟩ hstep
  obtain ⟨q', hq', hserves', hobject'⟩ := hserves.step hobject hstep
  refine ⟨q', ?_, hserves', hobject'⟩
  rw [log_append]
  exact SerialQueue.run_append_iff.mpr ⟨q, hq, hq'⟩

end Step

/-! ## Results -/

section Results

open SerialQueue (submitted begun)

variable {Θ ι α ρ β : Type*} [DecidableEq Θ] [DecidableEq ι] [DecidableEq α] [Fintype Θ]
variable {c : Code α ρ β} {object : ι → β} {s : State Θ ι α ρ β} {es : List (Event Θ ι α)}
variable {out : List (ι × SerialQueue.Event α)}

/-- A handler that increments a counter in two accesses: it reads the counter and then writes what
it has read, increased by one. -/
def increment : Code Unit (Option (Option ℕ)) ℕ where
  enter _ := some none
  access
    | some none, b => some (some (some b), b)
    | some (some n), _ => some (none, n + 1)
    | none, _ => none
  rank r := r.elim 0 fun r => r.elim 2 fun _ => 1
  rank_lt := by
    intro r r' b b' h
    rcases r with _ | _ | n
    · cases h
    · cases h
      exact Nat.one_lt_two
    · cases h
      exact Nat.one_pos

/-- Two threads post a handler to one strand at the same time, and the second thread executes
both. -/
def twoPosts : List (Event (Fin 2) Unit Unit) :=
  [.submit 0 () .never (), .submit 1 () .never (), .advance 0, .advance 1, .advance 0, .advance 0,
    .start 1 (), .advance 1, .advance 1, .advance 1, .advance 1, .advance 1, .advance 1,
    .advance 1, .start 1 (), .advance 1, .advance 1, .advance 1, .advance 1]

/-- **Refinement.**  Whatever the threads do and in whatever order, what happens to a strand is what
happens to a queue that a single worker serves; the object that the strand protects is the object
of the worker, and the handlers of the strand that have begun and not ended are its jobs: they are
on the stack of one thread. -/
theorem serial_run (hrun : Machine.run (step c) (State.init object) es = some (s, out)) (i : ι) :
    ∃ q, SerialQueue.run c (.init (object i)) (log i out) = some q ∧ q.object = s.object i ∧
      ((q.stack = [] ∧ ∀ θ, handlers i (s.stack θ) = []) ∨
        ∃ θ, q.stack = handlers i (s.stack θ) ∧ ∀ φ, φ ≠ θ → handlers i (s.stack φ) = []) := by
  obtain ⟨q, hq, hserves, hobject⟩ := exists_serves_run hrun i
  refine ⟨q, hq, hobject, ?_⟩
  rcases hserves with ⟨-, -, hout, -, -, -, hstack⟩ | ⟨-, -, hout, -, hstack⟩ |
    ⟨θ, -, -, -, -, -, hout, -, -, -, -, -, -, -, hstack⟩
  · exact Or.inl ⟨hstack, fun θ => handlers_of_outside (hout θ)⟩
  · exact Or.inl ⟨hstack, fun θ => handlers_of_outside (hout θ)⟩
  · exact Or.inr ⟨θ, hstack, fun φ hφ => handlers_of_outside (hout φ hφ)⟩

/-- Two handlers that two threads have posted are executed as by one worker. -/
theorem serial_run_twoPosts :
    ∃ s out, Machine.run (step increment) (State.init fun _ => 0) twoPosts = some (s, out) ∧
      ∃ q, SerialQueue.run increment (.init 0) (log () out) = some q ∧ q.object = s.object () ∧
        ((q.stack = [] ∧ ∀ θ, handlers () (s.stack θ) = []) ∨
          ∃ θ, q.stack = handlers () (s.stack θ) ∧
            ∀ φ, φ ≠ θ → handlers () (s.stack φ) = []) := by
  obtain ⟨⟨s, out⟩, hrun⟩ := Option.isSome_iff_exists.mp
    (show (Machine.run (step increment) (State.init fun _ => 0) twoPosts).isSome from rfl)
  exact ⟨s, out, hrun, serial_run hrun ()⟩

/-- **Mutual exclusion.**  Only one thread at a time executes a handler of a strand, accesses its
`ready_queue_` or is about to schedule it. -/
theorem inside_subsingleton (hrun : Machine.run (step c) (State.init object) es = some (s, out))
    (i : ι) : {θ | ∃ f ∈ s.stack θ, f.Inside i}.Subsingleton := by
  obtain ⟨q, -, hserves, -⟩ := exists_serves_run hrun i
  rintro θ ⟨f, hf, hfi⟩ φ ⟨g, hg, hgi⟩
  rcases hserves with ⟨-, -, hout, -⟩ | ⟨-, -, hout, -⟩ | ⟨ψ, -, -, -, -, -, hout, -⟩
  · exact absurd hfi (hout θ f hf)
  · exact absurd hfi (hout θ f hf)
  · have hψ : ∀ {χ : Θ} {k : Frame ι α ρ}, k ∈ s.stack χ → k.Inside i → χ = ψ := by
      intro χ k hk hki
      by_contra hne
      exact hout χ hne k hk hki
    exact (hψ hf hfi).trans (hψ hg hgi).symm

/-- Two threads post to one strand: only one of them is ever within it. -/
theorem inside_subsingleton_twoPosts :
    ∃ s out, Machine.run (step increment) (State.init fun _ => 0) (twoPosts.take 9) =
        some (s, out) ∧ {θ | ∃ f ∈ s.stack θ, f.Inside ()}.Subsingleton := by
  obtain ⟨⟨s, out⟩, hrun⟩ := Option.isSome_iff_exists.mp
    (show (Machine.run (step increment) (State.init fun _ => 0) (twoPosts.take 9)).isSome from rfl)
  exact ⟨s, out, hrun, inside_subsingleton hrun ()⟩

omit [DecidableEq α] in
/-- An entry of the log of a strand is an entry of the log of all strands. -/
lemma mem_log_iff {i : ι} {e : SerialQueue.Event α} : e ∈ log i out ↔ (i, e) ∈ out := by
  simp only [log, List.mem_filterMap, Option.ite_none_right_eq_some, Option.some.injEq,
    Prod.exists]
  constructor
  · rintro ⟨j, e', hmem, rfl, rfl⟩
    exact hmem
  · exact fun hmem => ⟨i, e, hmem, rfl, rfl⟩

omit [DecidableEq α] in
/-- Only `shutdown` drops operations. -/
lemma clear_notMem_log (hrun : Machine.run (step c) (State.init object) es = some (s, out)) {i : ι}
    (hshutdown : .shutdown i ∉ es) : .clear ∉ log i out := by
  refine Machine.run_history (I := fun _ es out => .shutdown i ∉ es → .clear ∉ log i out) hrun
    (fun _ => by simp [log]) ?_ hshutdown
  intro t t' e es out out' ih hstep hes
  rw [log_append, List.mem_append, not_or]
  refine ⟨ih fun h => hes (List.mem_append_left _ h), fun hclear => ?_⟩
  rw [mem_log_iff] at hclear
  obtain ⟨θ, j, op, -, -, -, -, rfl⟩ | ⟨θ, j, blocking, op, -, -, -, rfl⟩ |
    ⟨-, -, θ, j, top, tail, x, fs, -, hrule, -, rfl⟩ | ⟨j, rfl, -, -, rfl⟩ := step_cases hstep
  · simp at hclear
  · simp at hclear
  · obtain ⟨f, hf, heq⟩ := List.mem_map.mp hclear
    obtain ⟨rfl, rfl⟩ := Prod.mk.inj heq
    cases hrule <;> simp at hf
  · simp only [List.mem_singleton, Prod.mk.injEq, and_true] at hclear
    subst hclear
    exact hes (List.mem_append_right _ (List.mem_singleton_self _))

/-- The operations of a strand are begun in the order in which `enqueue` has accepted them, and none
of them twice.  Unless the strand is shut down none is overtaken, and when nobody holds the strand
all of them have been executed. -/
theorem begun_prefix_submitted
    (hrun : Machine.run (step c) (State.init object) es = some (s, out)) (i : ι) :
    (begun (log i out)).Sublist (submitted (log i out)) ∧
      (.shutdown i ∉ es → begun (log i out) <+: submitted (log i out) ∧
        ((s.impl i).locked = false →
          begun (log i out) = submitted (log i out) ∧ ∀ θ, handlers i (s.stack θ) = [])) := by
  obtain ⟨q, hq, hserves, -⟩ := exists_serves_run hrun i
  refine ⟨(List.sublist_append_left _ _).trans (SerialQueue.begun_append_queue_sublist hq), ?_⟩
  intro hshutdown
  have heq := SerialQueue.begun_append_queue_eq hq (clear_notMem_log hrun hshutdown)
  refine ⟨⟨q.queue, heq⟩, fun hlocked => ?_⟩
  obtain ⟨-, hout, -, -, hqueue, -⟩ := hserves.of_unlocked hlocked
  rw [hqueue, List.append_nil] at heq
  exact ⟨heq, fun θ => handlers_of_outside (hout θ)⟩

/-- Two handlers that two threads have posted are executed in the order in which the strand has
accepted them. -/
theorem begun_prefix_submitted_twoPosts :
    ∃ s out, Machine.run (step increment) (State.init fun _ => 0) twoPosts = some (s, out) ∧
      (begun (log () out)).Sublist (submitted (log () out)) ∧
        (.shutdown () ∉ twoPosts → begun (log () out) <+: submitted (log () out) ∧
          ((s.impl ()).locked = false →
            begun (log () out) = submitted (log () out) ∧ ∀ θ, handlers () (s.stack θ) = [])) := by
  obtain ⟨⟨s, out⟩, hrun⟩ := Option.isSome_iff_exists.mp
    (show (Machine.run (step increment) (State.init fun _ => 0) twoPosts).isSome from rfl)
  exact ⟨s, out, hrun, begun_prefix_submitted hrun ()⟩

/-- **Atomicity.**  Unless a handler of the strand calls another one at once or exits by an
exception: when no thread executes a handler of the strand, its object is what the handlers that
have begun make of it as wholes, one after another; and when a thread executes one, this will be so
when the handler has made the accesses that it has left. -/
theorem object_eq_foldl (hrun : Machine.run (step c) (State.init object) es = some (s, out)) {i : ι}
    (hquiet : ∀ e ∈ log i out, ¬ e.Disturbs) :
    ((∀ θ, handlers i (s.stack θ) = []) →
        s.object i = (begun (log i out)).foldl c.exec (object i)) ∧
      ∀ θ, handlers i (s.stack θ) ≠ [] →
        (handlers i (s.stack θ)).foldl (fun b r => c.complete r b) (s.object i) =
          (begun (log i out)).foldl c.exec (object i) := by
  obtain ⟨q, hq, hserves, hobject⟩ := exists_serves_run hrun i
  have heq := SerialQueue.complete_eq_foldl hq hquiet
  rw [SerialQueue.State.complete, hobject] at heq
  constructor
  · intro hidle
    have hstack : q.stack = [] := by
      rcases hserves with ⟨-, -, -, -, -, -, hstack⟩ | ⟨-, -, -, -, hstack⟩ |
        ⟨θ, -, -, -, -, -, -, -, -, -, -, -, -, -, hstack⟩
      · exact hstack
      · exact hstack
      · rw [hstack, hidle θ]
    rw [hstack] at heq
    exact heq
  · intro θ hθ
    have hstack : q.stack = handlers i (s.stack θ) := by
      rcases hserves with ⟨-, -, hout, -⟩ | ⟨-, -, hout, -⟩ |
        ⟨φ, -, -, -, -, -, hout, -, -, -, -, -, -, -, hstack⟩
      · exact absurd (handlers_of_outside (hout θ)) hθ
      · exact absurd (handlers_of_outside (hout θ)) hθ
      · have hφ : θ = φ := by
          by_contra hne
          exact hθ (handlers_of_outside (hout θ hne))
        rw [hφ, hstack]
    rw [hstack] at heq
    exact heq

/-- The increments of two threads are not lost, although each of them is two accesses. -/
theorem object_eq_foldl_twoPosts :
    ∃ s, Machine.run (step increment) (State.init fun _ => 0) twoPosts =
        some (s, [((), .submit ()), ((), .submit ()), ((), .begin ()), ((), .access),
          ((), .access), ((), .finish), ((), .begin ()), ((), .access), ((), .access),
          ((), .finish)]) ∧
      (((∀ θ, handlers () (s.stack θ) = []) → s.object () = 2) ∧
        ∀ θ, handlers () (s.stack θ) ≠ [] →
          (handlers () (s.stack θ)).foldl (fun b r => increment.complete r b) (s.object ()) =
            2) := by
  obtain ⟨⟨s, out⟩, hrun⟩ := Option.isSome_iff_exists.mp
    (show (Machine.run (step increment) (State.init fun _ => 0) twoPosts).isSome from rfl)
  have hout : (Machine.run (step increment) (State.init fun _ => 0) twoPosts).map Prod.snd =
      some [((), .submit ()), ((), .submit ()), ((), .begin ()), ((), .access), ((), .access),
        ((), .finish), ((), .begin ()), ((), .access), ((), .access), ((), .finish)] := rfl
  rw [hrun, Option.map_some, Option.some.injEq] at hout
  subst hout
  refine ⟨s, hrun, object_eq_foldl hrun ?_⟩
  simp [log, SerialQueue.Event.Disturbs]

end Results

end Strand

end AsioStudy
