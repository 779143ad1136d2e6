import Mathlib

/-!
# Machines that react to events

A program driven by completion handlers is a machine: an event, namely one handler that runs, takes
its state to another one and makes it perform some actions.  An event need not be possible in every
state, hence the transition is partial.

`run` iterates a transition over a sequence of events and collects the actions.  The rules of the
file derive a statement about whole runs from one about a single event: for an invariant of the
state (`run_invariant`), for the actions (`run_forall_mem`, or `forall_mem_iff_atEach` as an
equivalence), for a relation between the state and the whole past (`run_history`), for the view that
another machine has of the run (`run_simulates`) and for the length of a run (`run_length_add_le`).
-/

namespace AsioStudy

namespace Machine

variable {σ τ ε ζ α β : Type*}

/-- The run of a transition over a sequence of events: the last state and the actions, or `none` if
one of the events is impossible when its turn comes. -/
def run (δ : σ → ε → Option (σ × List α)) : σ → List ε → Option (σ × List α)
  | s, [] => some (s, [])
  | s, e :: es =>
    match δ s e with
    | none => none
    | some (s', out) => (run δ s' es).map fun r => (r.1, out ++ r.2)

/-- A state that some run from the initial state reaches. -/
def Reachable (δ : σ → ε → Option (σ × List α)) (init s : σ) : Prop :=
  ∃ es out, run δ init es = some (s, out)

variable {δ : σ → ε → Option (σ × List α)}

/-- The empty run stays where it is. -/
@[simp] lemma run_nil (s : σ) : run δ s [] = some (s, []) := rfl

/-- A run over at least one event is a step followed by a run. -/
lemma run_cons_iff {s s'' : σ} {e : ε} {es : List ε} {out : List α} :
    run δ s (e :: es) = some (s'', out) ↔
      ∃ s' o o', δ s e = some (s', o) ∧ run δ s' es = some (s'', o') ∧ out = o ++ o' := by
  rw [run]
  cases h : δ s e with
  | none => simp
  | some r =>
    obtain ⟨s', o⟩ := r
    simp only [Option.map_eq_some_iff, Prod.mk.injEq, Option.some.injEq, Prod.exists]
    constructor
    · intro ⟨t, o', hrun, ht, hout⟩
      exact ⟨s', o, o', ⟨rfl, rfl⟩, ht ▸ hrun, hout.symm⟩
    · intro ⟨t, p, o', ⟨ht, hp⟩, hrun, hout⟩
      subst ht hp
      exact ⟨s'', o', hrun, rfl, hout.symm⟩

/-- A run over two sequences of events is a run over the first followed by a run over the second. -/
lemma run_append_iff {s s'' : σ} {es fs : List ε} {out : List α} :
    run δ s (es ++ fs) = some (s'', out) ↔
      ∃ s' o o', run δ s es = some (s', o) ∧ run δ s' fs = some (s'', o') ∧ out = o ++ o' := by
  induction es generalizing s out with
  | nil => simp
  | cons e es ih =>
    simp only [List.cons_append, run_cons_iff, ih]
    constructor
    · intro ⟨t, o, _, hstep, ⟨t', o₁, o₂, hes, hfs, ho⟩, hout⟩
      refine ⟨t', o ++ o₁, o₂, ⟨t, o, o₁, hstep, hes, rfl⟩, hfs, ?_⟩
      rw [hout, ho, List.append_assoc]
    · intro ⟨t', _, o₂, ⟨t, o, o₁, hstep, hes, ho⟩, hfs, hout⟩
      refine ⟨t, o, o₁ ++ o₂, hstep, ⟨t', o₁, o₂, hes, hfs, rfl⟩, ?_⟩
      rw [hout, ho, List.append_assoc]

/-- A run over a single event is a step. -/
@[simp] lemma run_singleton (s : σ) (e : ε) : run δ s [e] = δ s e := by
  rw [run]
  cases h : δ s e with
  | none => rfl
  | some r => simp

/-- A run whose last event is given is a run followed by a step. -/
lemma run_concat_iff {s s'' : σ} {es : List ε} {e : ε} {out : List α} :
    run δ s (es ++ [e]) = some (s'', out) ↔
      ∃ s' o o', run δ s es = some (s', o) ∧ δ s' e = some (s'', o') ∧ out = o ++ o' := by
  simp only [run_append_iff, run_singleton]

/-- The initial state is reachable. -/
lemma Reachable.init (s : σ) : Reachable δ s s := ⟨[], [], rfl⟩

/-- What a run from a reachable state reaches is reachable. -/
lemma Reachable.run {init s s' : σ} (h : Reachable δ init s) {es : List ε} {out : List α}
    (hrun : run δ s es = some (s', out)) : Reachable δ init s' := by
  obtain ⟨fs, o, hfs⟩ := h
  exact ⟨fs ++ es, o ++ out, run_append_iff.mpr ⟨s, o, out, hfs, hrun, rfl⟩⟩

/-- **History rule.**  A relation between the past and the state holds after every run if it holds
initially and every step preserves it. -/
theorem run_history {I : σ → List ε → List α → Prop} {init s : σ} {es : List ε} {out : List α}
    (hrun : run δ init es = some (s, out)) (hinit : I init [] [])
    (hstep : ∀ s s' e es out o, I s es out → δ s e = some (s', o) →
      I s' (es ++ [e]) (out ++ o)) : I s es out := by
  induction es using List.reverseRecOn generalizing s out with
  | nil =>
    cases hrun
    exact hinit
  | append_singleton es e ih =>
    obtain ⟨t, o, o', hes, he, hout⟩ := run_concat_iff.mp hrun
    rw [hout]
    exact hstep t s e es o o' (ih hes) he

/-- **Invariant rule.**  A property of states that every step preserves is preserved by runs. -/
theorem run_invariant {I : σ → Prop} (hstep : ∀ s s' e o, I s → δ s e = some (s', o) → I s')
    {s s' : σ} {es : List ε} {out : List α} (hrun : run δ s es = some (s', out)) (hs : I s) :
    I s' :=
  run_history (I := fun t _ _ => I t) hrun hs fun t t' e _ _ o ht he => hstep t t' e o ht he

/-- A property that holds initially and that every step preserves holds of every reachable state. -/
theorem Reachable.invariant {I : σ → Prop} {init s : σ} (h : Reachable δ init s) (hinit : I init)
    (hstep : ∀ s s' e o, I s → δ s e = some (s', o) → I s') : I s := by
  obtain ⟨es, out, hrun⟩ := h
  exact run_invariant hstep hrun hinit

/-- A property of actions that every step from a state satisfying the invariant guarantees holds of
every action of a run. -/
theorem run_forall_mem {I : σ → Prop} {Q : α → Prop}
    (hstep : ∀ s s' e o, I s → δ s e = some (s', o) → I s' ∧ ∀ a ∈ o, Q a)
    {s s' : σ} {es : List ε} {out : List α} (hrun : run δ s es = some (s', out)) (hs : I s) :
    ∀ a ∈ out, Q a := by
  have h : I s' ∧ ∀ a ∈ out, Q a := by
    refine run_history (I := fun t _ o => I t ∧ ∀ a ∈ o, Q a) hrun ⟨hs, by simp⟩ ?_
    intro t t' e es o o' ⟨ht, ho⟩ he
    obtain ⟨ht', ho'⟩ := hstep t t' e o' ht he
    refine ⟨ht', fun a ha => ?_⟩
    rcases List.mem_append.mp ha with ha | ha
    · exact ho a ha
    · exact ho' a ha
  exact h.2

/-- **Simulation rule.**  Let another machine see some of the events and some of the actions.  If
related states react to an event in the way the other machine reacts to what it sees of it, then a
run is seen by the other machine as a run of its own. -/
theorem run_simulates {δ' : τ → ζ → Option (τ × List β)} {R : σ → τ → Prop}
    (view : ε → Option ζ) (viewOut : α → Option β)
    (hstep : ∀ s s' t e o, R s t → δ s e = some (s', o) →
      ∃ t', run δ' t (view e).toList = some (t', o.filterMap viewOut) ∧ R s' t')
    {s s' : σ} {t : τ} {es : List ε} {out : List α} (hrun : run δ s es = some (s', out))
    (hst : R s t) :
    ∃ t', run δ' t (es.filterMap view) = some (t', out.filterMap viewOut) ∧ R s' t' := by
  refine run_history
    (I := fun u es o =>
      ∃ t', run δ' t (es.filterMap view) = some (t', o.filterMap viewOut) ∧ R u t')
    hrun ⟨t, rfl, hst⟩ ?_
  intro u u' e es o o' ⟨t', ht', hut⟩ he
  obtain ⟨t'', ht'', hut'⟩ := hstep u u' t' e o' hut he
  refine ⟨t'', ?_, hut'⟩
  have hview : (es ++ [e]).filterMap view = es.filterMap view ++ (view e).toList := by
    rw [List.filterMap_append]
    rfl
  rw [hview, List.filterMap_append]
  exact run_append_iff.mpr ⟨t', _, _, ht', ht'', rfl⟩

/-! ## What holds along a run -/

/-- Every state of the run over `es` from `s` satisfies `P`, the first and the last one included. -/
def Always (δ : σ → ε → Option (σ × List α)) (P : σ → Prop) (s : σ) (es : List ε) : Prop :=
  ∀ fs gs t out, es = fs ++ gs → run δ s fs = some (t, out) → P t

/-- Every event of the run over `es` from `s` satisfies `Q` in the state in which it happens. -/
def AtEach (δ : σ → ε → Option (σ × List α)) (Q : σ → ε → Prop) (s : σ) (es : List ε) : Prop :=
  ∀ fs e gs t out, es = fs ++ e :: gs → run δ s fs = some (t, out) → Q t e

/-- The states of a run are its first state and those of the run after the first step. -/
lemma always_cons_iff {P : σ → Prop} {s s' : σ} {e : ε} {o : List α} (h : δ s e = some (s', o))
    (es : List ε) : Always δ P s (e :: es) ↔ P s ∧ Always δ P s' es := by
  constructor
  · intro hall
    refine ⟨hall [] (e :: es) s [] rfl rfl, fun fs gs t out hes hrun => ?_⟩
    exact hall (e :: fs) gs t (o ++ out) (by rw [hes]; rfl)
      (run_cons_iff.mpr ⟨s', o, out, h, hrun, rfl⟩)
  · rintro ⟨hs, hall⟩ fs gs t out hes hrun
    cases fs with
    | nil =>
      rw [run_nil] at hrun
      cases hrun
      exact hs
    | cons f fs =>
      obtain ⟨rfl, htail⟩ := List.cons.inj hes
      obtain ⟨t', o', out', hstep, hrun, -⟩ := run_cons_iff.mp hrun
      rw [h] at hstep
      cases hstep
      exact hall fs gs t out' htail hrun

/-- The events of a run are its first one and those of the run after it. -/
lemma atEach_cons_iff {Q : σ → ε → Prop} {s s' : σ} {e : ε} {o : List α}
    (h : δ s e = some (s', o)) (es : List ε) :
    AtEach δ Q s (e :: es) ↔ Q s e ∧ AtEach δ Q s' es := by
  constructor
  · intro hall
    refine ⟨hall [] e es s [] rfl rfl, fun fs f gs t out hes hrun => ?_⟩
    exact hall (e :: fs) f gs t (o ++ out) (by rw [hes]; rfl)
      (run_cons_iff.mpr ⟨s', o, out, h, hrun, rfl⟩)
  · rintro ⟨hs, hall⟩ fs f gs t out hes hrun
    cases fs with
    | nil =>
      obtain ⟨rfl, -⟩ := List.cons.inj hes
      rw [run_nil] at hrun
      cases hrun
      exact hs
    | cons f' fs =>
      obtain ⟨rfl, htail⟩ := List.cons.inj hes
      obtain ⟨t', o', out', hstep, hrun, -⟩ := run_cons_iff.mp hrun
      rw [h] at hstep
      cases hstep
      exact hall fs f gs t out' htail hrun

/-- The empty run has no events. -/
@[simp] lemma atEach_nil (Q : σ → ε → Prop) (s : σ) : AtEach δ Q s [] := by
  intro fs e gs t out hes
  simp at hes

/-- The empty run has one state. -/
@[simp] lemma always_nil_iff {P : σ → Prop} {s : σ} : Always δ P s [] ↔ P s := by
  constructor
  · exact fun h => h [] [] s [] rfl rfl
  · intro h fs gs t out hes hrun
    obtain ⟨rfl, -⟩ := List.append_eq_nil_iff.mp hes.symm
    rw [run_nil] at hrun
    cases hrun
    exact h

/-- **Exact conditions.**  If, from a state with the property `P`, an event leads to such a state
again exactly when it satisfies `Q`, then a run stays in `P` exactly when all of its events satisfy
`Q`. -/
theorem always_iff_atEach {I P : σ → Prop} {Q : σ → ε → Prop}
    (hI : ∀ s s' e o, I s → δ s e = some (s', o) → I s')
    (hstep : ∀ s s' e o, I s → P s → δ s e = some (s', o) → (P s' ↔ Q s e))
    {s s' : σ} {es : List ε} {out : List α} (hrun : run δ s es = some (s', out)) (hs : I s)
    (hP : P s) : Always δ P s es ↔ AtEach δ Q s es := by
  induction es generalizing s out with
  | nil => simp [hP]
  | cons e es ih =>
    obtain ⟨t, o, o', he, hrun', -⟩ := run_cons_iff.mp hrun
    rw [always_cons_iff he, atEach_cons_iff he, ← hstep s t e o hs hP he]
    constructor
    · rintro ⟨-, hall⟩
      have ht : P t := hall [] es t [] rfl rfl
      exact ⟨ht, (ih hrun' (hI s t e o hs he) ht).mp hall⟩
    · rintro ⟨ht, hall⟩
      exact ⟨hP, (ih hrun' (hI s t e o hs he) ht).mpr hall⟩

/-- Two conditions on events that mean the same in every state that a run can reach under the first
one hold of the same runs. -/
theorem atEach_congr {I : σ → Prop} {Q Q' : σ → ε → Prop}
    (hI : ∀ s s' e o, I s → Q s e → δ s e = some (s', o) → I s')
    (hiff : ∀ s s' e o, I s → δ s e = some (s', o) → (Q s e ↔ Q' s e))
    {s s' : σ} {es : List ε} {out : List α} (hrun : run δ s es = some (s', out)) (hs : I s) :
    AtEach δ Q s es ↔ AtEach δ Q' s es := by
  induction es generalizing s out with
  | nil => simp
  | cons e es ih =>
    obtain ⟨t, o, o', he, hrun', -⟩ := run_cons_iff.mp hrun
    rw [atEach_cons_iff he, atEach_cons_iff he, ← hiff s t e o hs he]
    constructor
    · rintro ⟨hQ, hall⟩
      exact ⟨hQ, (ih hrun' (hI s t e o hs hQ he)).mp hall⟩
    · rintro ⟨hQ, hall⟩
      exact ⟨hQ, (ih hrun' (hI s t e o hs hQ he)).mpr hall⟩

/-- **Exact conditions for actions.**  If the actions of an event have a property exactly when the
event satisfies `Q`, then all actions of a run have it exactly when all of its events satisfy
`Q`. -/
theorem forall_mem_iff_atEach {I : σ → Prop} {Q : σ → ε → Prop} {R : α → Prop} {s s' : σ}
    {es : List ε} {out : List α}
    (hstep : ∀ t t' e o, e ∈ es → I t → δ t e = some (t', o) → I t' ∧ ((∀ a ∈ o, R a) ↔ Q t e))
    (hrun : run δ s es = some (s', out)) (hs : I s) :
    (∀ a ∈ out, R a) ↔ AtEach δ Q s es := by
  induction es generalizing s out with
  | nil =>
    rw [run_nil] at hrun
    cases hrun
    simp
  | cons e es ih =>
    obtain ⟨t, o, o', he, hrun', rfl⟩ := run_cons_iff.mp hrun
    obtain ⟨ht, hiff⟩ := hstep s t e o List.mem_cons_self hs he
    rw [List.forall_mem_append, atEach_cons_iff he, hiff]
    exact and_congr_right fun _ =>
      ih (fun t t' f o hf => hstep t t' f o (List.mem_cons_of_mem e hf)) hrun' ht

/-! ## Machines that come to rest -/

/-- **Measure rule.**  If every step lowers a measure, the length of a run is bounded by what the
measure has lost. -/
theorem run_length_add_le {I : σ → Prop} {μ : σ → ℕ}
    (hstep : ∀ s s' e o, I s → δ s e = some (s', o) → I s' ∧ μ s' < μ s)
    {s s' : σ} {es : List ε} {out : List α} (hrun : run δ s es = some (s', out)) (hs : I s) :
    es.length + μ s' ≤ μ s := by
  have h : I s' ∧ es.length + μ s' ≤ μ s := by
    refine run_history (I := fun t es _ => I t ∧ es.length + μ t ≤ μ s) hrun ⟨hs, by simp⟩ ?_
    intro t t' e es o o' ⟨ht, hle⟩ he
    obtain ⟨ht', hlt⟩ := hstep t t' e o' ht he
    refine ⟨ht', ?_⟩
    rw [List.length_append, List.length_singleton]
    omega
  exact h.2

/-- If every step lowers a measure, some run leads to a state in which no event is possible. -/
theorem exists_run_stuck {I : σ → Prop} {μ : σ → ℕ}
    (hstep : ∀ s s' e o, I s → δ s e = some (s', o) → I s' ∧ μ s' < μ s) {s : σ} (hs : I s) :
    ∃ es s' out, run δ s es = some (s', out) ∧ ∀ e, δ s' e = none := by
  induction hn : μ s using Nat.strong_induction_on generalizing s with
  | _ n ih =>
    by_cases hstuck : ∀ e, δ s e = none
    · exact ⟨[], s, [], rfl, hstuck⟩
    · push Not at hstuck
      obtain ⟨e, he⟩ := hstuck
      obtain ⟨⟨t, o⟩, ht⟩ := Option.ne_none_iff_exists'.mp he
      obtain ⟨hit, hlt⟩ := hstep s t e o hs ht
      obtain ⟨es, s', out, hrun, hstuck'⟩ := ih (μ t) (hn ▸ hlt) hit rfl
      exact ⟨e :: es, s', o ++ out, run_cons_iff.mpr ⟨t, o, out, ht, hrun, rfl⟩, hstuck'⟩

/-! ## Machines that are never stuck -/

/-- The run of a transition that is possible for every event. -/
def runTotal (δ : σ → ε → σ × List α) : σ → List ε → σ × List α
  | s, [] => (s, [])
  | s, e :: es => ((runTotal δ (δ s e).1 es).1, (δ s e).2 ++ (runTotal δ (δ s e).1 es).2)

/-- A run over two sequences of events is a run over the first followed by a run over the second. -/
lemma runTotal_append (δ : σ → ε → σ × List α) (s : σ) (es fs : List ε) :
    runTotal δ s (es ++ fs) =
      ((runTotal δ (runTotal δ s es).1 fs).1,
        (runTotal δ s es).2 ++ (runTotal δ (runTotal δ s es).1 fs).2) := by
  induction es generalizing s with
  | nil => rfl
  | cons e es ih =>
    rw [List.cons_append, runTotal, ih, runTotal, List.append_assoc]

end Machine

end AsioStudy
