import AsioStudy.Foundation.Machine

/-!
# Two machines and the streams between them

Two machines exchange items over two reliable streams.  An action of one machine puts items at the
end of the stream to the other one, and an event of a machine may take items from the beginning of
the stream to it, as many as it likes among those that are there: a stream delivers in order and in
any portions.

Every run of the pair is seen by each machine as a run of its own (`run_first`, `run_second`), and
on each stream what was put is what was taken and what is still there (`run_conservation`).
-/

namespace AsioStudy

namespace Duplex

open Machine

variable {σ τ ε ζ α γ β : Type*} [DecidableEq β]

/-- How a machine uses the streams: the items that an event takes, and those that an action puts. -/
structure Port (ε α β : Type*) where
  /-- The items that an event takes from the stream to the machine. -/
  takes : ε → List β
  /-- The items that an action puts into the stream from the machine. -/
  puts : α → List β

/-- The items that events have taken. -/
def Port.taken (p : Port ε α β) (es : List ε) : List β := es.flatMap p.takes

/-- The items that actions have put. -/
def Port.put (p : Port ε α β) (out : List α) : List β := out.flatMap p.puts

/-- Two machines and the streams between them. -/
structure State (σ τ β : Type*) where
  /-- The first machine. -/
  first : σ
  /-- The second machine. -/
  second : τ
  /-- The stream from the first to the second machine. -/
  toSecond : List β
  /-- The stream from the second to the first machine. -/
  toFirst : List β
  deriving DecidableEq

/-- An event of one of the machines, which is possible if the items that it takes are the next ones
of the stream. -/
def step (δ₁ : σ → ε → Option (σ × List α)) (δ₂ : τ → ζ → Option (τ × List γ)) (p₁ : Port ε α β)
    (p₂ : Port ζ γ β) (s : State σ τ β) : ε ⊕ ζ → Option (State σ τ β × List (α ⊕ γ))
  | .inl e =>
    if p₁.takes e <+: s.toFirst then
      (δ₁ s.first e).map fun r =>
        ({ s with
          first := r.1
          toSecond := s.toSecond ++ p₁.put r.2
          toFirst := s.toFirst.drop (p₁.takes e).length }, r.2.map Sum.inl)
    else none
  | .inr e =>
    if p₂.takes e <+: s.toSecond then
      (δ₂ s.second e).map fun r =>
        ({ s with
          second := r.1
          toSecond := s.toSecond.drop (p₂.takes e).length
          toFirst := s.toFirst ++ p₂.put r.2 }, r.2.map Sum.inr)
    else none

/-- The events of the first machine, or its actions. -/
def firsts (xs : List (α ⊕ γ)) : List α := xs.filterMap Sum.getLeft?

/-- The events of the second machine, or its actions. -/
def seconds (xs : List (α ⊕ γ)) : List γ := xs.filterMap Sum.getRight?

variable {δ₁ : σ → ε → Option (σ × List α)} {δ₂ : τ → ζ → Option (τ × List γ)} {p₁ : Port ε α β}
  {p₂ : Port ζ γ β}

/-- What an event of the first machine does. -/
lemma step_inl_iff {s s' : State σ τ β} {e : ε} {o : List (α ⊕ γ)} :
    step δ₁ δ₂ p₁ p₂ s (.inl e) = some (s', o) ↔
      ∃ t out rest, s.toFirst = p₁.takes e ++ rest ∧ δ₁ s.first e = some (t, out) ∧
        s' = { s with first := t, toSecond := s.toSecond ++ p₁.put out, toFirst := rest } ∧
        o = out.map Sum.inl := by
  rw [step, Option.ite_none_right_eq_some, Option.map_eq_some_iff]
  constructor
  · rintro ⟨⟨rest, hrest⟩, ⟨t, out⟩, hstep, heq⟩
    obtain ⟨rfl, rfl⟩ := Prod.mk.inj heq
    refine ⟨t, out, rest, hrest.symm, hstep, ?_, rfl⟩
    rw [← hrest, List.drop_left]
  · rintro ⟨t, out, rest, hrest, hstep, rfl, rfl⟩
    refine ⟨⟨rest, hrest.symm⟩, (t, out), hstep, ?_⟩
    rw [hrest, List.drop_left]

/-- What an event of the second machine does. -/
lemma step_inr_iff {s s' : State σ τ β} {e : ζ} {o : List (α ⊕ γ)} :
    step δ₁ δ₂ p₁ p₂ s (.inr e) = some (s', o) ↔
      ∃ t out rest, s.toSecond = p₂.takes e ++ rest ∧ δ₂ s.second e = some (t, out) ∧
        s' = { s with second := t, toSecond := rest, toFirst := s.toFirst ++ p₂.put out } ∧
        o = out.map Sum.inr := by
  rw [step, Option.ite_none_right_eq_some, Option.map_eq_some_iff]
  constructor
  · rintro ⟨⟨rest, hrest⟩, ⟨t, out⟩, hstep, heq⟩
    obtain ⟨rfl, rfl⟩ := Prod.mk.inj heq
    refine ⟨t, out, rest, hrest.symm, hstep, ?_, rfl⟩
    rw [← hrest, List.drop_left]
  · rintro ⟨t, out, rest, hrest, hstep, rfl, rfl⟩
    refine ⟨⟨rest, hrest.symm⟩, (t, out), hstep, ?_⟩
    rw [hrest, List.drop_left]

/-- When an event of the first machine is impossible although its items are there, it is impossible
for the machine. -/
lemma first_eq_none_of_step {s : State σ τ β} {e : ε} (h : step δ₁ δ₂ p₁ p₂ s (.inl e) = none)
    (htakes : p₁.takes e <+: s.toFirst) : δ₁ s.first e = none := by
  rwa [step, if_pos htakes, Option.map_eq_none_iff] at h

/-- When an event of the second machine is impossible although its items are there, it is impossible
for the machine. -/
lemma second_eq_none_of_step {s : State σ τ β} {e : ζ} (h : step δ₁ δ₂ p₁ p₂ s (.inr e) = none)
    (htakes : p₂.takes e <+: s.toSecond) : δ₂ s.second e = none := by
  rwa [step, if_pos htakes, Option.map_eq_none_iff] at h

/-- The actions of one machine among its own. -/
lemma filterMap_view (out : List α) (out' : List γ) :
    (out.map (Sum.inl (β := γ))).filterMap Sum.getLeft? = out ∧
      (out.map (Sum.inl (β := γ))).filterMap Sum.getRight? = [] ∧
      (out'.map (Sum.inr (α := α))).filterMap Sum.getRight? = out' ∧
      (out'.map (Sum.inr (α := α))).filterMap Sum.getLeft? = [] := by
  simp [List.filterMap_map, Function.comp_def]

/-- **The first machine.**  It sees a run of the pair as a run of its own. -/
theorem run_first {s s' : State σ τ β} {es : List (ε ⊕ ζ)} {out : List (α ⊕ γ)}
    (hrun : run (step δ₁ δ₂ p₁ p₂) s es = some (s', out)) :
    run δ₁ s.first (firsts es) = some (s'.first, firsts out) := by
  have hstep : ∀ (u u' : State σ τ β) t e o, t = u.first →
      step δ₁ δ₂ p₁ p₂ u e = some (u', o) →
      ∃ t', run δ₁ t (Sum.getLeft? e).toList = some (t', o.filterMap Sum.getLeft?) ∧
        t' = u'.first := by
    rintro u u' _ e o rfl he
    cases e with
    | inl e =>
      obtain ⟨t, out, rest, -, hstep, rfl, rfl⟩ := step_inl_iff.mp he
      refine ⟨t, ?_, rfl⟩
      rw [(filterMap_view out []).1]
      simpa using hstep
    | inr e =>
      obtain ⟨t, out, rest, -, -, rfl, rfl⟩ := step_inr_iff.mp he
      refine ⟨u.first, ?_, rfl⟩
      rw [(filterMap_view [] out).2.2.2]
      rfl
  obtain ⟨t, ht, rfl⟩ := run_simulates Sum.getLeft? Sum.getLeft? hstep hrun rfl
  exact ht

/-- **The second machine.**  It sees a run of the pair as a run of its own. -/
theorem run_second {s s' : State σ τ β} {es : List (ε ⊕ ζ)} {out : List (α ⊕ γ)}
    (hrun : run (step δ₁ δ₂ p₁ p₂) s es = some (s', out)) :
    run δ₂ s.second (seconds es) = some (s'.second, seconds out) := by
  have hstep : ∀ (u u' : State σ τ β) t e o, t = u.second →
      step δ₁ δ₂ p₁ p₂ u e = some (u', o) →
      ∃ t', run δ₂ t (Sum.getRight? e).toList = some (t', o.filterMap Sum.getRight?) ∧
        t' = u'.second := by
    rintro u u' _ e o rfl he
    cases e with
    | inl e =>
      obtain ⟨t, out, rest, -, -, rfl, rfl⟩ := step_inl_iff.mp he
      refine ⟨u.second, ?_, rfl⟩
      rw [(filterMap_view out []).2.1]
      rfl
    | inr e =>
      obtain ⟨t, out, rest, -, hstep, rfl, rfl⟩ := step_inr_iff.mp he
      refine ⟨t, ?_, rfl⟩
      rw [(filterMap_view [] out).2.2.1]
      simpa using hstep
  obtain ⟨t, ht, rfl⟩ := run_simulates Sum.getRight? Sum.getRight? hstep hrun rfl
  exact ht

/-- **Conservation.**  What was put into a stream is what was taken from it, followed by what it
still contains. -/
theorem run_conservation {first : σ} {second : τ} {s : State σ τ β} {es : List (ε ⊕ ζ)}
    {out : List (α ⊕ γ)}
    (hrun : run (step δ₁ δ₂ p₁ p₂) ⟨first, second, [], []⟩ es = some (s, out)) :
    p₁.put (firsts out) = p₂.taken (seconds es) ++ s.toSecond ∧
      p₂.put (seconds out) = p₁.taken (firsts es) ++ s.toFirst := by
  refine run_history
    (I := fun t es out => p₁.put (firsts out) = p₂.taken (seconds es) ++ t.toSecond ∧
      p₂.put (seconds out) = p₁.taken (firsts es) ++ t.toFirst) hrun ⟨rfl, rfl⟩ ?_
  rintro t t' e es out o ⟨hsecond, hfirst⟩ he
  unfold firsts seconds Port.put Port.taken at hsecond hfirst ⊢
  cases e with
  | inl e =>
    obtain ⟨u, o, rest, hrest, -, rfl, rfl⟩ := step_inl_iff.mp he
    have hview := filterMap_view (γ := γ) o []
    constructor
    · rw [List.filterMap_append, List.flatMap_append, hsecond, hview.1]
      simp [Port.put]
    · rw [List.filterMap_append, List.flatMap_append, hfirst, hview.2.1, hrest]
      simp
  | inr e =>
    obtain ⟨u, o, rest, hrest, -, rfl, rfl⟩ := step_inr_iff.mp he
    have hview := filterMap_view (α := α) [] o
    constructor
    · rw [List.filterMap_append, List.flatMap_append, hsecond, hview.2.2.2, hrest]
      simp
    · rw [List.filterMap_append, List.flatMap_append, hfirst, hview.2.2.1]
      simp [Port.put]

end Duplex

end AsioStudy
