import Mathlib

/-!
# Two parties that talk over streams

Each of two parties reads from the stream of the other one and writes to its own, as a program does
that uses blocking calls.  The streams keep the order, and what was written arrives some time later,
item by item.  Hence the parties and the two streams are four actors whose steps can be interleaved
in any way.

The steps of different actors commute (`step_commutes`).  By `Confluence.exists_rest` it is enough
to know one complete run: every other run can be continued to the same end.
-/

namespace AsioStudy

/-! ## Machines whose events commute -/

namespace Confluence

variable {σ ε : Type*}

/-- A sequence of events. -/
def run (δ : σ → ε → Option σ) (s : σ) (es : List ε) : Option σ := es.foldlM δ s

variable {δ : σ → ε → Option σ} {s t u : σ}

/-- The empty sequence of events. -/
@[simp] lemma run_nil : run δ s [] = some s := rfl

/-- A first event and the others. -/
lemma run_cons_iff {e : ε} {es : List ε} :
    run δ s (e :: es) = some t ↔ ∃ u, δ s e = some u ∧ run δ u es = some t := by
  rw [run, List.foldlM_cons, Option.bind_eq_bind, Option.bind_eq_some_iff]
  rfl

/-- A sequence of events in two parts. -/
lemma run_append_iff {es fs : List ε} :
    run δ s (es ++ fs) = some t ↔ ∃ u, run δ s es = some u ∧ run δ u fs = some t := by
  rw [run, List.foldlM_append, Option.bind_eq_bind, Option.bind_eq_some_iff]
  rfl

/-- Two different events that are possible in the same state can happen in either order, with the
same result. -/
def Commutes (δ : σ → ε → Option σ) : Prop :=
  ∀ ⦃s t u e f⦄, e ≠ f → δ s e = some t → δ s f = some u →
    ∃ v, δ t f = some v ∧ δ u e = some v

/-- An event that is possible can be the first one of a complete run. -/
lemma exists_rest_of_step (hδ : Commutes δ) {es : List ε} (hrun : run δ s es = some t)
    (hend : ∀ e, δ t e = none) {f : ε} (hf : δ s f = some u) :
    ∃ fs, run δ u fs = some t ∧ es.Perm (f :: fs) := by
  induction es generalizing s u with
  | nil =>
    cases hrun
    rw [hend f] at hf
    cases hf
  | cons e es ih =>
    obtain ⟨a, ha, hrun⟩ := run_cons_iff.mp hrun
    by_cases hef : e = f
    · subst hef
      rw [ha] at hf
      cases hf
      exact ⟨es, hrun, List.Perm.refl _⟩
    · -- the event is still possible after the first one, and commutes with it
      obtain ⟨v, hv, hv'⟩ := hδ hef ha hf
      obtain ⟨fs, hfs, hperm⟩ := ih hrun hv
      refine ⟨e :: fs, run_cons_iff.mpr ⟨v, hv', hfs⟩, ?_⟩
      exact (hperm.cons e).trans (List.Perm.swap f e fs)

/-- **Confluence.**  If one run ends in a state in which nothing can happen, then every run can be
continued to that state, and altogether the same events happen. -/
theorem exists_rest (hδ : Commutes δ) {es fs : List ε} (hrun : run δ s es = some t)
    (hend : ∀ e, δ t e = none) (hfs : run δ s fs = some u) :
    ∃ gs, run δ u gs = some t ∧ es.Perm (fs ++ gs) := by
  induction fs generalizing s es with
  | nil =>
    cases hfs
    exact ⟨es, hrun, List.Perm.refl _⟩
  | cons f fs ih =>
    obtain ⟨a, ha, hfs⟩ := run_cons_iff.mp hfs
    obtain ⟨es', hes', hperm⟩ := exists_rest_of_step hδ hrun hend ha
    obtain ⟨gs, hgs, hperm'⟩ := ih hes' hfs
    exact ⟨gs, hgs, hperm.trans (hperm'.cons f)⟩

end Confluence

/-! ## Parties and streams -/

namespace Dialogue

variable {α ρ : Type*}

/-- A program that reads and writes streams of items.  `eof` is how it goes on when the stream ends
before it has what it reads. -/
inductive Party (α ρ : Type*) where
  | read (n : ℕ) (next : List α → Party α ρ) (eof : Party α ρ)
  | write (items : List α) (next : Party α ρ)
  | stop (result : ρ)

/-- The party has stopped, and writes nothing any more. -/
def Party.stopped : Party α ρ → Bool
  | .stop _ => true
  | _ => false

/-- A party on its own, on a stream that ends: what it writes, its result and what it has not
read. -/
def Party.feed : Party α ρ → List α → List α × ρ × List α
  | .read n next eof, input =>
    if n ≤ input.length then (next (input.take n)).feed (input.drop n) else eof.feed []
  | .write items next, input => (items ++ (next.feed input).1, (next.feed input).2)
  | .stop result, input => ([], result, input)

/-- The two sides. -/
inductive Side where
  | left
  | right
  deriving DecidableEq, Repr

/-- The other side. -/
def Side.other : Side → Side
  | .left => .right
  | .right => .left

/-- The other side is not the same. -/
lemma Side.other_ne (d : Side) : d.other ≠ d := by cases d <;> decide

/-- There are only two sides. -/
lemma Side.eq_other_of_ne {d e : Side} (h : d ≠ e) : e = d.other := by
  cases d <;> cases e <;> first | rfl | exact absurd rfl h

/-- The parties and, for each of them, the stream that it writes: what has not arrived yet, and what
has arrived and was not read. -/
@[ext] structure State (α ρ : Type*) where
  party : Side → Party α ρ
  flight : Side → List α
  arrived : Side → List α

/-- What takes a step: a party, or the stream of a party. -/
inductive Actor where
  | party (d : Side)
  | stream (d : Side)
  deriving DecidableEq, Repr

/-- The party `d` goes on with `p`. -/
def State.setParty (s : State α ρ) (d : Side) (p : Party α ρ) : State α ρ :=
  { s with party := Function.update s.party d p }

/-- The items of the stream of `d` that have not arrived are changed. -/
def State.setFlight (s : State α ρ) (d : Side) (items : List α) : State α ρ :=
  { s with flight := Function.update s.flight d items }

/-- The items of the stream of `d` that have arrived are changed. -/
def State.setArrived (s : State α ρ) (d : Side) (items : List α) : State α ρ :=
  { s with arrived := Function.update s.arrived d items }

/-- A step.  A party that reads waits until there is enough, or until the other party has stopped
and everything that it has written has arrived. -/
def step (s : State α ρ) : Actor → Option (State α ρ)
  | .party d =>
    match s.party d with
    | .stop _ => none
    | .write items next => some ((s.setParty d next).setFlight d (s.flight d ++ items))
    | .read n next eof =>
      if n ≤ (s.arrived d.other).length then
        some ((s.setParty d (next ((s.arrived d.other).take n))).setArrived d.other
          ((s.arrived d.other).drop n))
      else if (s.party d.other).stopped ∧ (s.flight d.other).isEmpty then
        some ((s.setParty d eof).setArrived d.other [])
      else none
  | .stream d =>
    match s.flight d with
    | [] => none
    | a :: items => some ((s.setFlight d items).setArrived d (s.arrived d ++ [a]))

/-- What a step of a party is. -/
lemma step_party_cases {s t : State α ρ} {d : Side} (h : step s (.party d) = some t) :
    (∃ items next, s.party d = .write items next ∧
      t = (s.setParty d next).setFlight d (s.flight d ++ items)) ∨
    (∃ n next eof, s.party d = .read n next eof ∧ n ≤ (s.arrived d.other).length ∧
      t = (s.setParty d (next ((s.arrived d.other).take n))).setArrived d.other
        ((s.arrived d.other).drop n)) ∨
    (∃ n next eof, s.party d = .read n next eof ∧ (s.arrived d.other).length < n ∧
      (s.party d.other).stopped = true ∧ s.flight d.other = [] ∧
      t = (s.setParty d eof).setArrived d.other []) := by
  rcases hparty : s.party d with ⟨n, next, eof⟩ | ⟨items, next⟩ | result
  · simp only [step, hparty] at h
    split_ifs at h with hle hend
    · exact Or.inr (Or.inl ⟨n, next, eof, rfl, hle, (Option.some.inj h).symm⟩)
    · exact Or.inr (Or.inr ⟨n, next, eof, rfl, by omega, hend.1, by simpa using hend.2,
        (Option.some.inj h).symm⟩)
  · simp only [step, hparty] at h
    exact Or.inl ⟨items, next, rfl, (Option.some.inj h).symm⟩
  · simp [step, hparty] at h

/-- What a step of a stream is. -/
lemma step_stream_cases {s t : State α ρ} {d : Side} (h : step s (.stream d) = some t) :
    ∃ a items, s.flight d = a :: items ∧
      t = (s.setFlight d items).setArrived d (s.arrived d ++ [a]) := by
  rcases hflight : s.flight d with _ | ⟨a, items⟩
  · simp [step, hflight] at h
  · simp only [step, hflight] at h
    exact ⟨a, items, rfl, (Option.some.inj h).symm⟩

/-- A party writes. -/
lemma step_write {s : State α ρ} {d : Side} {items : List α} {next : Party α ρ}
    (h : s.party d = .write items next) :
    step s (.party d) = some ((s.setParty d next).setFlight d (s.flight d ++ items)) := by
  simp [step, h]

/-- A party reads what has arrived. -/
lemma step_read {s : State α ρ} {d : Side} {n : ℕ} {next : List α → Party α ρ} {eof : Party α ρ}
    (h : s.party d = .read n next eof) (hle : n ≤ (s.arrived d.other).length) :
    step s (.party d) = some ((s.setParty d (next ((s.arrived d.other).take n))).setArrived d.other
      ((s.arrived d.other).drop n)) := by
  simp [step, h, hle]

/-- A party reaches the end of the stream. -/
lemma step_eof {s : State α ρ} {d : Side} {n : ℕ} {next : List α → Party α ρ} {eof : Party α ρ}
    (h : s.party d = .read n next eof) (hlt : (s.arrived d.other).length < n)
    (hstopped : (s.party d.other).stopped = true) (hflight : s.flight d.other = []) :
    step s (.party d) = some ((s.setParty d eof).setArrived d.other []) := by
  simp [step, h, Nat.not_le_of_lt hlt, hstopped, hflight]

/-- An item arrives. -/
lemma step_stream {s : State α ρ} {d : Side} {a : α} {items : List α}
    (h : s.flight d = a :: items) :
    step s (.stream d) = some ((s.setFlight d items).setArrived d (s.arrived d ++ [a])) := by
  simp [step, h]

/-- A party that can take a step has not stopped. -/
lemma stopped_eq_false_of_step {s t : State α ρ} {d : Side} (h : step s (.party d) = some t) :
    (s.party d).stopped = false := by
  obtain ⟨items, next, hparty, -⟩ | ⟨n, next, eof, hparty, -⟩ | ⟨n, next, eof, hparty, -⟩ :=
    step_party_cases h
  · rw [hparty]; rfl
  · rw [hparty]; rfl
  · rw [hparty]; rfl

/-! ## The steps of different actors commute -/

/-- Two actors that can take a step can do so in either order. -/
def Joins (s : State α ρ) (x y : Actor) : Prop :=
  ∀ ⦃t u⦄, step s x = some t → step s y = some u → ∃ v, step t y = some v ∧ step u x = some v

/-- The order of the two actors does not matter. -/
lemma Joins.symm {s : State α ρ} {x y : Actor} (h : Joins s x y) : Joins s y x := by
  intro t u ht hu
  obtain ⟨v, hv, hv'⟩ := h hu ht
  exact ⟨v, hv', hv⟩

/-- A party and its own stream. -/
lemma joins_party_stream (s : State α ρ) (d : Side) : Joins s (.party d) (.stream d) := by
  intro t u ht hu
  obtain ⟨a, rest, hflight, rfl⟩ := step_stream_cases hu
  have hne : d.other ≠ d := d.other_ne
  have hparty' : ((s.setFlight d rest).setArrived d (s.arrived d ++ [a])).party = s.party := rfl
  have hother : ((s.setFlight d rest).setArrived d (s.arrived d ++ [a])).arrived d.other =
      s.arrived d.other := by simp [State.setArrived, State.setFlight, hne]
  obtain ⟨items, next, hparty, rfl⟩ | ⟨n, next, eof, hparty, hle, rfl⟩ |
    ⟨n, next, eof, hparty, hlt, hstopped, hend, rfl⟩ := step_party_cases ht
  · have hflight' : ((s.setParty d next).setFlight d (s.flight d ++ items)).flight d =
        a :: (rest ++ items) := by simp [State.setFlight, hflight]
    refine ⟨_, step_stream hflight', ?_⟩
    rw [step_write (hparty' ▸ hparty)]
    simp [State.setParty, State.setFlight, State.setArrived]
  · refine ⟨_, step_stream hflight, ?_⟩
    rw [step_read (hparty' ▸ hparty) (hother ▸ hle)]
    simp [State.setParty, State.setFlight, State.setArrived, hne, hne.symm,
      Function.update_comm hne]
  · have hflight' : ((s.setFlight d rest).setArrived d (s.arrived d ++ [a])).flight d.other =
        [] := by simp [State.setArrived, State.setFlight, hne, hend]
    refine ⟨_, step_stream hflight, ?_⟩
    rw [step_eof (hparty' ▸ hparty) (hother ▸ hlt) (hparty' ▸ hstopped) hflight']
    simp [State.setParty, State.setFlight, State.setArrived, hne.symm, Function.update_comm hne]

/-- A party and the stream that it reads. -/
lemma joins_party_stream_other (s : State α ρ) (d : Side) :
    Joins s (.party d) (.stream d.other) := by
  intro t u ht hu
  obtain ⟨a, rest, hflight, rfl⟩ := step_stream_cases hu
  have hne : d.other ≠ d := d.other_ne
  have hparty' : ((s.setFlight d.other rest).setArrived d.other (s.arrived d.other ++ [a])).party =
    s.party := rfl
  obtain ⟨items, next, hparty, rfl⟩ | ⟨n, next, eof, hparty, hle, rfl⟩ |
    ⟨n, next, eof, -, -, -, hend, -⟩ := step_party_cases ht
  · have hflight' : ((s.setParty d next).setFlight d (s.flight d ++ items)).flight d.other =
        a :: rest := by simp [State.setParty, State.setFlight, hne, hflight]
    refine ⟨_, step_stream hflight', ?_⟩
    rw [step_write (hparty' ▸ hparty)]
    simp [State.setParty, State.setFlight, State.setArrived, hne.symm, Function.update_comm hne]
  · -- what has just arrived is behind what the party reads
    have hother : ((s.setFlight d.other rest).setArrived d.other
        (s.arrived d.other ++ [a])).arrived d.other = s.arrived d.other ++ [a] := by
      simp [State.setArrived]
    have hle' : n ≤ (s.arrived d.other ++ [a]).length := by
      rw [List.length_append]
      omega
    refine ⟨_, step_stream hflight, ?_⟩
    rw [step_read (hparty' ▸ hparty) (by rw [hother]; exact hle'), hother, List.take_append_of_le_length hle,
      List.drop_append_of_le_length hle]
    simp [State.setParty, State.setFlight, State.setArrived]
  · rw [hflight] at hend
    cases hend

/-- The two parties. -/
lemma joins_party_party (s : State α ρ) (d : Side) : Joins s (.party d) (.party d.other) := by
  intro t u ht hu
  have hne : d.other ≠ d := d.other_ne
  have hother : d.other.other = d := by cases d <;> rfl
  have hrun := stopped_eq_false_of_step ht
  have hrun' := stopped_eq_false_of_step hu
  obtain ⟨items, next, hparty, rfl⟩ | ⟨n, next, eof, hparty, hle, rfl⟩ |
    ⟨n, next, eof, -, -, hstopped, -, -⟩ := step_party_cases ht
  · obtain ⟨items', next', hparty', rfl⟩ | ⟨n', next', eof', hparty', hle', rfl⟩ |
      ⟨n', next', eof', -, -, hstopped, -, -⟩ := step_party_cases hu
    · have h₁ : ((s.setParty d next).setFlight d (s.flight d ++ items)).party d.other =
          .write items' next' := by simp [State.setParty, State.setFlight, hne, hparty']
      have h₂ : ((s.setParty d.other next').setFlight d.other
          (s.flight d.other ++ items')).party d = .write items next := by
        simp [State.setParty, State.setFlight, hne.symm, hparty]
      refine ⟨_, step_write h₁, ?_⟩
      rw [step_write h₂]
      simp [State.setParty, State.setFlight, hne, hne.symm, Function.update_comm hne]
    · rw [hother] at hle'
      have h₁ : ((s.setParty d next).setFlight d (s.flight d ++ items)).party d.other =
          .read n' next' eof' := by simp [State.setParty, State.setFlight, hne, hparty']
      have h₂ : ((s.setParty d.other (next' ((s.arrived d.other.other).take n'))).setArrived
          d.other.other ((s.arrived d.other.other).drop n')).party d = .write items next := by
        simp [State.setParty, State.setArrived, hne.symm, hparty]
      refine ⟨_, step_read h₁ (by simpa [hother, State.setParty, State.setFlight] using hle'), ?_⟩
      rw [step_write h₂]
      simp [State.setParty, State.setFlight, State.setArrived, hother, Function.update_comm hne]
    · rw [hother, hrun] at hstopped
      cases hstopped
  · obtain ⟨items', next', hparty', rfl⟩ | ⟨n', next', eof', hparty', hle', rfl⟩ |
      ⟨n', next', eof', -, -, hstopped, -, -⟩ := step_party_cases hu
    · have h₁ : ((s.setParty d (next ((s.arrived d.other).take n))).setArrived d.other
          ((s.arrived d.other).drop n)).party d.other = .write items' next' := by
        simp [State.setParty, State.setArrived, hne, hparty']
      have h₂ : ((s.setParty d.other next').setFlight d.other
          (s.flight d.other ++ items')).party d = .read n next eof := by
        simp [State.setParty, State.setFlight, hne.symm, hparty]
      refine ⟨_, step_write h₁, ?_⟩
      rw [step_read h₂ (by simpa [State.setParty, State.setFlight] using hle)]
      simp [State.setParty, State.setFlight, State.setArrived, Function.update_comm hne]
    · rw [hother] at hle'
      have h₁ : ((s.setParty d (next ((s.arrived d.other).take n))).setArrived d.other
          ((s.arrived d.other).drop n)).party d.other = .read n' next' eof' := by
        simp [State.setParty, State.setArrived, hne, hparty']
      have h₂ : ((s.setParty d.other (next' ((s.arrived d.other.other).take n'))).setArrived
          d.other.other ((s.arrived d.other.other).drop n')).party d = .read n next eof := by
        simp [State.setParty, State.setArrived, hne.symm, hparty]
      refine ⟨_, step_read h₁ ?_, ?_⟩
      · simpa [hother, State.setParty, State.setArrived, hne.symm] using hle'
      · rw [step_read h₂]
        · simp [State.setParty, State.setArrived, hother, hne, hne.symm,
            Function.update_comm hne]
        · simpa [hother, State.setParty, State.setArrived, hne] using hle
    · rw [hother, hrun] at hstopped
      cases hstopped
  · rw [hrun'] at hstopped
    cases hstopped

/-- The two streams. -/
lemma joins_stream_stream (s : State α ρ) (d : Side) : Joins s (.stream d) (.stream d.other) := by
  intro t u ht hu
  have hne : d.other ≠ d := d.other_ne
  obtain ⟨a, rest, hflight, rfl⟩ := step_stream_cases ht
  obtain ⟨b, rest', hflight', rfl⟩ := step_stream_cases hu
  have h₁ : ((s.setFlight d rest).setArrived d (s.arrived d ++ [a])).flight d.other =
      b :: rest' := by simp [State.setFlight, State.setArrived, hne, hflight']
  have h₂ : ((s.setFlight d.other rest').setArrived d.other
      (s.arrived d.other ++ [b])).flight d = a :: rest := by
    simp [State.setFlight, State.setArrived, hne.symm, hflight]
  refine ⟨_, step_stream h₁, ?_⟩
  rw [step_stream h₂]
  simp [State.setFlight, State.setArrived, hne, hne.symm, Function.update_comm hne]

/-- **Diamond.**  Two different actors that can take a step can take their steps in either order,
and the result is the same. -/
theorem step_commutes : Confluence.Commutes (step (α := α) (ρ := ρ)) := by
  intro s t u x y hne ht hu
  rcases x with d | d
  · rcases y with e | e
    · obtain rfl : e = d.other := Side.eq_other_of_ne fun h => hne (by rw [h])
      exact joins_party_party s d ht hu
    · by_cases hde : d = e
      · subst hde
        exact joins_party_stream s d ht hu
      · obtain rfl : e = d.other := Side.eq_other_of_ne hde
        exact joins_party_stream_other s d ht hu
  · rcases y with e | e
    · by_cases hde : e = d
      · subst hde
        exact (joins_party_stream s e).symm ht hu
      · obtain rfl : d = e.other := Side.eq_other_of_ne hde
        exact (joins_party_stream_other s e).symm ht hu
    · obtain rfl : e = d.other := Side.eq_other_of_ne fun h => hne (by rw [h])
      exact joins_stream_stream s d ht hu

/-! ## Complete runs -/

/-- Some run leads from one state to the other. -/
def Reaches (s t : State α ρ) : Prop := ∃ es, Confluence.run step s es = some t

/-- Runs can be put together. -/
lemma Reaches.trans {s t u : State α ρ} (h : Reaches s t) (h' : Reaches t u) : Reaches s u := by
  obtain ⟨es, hes⟩ := h
  obtain ⟨fs, hfs⟩ := h'
  exact ⟨es ++ fs, Confluence.run_append_iff.mpr ⟨t, hes, hfs⟩⟩

/-- A step is a run. -/
lemma Reaches.of_step {s t : State α ρ} {x : Actor} (h : step s x = some t) : Reaches s t :=
  ⟨[x], Confluence.run_cons_iff.mpr ⟨t, h, rfl⟩⟩

/-- The parties, and what they have not read of the streams, when nothing is on its way. -/
def State.quiet (party : Side → Party α ρ) (arrived : Side → List α) : State α ρ :=
  ⟨party, fun _ => [], arrived⟩

/-- What belongs to the left side and what belongs to the right side. -/
def pair {γ : Type*} (l r : γ) : Side → γ
  | .left => l
  | .right => r

/-- The left side is changed. -/
@[simp] lemma update_pair_left {γ : Type*} (l r x : γ) :
    Function.update (pair l r) .left x = pair x r := by
  funext d
  cases d <;> rfl

/-- The right side is changed. -/
@[simp] lemma update_pair_right {γ : Type*} (l r x : γ) :
    Function.update (pair l r) .right x = pair l x := by
  funext d
  cases d <;> rfl

/-- Everything that was written arrives in the end. -/
lemma reaches_arrive (s : State α ρ) (d : Side) {items : List α} (h : s.flight d = items) :
    Reaches s ((s.setFlight d []).setArrived d (s.arrived d ++ items)) := by
  induction items generalizing s with
  | nil =>
    refine ⟨[], ?_⟩
    rw [Confluence.run_nil, List.append_nil]
    simp [State.setFlight, State.setArrived, ← h]
  | cons a items ih =>
    have hflight : ((s.setFlight d items).setArrived d (s.arrived d ++ [a])).flight d = items := by
      simp [State.setFlight, State.setArrived]
    refine (Reaches.of_step (step_stream h)).trans ?_
    simpa [State.setFlight, State.setArrived] using ih _ hflight

/-- A party writes, and what it has written arrives. -/
lemma reaches_write {party : Side → Party α ρ} {arrived : Side → List α} {d : Side}
    {items : List α} {next : Party α ρ} (h : party d = .write items next) :
    Reaches (.quiet party arrived)
      (.quiet (Function.update party d next)
        (Function.update arrived d (arrived d ++ items))) := by
  have hflight : (((State.quiet party arrived).setParty d next).setFlight d
      ((State.quiet party arrived).flight d ++ items)).flight d = items := by
    simp [State.setFlight, State.setParty, State.quiet]
  have hwrite : (State.quiet party arrived).party d = .write items next := h
  refine (Reaches.of_step (step_write hwrite)).trans ?_
  simpa [State.setFlight, State.setParty, State.setArrived, State.quiet] using
    reaches_arrive _ d hflight

/-- A party reads what has arrived. -/
lemma reaches_read {party : Side → Party α ρ} {arrived : Side → List α} {d : Side} {n : ℕ}
    {next : List α → Party α ρ} {eof : Party α ρ} {input rest : List α}
    (h : party d = .read n next eof) (harrived : arrived d.other = input ++ rest)
    (hlength : input.length = n) :
    Reaches (.quiet party arrived)
      (.quiet (Function.update party d (next input)) (Function.update arrived d.other rest)) := by
  have hread : (State.quiet party arrived).party d = .read n next eof := h
  have hle : n ≤ ((State.quiet party arrived).arrived d.other).length := by
    rw [show (State.quiet party arrived).arrived d.other = input ++ rest from harrived,
      List.length_append]
    omega
  have hstep := step_read hread hle
  rw [show (State.quiet party arrived).arrived d.other = input ++ rest from harrived,
    List.take_left' hlength, List.drop_left' hlength] at hstep
  exact Reaches.of_step hstep

/-- A party reaches the end of the stream of a party that has stopped. -/
lemma reaches_eof {party : Side → Party α ρ} {arrived : Side → List α} {d : Side} {n : ℕ}
    {next : List α → Party α ρ} {eof : Party α ρ} (h : party d = .read n next eof)
    (hlt : (arrived d.other).length < n) (hstopped : (party d.other).stopped = true) :
    Reaches (.quiet party arrived)
      (.quiet (Function.update party d eof) (Function.update arrived d.other [])) := by
  have hread : (State.quiet party arrived).party d = .read n next eof := h
  exact Reaches.of_step (step_eof hread hlt hstopped rfl)

/-- The left party writes. -/
lemma reaches_write_left (items : List α) (next right : Party α ρ) (l r : List α) :
    Reaches (.quiet (pair (.write items next) right) (pair l r))
      (.quiet (pair next right) (pair (l ++ items) r)) := by
  have hwrite : pair (.write items next) right .left = .write items next := rfl
  have hreaches : Reaches (.quiet _ (pair l r)) _ := reaches_write hwrite
  simpa [pair] using hreaches

/-- The right party writes. -/
lemma reaches_write_right (items : List α) (left next : Party α ρ) (l r : List α) :
    Reaches (.quiet (pair left (.write items next)) (pair l r))
      (.quiet (pair left next) (pair l (r ++ items))) := by
  have hwrite : pair left (.write items next) .right = .write items next := rfl
  have hreaches : Reaches (.quiet _ (pair l r)) _ := reaches_write hwrite
  simpa [pair] using hreaches

/-- The left party reads what the right one has written. -/
lemma reaches_read_left {n : ℕ} (next : List α → Party α ρ) (eof right : Party α ρ) (l : List α)
    {input : List α} (rest : List α) (h : input.length = n) :
    Reaches (.quiet (pair (.read n next eof) right) (pair l (input ++ rest)))
      (.quiet (pair (next input) right) (pair l rest)) := by
  have hread : pair (.read n next eof) right .left = .read n next eof := rfl
  have harrived : pair l (input ++ rest) Side.left.other = input ++ rest := rfl
  have hreaches := reaches_read hread harrived h
  rw [update_pair_left, show Side.left.other = .right from rfl, update_pair_right] at hreaches
  exact hreaches

/-- The right party reads what the left one has written. -/
lemma reaches_read_right {n : ℕ} (left : Party α ρ) (next : List α → Party α ρ) (eof : Party α ρ)
    {input : List α} (rest r : List α) (h : input.length = n) :
    Reaches (.quiet (pair left (.read n next eof)) (pair (input ++ rest) r))
      (.quiet (pair left (next input)) (pair rest r)) := by
  have hread : pair left (.read n next eof) .right = .read n next eof := rfl
  have harrived : pair (input ++ rest) r Side.right.other = input ++ rest := rfl
  have hreaches := reaches_read hread harrived h
  rw [update_pair_right, show Side.right.other = .left from rfl, update_pair_left] at hreaches
  exact hreaches

/-- The left party reaches the end of what the right one has written. -/
lemma reaches_eof_left {n : ℕ} (next : List α → Party α ρ) (eof : Party α ρ) (result : ρ)
    (l : List α) {r : List α} (h : r.length < n) :
    Reaches (.quiet (pair (.read n next eof) (.stop result)) (pair l r))
      (.quiet (pair eof (.stop result)) (pair l [])) := by
  have hread : pair (Party.read n next eof) (.stop result) .left = .read n next eof := rfl
  have hlt : (pair l r Side.left.other).length < n := h
  have hreaches := reaches_eof hread hlt rfl
  rw [update_pair_left, show Side.left.other = .right from rfl, update_pair_right] at hreaches
  exact hreaches

/-- When both parties have stopped and nothing is on its way, nothing can happen. -/
lemma step_stopped (results : Side → ρ) (arrived : Side → List α) (x : Actor) :
    step (.quiet (fun d => .stop (results d)) arrived) x = none := by
  cases x <;> rfl

/-- **Every run ends in the same way.**  If some run ends with both parties stopped, then every run
can be continued to that end, and none is longer than the run that is known. -/
theorem exists_rest_of_reaches {s : State α ρ} {results : Side → ρ} {arrived : Side → List α}
    (h : Reaches s (.quiet (fun d => .stop (results d)) arrived)) :
    ∃ n, ∀ es t, Confluence.run step s es = some t →
      es.length ≤ n ∧ Reaches t (.quiet (fun d => .stop (results d)) arrived) := by
  obtain ⟨es, hes⟩ := h
  refine ⟨es.length, fun fs t hfs => ?_⟩
  obtain ⟨gs, hgs, hperm⟩ := Confluence.exists_rest step_commutes hes (step_stopped _ _) hfs
  refine ⟨?_, gs, hgs⟩
  rw [hperm.length_eq, List.length_append]
  exact Nat.le_add_right _ _

end Dialogue

end AsioStudy
