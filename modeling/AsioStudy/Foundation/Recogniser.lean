import Mathlib

/-!
# Incremental recognisers and their residual languages

A recogniser reads one symbol at a time and answers after each of them that the input is
accepted, that it is rejected, or that more is needed; `Recogniser.run` feeds it a finite string
and stops at the first definite answer.

The correctness of such a machine against a grammar is stated through *residual languages*:
`IsResidual δ L` says that `L q` is the set of the inputs that lead from the state `q` to
acceptance, one equation for each first symbol.  From these equations alone the three possible
outcomes of a run are characterised: acceptance (`run_good_iff`), the need for more input
(`run_indeterminate_iff`) and rejection at the first symbol after which no completion exists
(`run_bad_iff`).
-/

open Computability

namespace AsioStudy

namespace Recogniser

/-- What a recogniser answers after one symbol. -/
inductive Verdict where
  /-- The string read so far is accepted. -/
  | good
  /-- The string read so far is rejected. -/
  | bad
  /-- More symbols are needed. -/
  | indeterminate
  deriving DecidableEq, Repr

variable {α σ : Type*}

/-- Feed the string `s` to the machine `δ` from the state `q`, stopping at the first definite
answer: the answer, the state reached and the symbols that were not read. -/
def run (δ : σ → α → Verdict × σ) (q : σ) : List α → Verdict × σ × List α
  | [] => (.indeterminate, q, [])
  | b :: s =>
    match δ q b with
    | (.indeterminate, q') => run δ q' s
    | (v, q') => (v, q', s)

/-- `L q` is, for every state `q`, the language accepted from `q`: no state has already accepted,
every state can still reach acceptance, and the strings of `L q` starting with `b` are determined
by the answer of the machine to `b`. -/
structure IsResidual (δ : σ → α → Verdict × σ) (L : σ → Language α) : Prop where
  /-- A state that is waiting for input has not accepted. -/
  nil_notMem : ∀ q, [] ∉ L q
  /-- From every state some input leads to acceptance. -/
  nonempty : ∀ q, ∃ w, w ∈ L q
  /-- After an accepting symbol the string ends. -/
  good : ∀ {q b}, (δ q b).1 = .good → ∀ w, b :: w ∈ L q ↔ w = []
  /-- No string continues with a rejected symbol. -/
  bad : ∀ {q b}, (δ q b).1 = .bad → ∀ w, b :: w ∉ L q
  /-- Any other symbol leads to the residual language of the next state. -/
  indeterminate : ∀ {q b}, (δ q b).1 = .indeterminate → ∀ w, b :: w ∈ L q ↔ w ∈ L (δ q b).2

/-- The string `u` can be extended to a member of the language `M`. -/
def Viable (M : Language α) (u : List α) : Prop := ∃ w, u ++ w ∈ M

/-! ## Runs -/

section Run

variable {δ : σ → α → Verdict × σ}

/-- The run on the empty string needs more input. -/
@[simp] lemma run_nil (q : σ) : run δ q [] = (.indeterminate, q, []) := rfl

/-- A run whose first symbol is definite stops there. -/
lemma run_cons_of_ne {q : σ} {b : α} (h : (δ q b).1 ≠ .indeterminate) (s : List α) :
    run δ q (b :: s) = ((δ q b).1, (δ q b).2, s) := by
  rw [run]
  cases hv : δ q b with
  | mk v q' => cases v <;> simp_all

/-- A run whose first symbol is not definite continues from the next state. -/
lemma run_cons_of_eq {q : σ} {b : α} (h : (δ q b).1 = .indeterminate) (s : List α) :
    run δ q (b :: s) = run δ (δ q b).2 s := by
  rw [run]
  cases hv : δ q b with
  | mk v q' => cases v <;> simp_all

/-- A definite answer is given after at least one symbol. -/
lemma run_rest_length_lt {q : σ} {s : List α} (h : (run δ q s).1 ≠ .indeterminate) :
    (run δ q s).2.2.length < s.length := by
  induction s generalizing q with
  | nil => exact absurd rfl h
  | cons b s ih =>
    by_cases hb : (δ q b).1 = .indeterminate
    · rw [run_cons_of_eq hb] at h ⊢
      exact (ih h).trans (Nat.lt_succ_self _)
    · rw [run_cons_of_ne hb]
      exact Nat.lt_succ_self _

/-- Feeding two strings one after the other is feeding their concatenation, as long as the first
one leaves the machine undecided. -/
lemma run_append_of_indeterminate {q : σ} {s : List α} (h : (run δ q s).1 = .indeterminate)
    (t : List α) : run δ q (s ++ t) = run δ (run δ q s).2.1 t := by
  induction s generalizing q with
  | nil => rfl
  | cons b s ih =>
    by_cases hb : (δ q b).1 = .indeterminate
    · rw [List.cons_append, run_cons_of_eq hb, run_cons_of_eq hb]
      rw [run_cons_of_eq hb] at h
      exact ih h
    · rw [run_cons_of_ne hb] at h
      exact absurd h hb

/-- What follows the symbol that decided a run is left unread. -/
lemma run_append_of_ne_indeterminate {q : σ} {s : List α} (h : (run δ q s).1 ≠ .indeterminate)
    (t : List α) :
    run δ q (s ++ t) = ((run δ q s).1, (run δ q s).2.1, (run δ q s).2.2 ++ t) := by
  induction s generalizing q with
  | nil => exact absurd rfl h
  | cons b s ih =>
    by_cases hb : (δ q b).1 = .indeterminate
    · rw [run_cons_of_eq hb] at h
      rw [List.cons_append, run_cons_of_eq hb, run_cons_of_eq hb]
      exact ih h
    · rw [List.cons_append, run_cons_of_ne hb, run_cons_of_ne hb]

/-- What a run leaves unread is the end of its input. -/
lemma run_rest_isSuffix (q : σ) (s : List α) : (run δ q s).2.2 <:+ s := by
  induction s generalizing q with
  | nil => exact List.suffix_rfl
  | cons b s ih =>
    by_cases hb : (δ q b).1 = .indeterminate
    · rw [run_cons_of_eq hb]
      exact (ih _).trans (List.suffix_cons b s)
    · rw [run_cons_of_ne hb]
      exact List.suffix_cons b s

/-! ### Undecided runs -/

/-- The machine reads the whole of `s` without an answer and comes from the state `q` to `q'`. -/
def Reads (δ : σ → α → Verdict × σ) (q : σ) (s : List α) (q' : σ) : Prop :=
  run δ q s = (.indeterminate, q', [])

/-- Nothing is read. -/
lemma Reads.refl (q : σ) : Reads δ q [] q := rfl

/-- One symbol is read. -/
lemma Reads.single {q q' : σ} {b : α} (h : δ q b = (.indeterminate, q')) : Reads δ q [b] q' := by
  unfold Reads
  rw [run_cons_of_eq (by rw [h]), run_nil, h]

/-- What follows a string that is read is read from the state behind it. -/
lemma Reads.run_append {q q' : σ} {s : List α} (h : Reads δ q s q') (t : List α) :
    run δ q (s ++ t) = run δ q' t := by
  have hundecided : (run δ q s).1 = .indeterminate := by rw [h]
  rw [run_append_of_indeterminate hundecided, h]

/-- Two strings are read one after the other. -/
lemma Reads.trans {q q' q'' : σ} {s t : List α} (h : Reads δ q s q') (h' : Reads δ q' t q'') :
    Reads δ q (s ++ t) q'' :=
  (h.run_append t).trans h'

/-- The symbols of a class are read one after the other while a value is accumulated. -/
lemma Reads.foldl {β : Type*} (f : β → σ) {g : β → α → β} {P : α → Prop}
    (hstep : ∀ x b, P b → δ (f x) b = (.indeterminate, f (g x b))) {s : List α}
    (hs : ∀ b ∈ s, P b) (x : β) : Reads δ (f x) s (f (s.foldl g x)) := by
  induction s generalizing x with
  | nil => exact Reads.refl _
  | cons b s ih =>
    have hfirst := Reads.single (hstep x b (hs b List.mem_cons_self))
    exact hfirst.trans (ih (fun c hc => hs c (List.mem_cons_of_mem b hc)) (g x b))

/-- The symbols of a class are read and appended to a text. -/
lemma Reads.append (f : List α → σ) {P : α → Prop}
    (hstep : ∀ x b, P b → δ (f x) b = (.indeterminate, f (x ++ [b]))) {s : List α}
    (hs : ∀ b ∈ s, P b) (x : List α) : Reads δ (f x) s (f (x ++ s)) := by
  have hfold : ∀ x : List α, s.foldl (fun x b => x ++ [b]) x = x ++ s := by
    intro x
    induction s generalizing x with
    | nil => exact (List.append_nil x).symm
    | cons b s ih =>
      rw [List.foldl_cons, ih fun c hc => hs c (List.mem_cons_of_mem b hc), List.append_assoc]
      rfl
  have hreads := Reads.foldl f hstep hs x
  rwa [hfold] at hreads

/-- A string that is read begins with a symbol that is read. -/
lemma Reads.cons_inv {q q' : σ} {b : α} {s : List α} (h : Reads δ q (b :: s) q') :
    ∃ q₁, δ q b = (.indeterminate, q₁) ∧ Reads δ q₁ s q' := by
  unfold Reads at h
  by_cases hb : (δ q b).1 = .indeterminate
  · rw [run_cons_of_eq hb] at h
    exact ⟨(δ q b).2, Prod.ext hb rfl, h⟩
  · rw [run_cons_of_ne hb] at h
    exact absurd (congrArg Prod.fst h) hb

/-- **Invariant rule.**  What holds of the empty string and is kept by every symbol that is read
holds of every string that is read and the state behind it. -/
lemma Reads.invariant {P : List α → σ → Prop} {q : σ} (hstart : P [] q)
    (hstep : ∀ {s q₁ b q₂}, P s q₁ → δ q₁ b = (.indeterminate, q₂) → P (s ++ [b]) q₂) {s : List α}
    {q' : σ} (h : Reads δ q s q') : P s q' := by
  have hgeneral : ∀ (t s : List α) (q₁ : σ), P t q₁ → Reads δ q₁ s q' → P (t ++ s) q' := by
    intro t s
    induction s generalizing t with
    | nil =>
      intro q₁ hP hreads
      obtain rfl : q₁ = q' := congrArg (fun r => r.2.1) hreads
      rwa [List.append_nil]
    | cons b s ih =>
      intro q₁ hP hreads
      obtain ⟨q₂, hb, hrest⟩ := hreads.cons_inv
      rw [List.append_cons]
      exact ih (t ++ [b]) q₂ (hstep hP hb) hrest
  exact hgeneral [] s q hstart h

/-- An undecided run reads the whole of its input. -/
lemma reads_of_indeterminate {q : σ} {s : List α} (h : (run δ q s).1 = .indeterminate) :
    Reads δ q s (run δ q s).2.1 := by
  induction s generalizing q with
  | nil => exact Reads.refl q
  | cons b s ih =>
    by_cases hb : (δ q b).1 = .indeterminate
    · rw [run_cons_of_eq hb] at h ⊢
      exact (Reads.single (Prod.ext hb rfl)).trans (ih h)
    · rw [run_cons_of_ne hb] at h
      exact absurd h hb

/-- A run that leaves nothing unread reads every proper beginning of its input. -/
lemma exists_reads_of_run_append {q q' : σ} {v : Verdict} {s t : List α}
    (h : run δ q (s ++ t) = (v, q', [])) (ht : t ≠ []) :
    ∃ q₁, Reads δ q s q₁ ∧ run δ q₁ t = (v, q', []) := by
  by_cases hs : (run δ q s).1 = .indeterminate
  · refine ⟨(run δ q s).2.1, reads_of_indeterminate hs, ?_⟩
    rw [← run_append_of_indeterminate hs, h]
  · rw [run_append_of_ne_indeterminate hs] at h
    have hrest : (run δ q s).2.2 ++ t = [] := congrArg (fun r => r.2.2) h
    exact absurd (List.append_eq_nil_iff.mp hrest).2 ht

/-- A string that is read consists of parts that are read. -/
lemma Reads.append_inv {q q' : σ} {s t : List α} (h : Reads δ q (s ++ t) q') :
    ∃ q₁, Reads δ q s q₁ ∧ Reads δ q₁ t q' := by
  by_cases ht : t = []
  · subst ht
    rw [List.append_nil] at h
    exact ⟨q', h, Reads.refl q'⟩
  · exact exists_reads_of_run_append h ht

/-- **Simulation rule.**  Two runs on the same input from related states answer alike and end in
related states, if the answers to each symbol agree and the relation is kept. -/
lemma run_related {R : σ → σ → Prop}
    (hstep : ∀ {q q' b}, R q q' → (δ q b).1 = (δ q' b).1 ∧ R (δ q b).2 (δ q' b).2) {q q' : σ}
    (h : R q q') (s : List α) :
    (run δ q s).1 = (run δ q' s).1 ∧ R (run δ q s).2.1 (run δ q' s).2.1 ∧
      (run δ q s).2.2 = (run δ q' s).2.2 := by
  induction s generalizing q q' with
  | nil => exact ⟨rfl, h, rfl⟩
  | cons b s ih =>
    obtain ⟨hanswer, hrelated⟩ := hstep (b := b) h
    by_cases hb : (δ q b).1 = .indeterminate
    · have hb' : (δ q' b).1 = .indeterminate := hanswer.symm.trans hb
      rw [run_cons_of_eq hb, run_cons_of_eq hb']
      exact ih hrelated
    · have hb' : (δ q' b).1 ≠ .indeterminate := fun h' => hb (hanswer.trans h')
      rw [run_cons_of_ne hb, run_cons_of_ne hb']
      exact ⟨hanswer, hrelated, rfl⟩

/-- A definite answer is given to the first symbol behind a string that is read. -/
lemma exists_reads_of_run_ne {q : σ} {s : List α} (h : (run δ q s).1 ≠ .indeterminate) :
    ∃ u b t q', s = u ++ b :: t ∧ Reads δ q u q' ∧ run δ q s = ((δ q' b).1, (δ q' b).2, t) := by
  induction s generalizing q with
  | nil => exact absurd rfl h
  | cons b s ih =>
    by_cases hb : (δ q b).1 = .indeterminate
    · rw [run_cons_of_eq hb] at h ⊢
      obtain ⟨u, c, t, q', rfl, hreads, hrun⟩ := ih h
      exact ⟨b :: u, c, t, q', rfl, (Reads.single (Prod.ext hb rfl)).trans hreads, hrun⟩
    · exact ⟨[], b, s, q, rfl, Reads.refl q, run_cons_of_ne hb s⟩

end Run

/-! ## Runs against residual languages -/

section Residual

variable {δ : σ → α → Verdict × σ} {L : σ → Language α}

/-- The residual languages are prefix-free. -/
lemma IsResidual.eq_nil_of_append_mem (hL : IsResidual δ L) {q : σ} {u w : List α}
    (hu : u ∈ L q) (huw : u ++ w ∈ L q) : w = [] := by
  induction u generalizing q with
  | nil => exact absurd hu (hL.nil_notMem q)
  | cons b u ih =>
    cases hv : (δ q b).1 with
    | good =>
      have hnil := (hL.good hv _).mp huw
      exact (List.append_eq_nil_iff.mp hnil).2
    | bad => exact absurd hu (hL.bad hv u)
    | indeterminate =>
      exact ih ((hL.indeterminate hv u).mp hu) ((hL.indeterminate hv (u ++ w)).mp huw)

/-- A string has at most one prefix in a residual language. -/
lemma IsResidual.take_unique (hL : IsResidual δ L) {q : σ} {s : List α} {k k' : ℕ}
    (hk : k ≤ s.length) (hk' : k' ≤ s.length) (h : s.take k ∈ L q) (h' : s.take k' ∈ L q) :
    k = k' := by
  have key : ∀ {i j : ℕ}, i ≤ j → j ≤ s.length → s.take i ∈ L q → s.take j ∈ L q → i = j := by
    intro i j hij hj hi hj'
    obtain ⟨t, ht⟩ : s.take i <+: s.take j := List.take_prefix_take_left hij
    have hnil : t = [] := hL.eq_nil_of_append_mem hi (ht.symm ▸ hj')
    have hlen := congrArg List.length ht
    rw [hnil, List.append_nil, List.length_take, List.length_take] at hlen
    omega
  rcases le_total k k' with hle | hle
  · exact key hle hk' h h'
  · exact (key hle hk h' h).symm

/-- The empty string is viable from every state. -/
lemma IsResidual.viable_nil (hL : IsResidual δ L) (q : σ) : Viable (L q) [] := hL.nonempty q

/-- A string is viable after an undecided symbol when it is viable from the next state. -/
lemma IsResidual.viable_cons (hL : IsResidual δ L) {q : σ} {b : α}
    (hb : (δ q b).1 = .indeterminate) (u : List α) :
    Viable (L q) (b :: u) ↔ Viable (L (δ q b).2) u := by
  unfold Viable
  simp only [List.cons_append, hL.indeterminate hb]

/-- **Acceptance.**  A run accepts having read exactly `k` symbols if and only if the prefix of
length `k` belongs to the language. -/
theorem IsResidual.run_good_iff (hL : IsResidual δ L) {q : σ} {s : List α} {k : ℕ}
    (hk : k ≤ s.length) :
    ((run δ q s).1 = .good ∧ (run δ q s).2.2 = s.drop k) ↔ s.take k ∈ L q := by
  induction s generalizing q k with
  | nil => simp [hL.nil_notMem q]
  | cons b s ih =>
    cases k with
    | zero =>
      simp only [List.take_zero, hL.nil_notMem q, iff_false, not_and]
      intro hgood hrest
      have hlt := run_rest_length_lt (δ := δ) (q := q) (s := b :: s) (by rw [hgood]; decide)
      rw [hrest, List.drop_zero] at hlt
      exact lt_irrefl _ hlt
    | succ k =>
      have hk' : k ≤ s.length := Nat.le_of_succ_le_succ hk
      rw [List.take_succ_cons, List.drop_succ_cons]
      cases hv : (δ q b).1 with
      | good =>
        rw [run_cons_of_ne (by rw [hv]; decide), hL.good hv, hv, List.take_eq_nil_iff]
        constructor
        · rintro ⟨-, hdrop⟩
          have hlen : s.length = s.length - k := by
            rw [← List.length_drop]
            exact congrArg List.length hdrop
          by_cases hs : s = []
          · exact Or.inr hs
          · have := List.length_pos_iff.mpr hs
            exact Or.inl (by omega)
        · rintro (rfl | rfl) <;> simp
      | bad =>
        rw [run_cons_of_ne (by rw [hv]; decide), hv]
        simp [hL.bad hv]
      | indeterminate =>
        rw [run_cons_of_eq hv, hL.indeterminate hv]
        exact ih hk'

/-- **Need for more input.**  A run stays undecided if and only if its input is a proper prefix of
a member of the language. -/
theorem IsResidual.run_indeterminate_iff (hL : IsResidual δ L) {q : σ} {s : List α} :
    (run δ q s).1 = .indeterminate ↔ ∃ w, w ≠ [] ∧ s ++ w ∈ L q := by
  induction s generalizing q with
  | nil =>
    obtain ⟨w, hw⟩ := hL.nonempty q
    have hne : w ≠ [] := fun h => hL.nil_notMem q (h ▸ hw)
    simp only [run_nil, true_iff]
    exact ⟨w, hne, hw⟩
  | cons b s ih =>
    cases hv : (δ q b).1 with
    | good =>
      rw [run_cons_of_ne (by rw [hv]; decide), hv]
      simp only [List.cons_append, hL.good hv, List.append_eq_nil_iff]
      constructor
      · intro h; cases h
      · rintro ⟨w, hne, -, hw⟩; exact absurd hw hne
    | bad =>
      rw [run_cons_of_ne (by rw [hv]; decide), hv]
      simp only [List.cons_append, hL.bad hv, and_false, exists_false, iff_false]
      decide
    | indeterminate =>
      rw [run_cons_of_eq hv, ih]
      simp only [List.cons_append, hL.indeterminate hv]

/-- **Rejection.**  A run rejects having read exactly `k` symbols if and only if no prefix of its
input belongs to the language and the prefix of length `k` is the shortest one that no member of
the language extends. -/
theorem IsResidual.run_bad_iff (hL : IsResidual δ L) {q : σ} {s : List α} {k : ℕ}
    (hk : k ≤ s.length) :
    ((run δ q s).1 = .bad ∧ (run δ q s).2.2 = s.drop k) ↔
      (∀ j ≤ s.length, s.take j ∉ L q) ∧ ¬ Viable (L q) (s.take k) ∧
        ∀ j < k, Viable (L q) (s.take j) := by
  induction s generalizing q k with
  | nil => simp [hL.viable_nil q]
  | cons b s ih =>
    cases k with
    | zero =>
      simp only [List.take_zero, hL.viable_nil q, not_true_eq_false, false_and, and_false,
        iff_false, not_and]
      intro hbad hrest
      have hlt := run_rest_length_lt (δ := δ) (q := q) (s := b :: s) (by rw [hbad]; decide)
      rw [hrest, List.drop_zero] at hlt
      exact lt_irrefl _ hlt
    | succ k =>
      have hk' : k ≤ s.length := Nat.le_of_succ_le_succ hk
      -- the prefixes of `b :: s` are the empty one and the extensions of `b`
      have hall : (∀ j ≤ (b :: s).length, (b :: s).take j ∉ L q) ↔
          ∀ j ≤ s.length, b :: s.take j ∉ L q := by
        constructor
        · intro h j hj
          exact h (j + 1) (Nat.succ_le_succ hj)
        · rintro h (_ | j) hj
          · exact hL.nil_notMem q
          · exact h j (Nat.le_of_succ_le_succ hj)
      have hlt : (∀ j < k + 1, Viable (L q) ((b :: s).take j)) ↔
          ∀ j < k, Viable (L q) (b :: s.take j) := by
        constructor
        · intro h j hj
          exact h (j + 1) (Nat.succ_lt_succ hj)
        · rintro h (_ | j) hj
          · exact hL.viable_nil q
          · exact h j (Nat.lt_of_succ_lt_succ hj)
      rw [hall, hlt, List.take_succ_cons, List.drop_succ_cons]
      cases hv : (δ q b).1 with
      | good =>
        rw [run_cons_of_ne (by rw [hv]; decide), hv]
        constructor
        · rintro ⟨h, -⟩; cases h
        · rintro ⟨h, -⟩
          exact absurd ((hL.good hv _).mpr (List.take_zero ..)) (h 0 (Nat.zero_le _))
      | bad =>
        rw [run_cons_of_ne (by rw [hv]; decide), hv]
        have hdead : ∀ u, ¬ Viable (L q) (b :: u) := by
          rintro u ⟨w, hw⟩
          exact hL.bad hv _ hw
        constructor
        · rintro ⟨-, hdrop⟩
          have hlen : s.length = s.length - k := by
            rw [← List.length_drop]
            exact congrArg List.length hdrop
          have hk0 : k = 0 := by omega
          subst hk0
          exact ⟨fun j _ => hL.bad hv _, hdead _, fun j hj => absurd hj (Nat.not_lt_zero j)⟩
        · rintro ⟨-, -, hmin⟩
          cases k with
          | zero => exact ⟨rfl, (List.drop_zero ..).symm⟩
          | succ k => exact absurd (hmin 0 (Nat.succ_pos k)) (hdead _)
      | indeterminate =>
        rw [run_cons_of_eq hv, ih hk']
        simp only [hL.indeterminate hv, hL.viable_cons hv]

end Residual

end Recogniser

end AsioStudy
