import AsioStudy.Asio.ConsumingBuffers
import AsioStudy.Foundation.Machine

/-!
# Operations that are composed of several transfers

`boost::asio::async_write` and `async_read` (`impl/write.hpp`, `impl/read.hpp`) start one operation
of the stream after another, until the buffers are exhausted, the completion condition is satisfied
or something went wrong; `write` and `read_buffer_seq` do the same with blocking operations.  The
stream decides how much each of its operations transfers.

`transferAll_run` says what comes of it under `transfer_all`, `transferExactly_run` under
`transfer_exactly`, and `async_iff_blocking` that the two ways of transferring agree.
-/

namespace AsioStudy

namespace Asio

/-! ## Completion conditions -/

section Conditions

variable {ε : Type*}

/-- The default maximum number of bytes to transfer in a single operation. -/
def defaultMaxTransferSize : ℕ := 65536

/-- `transfer_all`: an error completes the operation. -/
def transferAll (err : Option ε) (_bytesTransferred : ℕ) : ℕ :=
  if err.isSome then 0 else defaultMaxTransferSize

/-- `transfer_at_least`: an error or enough bytes complete the operation. -/
def transferAtLeast (minimum : ℕ) (err : Option ε) (bytesTransferred : ℕ) : ℕ :=
  if err.isSome ∨ minimum ≤ bytesTransferred then 0 else defaultMaxTransferSize

/-- `transfer_exactly`: the missing bytes, unless there was an error. -/
def transferExactly (size : ℕ) (err : Option ε) (bytesTransferred : ℕ) : ℕ :=
  if err.isSome ∨ size ≤ bytesTransferred then 0
  else if size - bytesTransferred < defaultMaxTransferSize then size - bytesTransferred
  else defaultMaxTransferSize

/-- A condition that an error satisfies, as the three of the library are. -/
def StopsOnError (condition : Option ε → ℕ → ℕ) : Prop := ∀ e n, condition (some e) n = 0

/-- An error completes an operation under `transfer_all`. -/
lemma stopsOnError_transferAll : StopsOnError (transferAll (ε := ε)) := fun _ _ => rfl

/-- `transfer_exactly` never asks for more than is missing. -/
lemma transferExactly_le (size : ℕ) (err : Option ε) (n : ℕ) :
    transferExactly size err n ≤ size - n := by
  unfold transferExactly defaultMaxTransferSize
  split_ifs <;> omega

/-- `transfer_exactly` is satisfied without an error exactly when enough was transferred. -/
lemma transferExactly_eq_zero_iff (size n : ℕ) :
    transferExactly size (none : Option ε) n = 0 ↔ size ≤ n := by
  unfold transferExactly defaultMaxTransferSize
  simp only [Option.isSome_none, Bool.false_eq_true, false_or]
  split_ifs with h h'
  · exact iff_of_true rfl h
  · refine iff_of_false ?_ h
    omega
  · exact iff_of_false not_false h

end Conditions

/-! ## The asynchronous operation -/

variable {σ α ε : Type*}

/-- How an operation of the stream completes, and whether the composed operation was cancelled in
the meantime. -/
structure Transfer (ε : Type*) where
  ec : Option ε
  bytesTransferred : ℕ
  cancelled : Bool
  deriving DecidableEq, Repr

/-- `write_op`, and likewise `read_op`: an operation of the stream on the prepared buffers is
outstanding, or the handler was called. -/
inductive ComposedOp (σ α ε : Type*) where
  | waits (buffers : σ) (prepared : List (List α))
  | called (ec : Option ε) (bytesTransferred : ℕ)
  deriving DecidableEq, Repr

section Async

variable (c : Consumer σ α) (condition : Option ε → ℕ → ℕ) (operationAborted : ε)

/-- The first call of `write_op::operator()`, with `start == 1`. -/
def ComposedOp.start (buffers : σ) : ComposedOp σ α ε :=
  .waits buffers (c.prepare buffers (condition none (c.totalConsumed buffers)))

/-- A later call of `write_op::operator()`, when an operation of the stream has completed. -/
def ComposedOp.resume (buffers : σ) (x : Transfer ε) : ComposedOp σ α ε :=
  let buffers := c.consume buffers x.bytesTransferred
  if (x.ec.isNone ∧ x.bytesTransferred = 0) ∨ c.empty buffers then
    .called x.ec (c.totalConsumed buffers)
  else
    let maxSize := condition x.ec (c.totalConsumed buffers)
    if maxSize = 0 then .called x.ec (c.totalConsumed buffers)
    else if x.cancelled then .called (some operationAborted) (c.totalConsumed buffers)
    else .waits buffers (c.prepare buffers maxSize)

/-- The stream transfers some of the prepared bytes, which are the output. -/
def ComposedOp.step : ComposedOp σ α ε → Transfer ε → Option (ComposedOp σ α ε × List α)
  | .waits buffers prepared, x =>
    if x.bytesTransferred ≤ prepared.flatten.length then
      some (resume c condition operationAborted buffers x,
        prepared.flatten.take x.bytesTransferred)
    else none
  | .called _ _, _ => none

end Async

section Runs

variable {c : Consumer σ α} {condition : Option ε → ℕ → ℕ} {operationAborted : ε}
  {Holds : σ → List α → ℕ → Prop} {s : σ} {xs out : List α} {op op' : ComposedOp σ α ε}
  {es : List (Transfer ε)} {n : ℕ}

/-- Why the handler is called after a transfer, at `total` bytes of `size`. -/
def Finishes (condition : Option ε → ℕ → ℕ) (operationAborted : ε) (x : Transfer ε)
    (size total : ℕ) (ec : Option ε) : Prop :=
  (ec = x.ec ∧ ((x.ec = none ∧ x.bytesTransferred = 0) ∨ total = size ∨
      condition x.ec total = 0)) ∨
    (ec = some operationAborted ∧ x.cancelled = true ∧ total < size)

variable (condition operationAborted) in
/-- What a call of `operator()` does: it calls the handler, for a reason, or it goes on. -/
lemma resume_cases (h : c.Represents Holds) (hs : Holds s xs n) {x : Transfer ε}
    (hx : n + x.bytesTransferred ≤ xs.length) :
    (∃ ec, ComposedOp.resume c condition operationAborted s x =
        .called ec (n + x.bytesTransferred) ∧
        Finishes condition operationAborted x xs.length (n + x.bytesTransferred) ec) ∨
      (ComposedOp.resume c condition operationAborted s x =
          .waits (c.consume s x.bytesTransferred) (c.prepare (c.consume s x.bytesTransferred)
            (condition x.ec (n + x.bytesTransferred))) ∧
        ¬ (x.ec = none ∧ x.bytesTransferred = 0) ∧ n + x.bytesTransferred < xs.length ∧
        condition x.ec (n + x.bytesTransferred) ≠ 0) := by
  have hs' := h.consume hs hx
  have hempty := h.empty_iff hs'
  simp only [ComposedOp.resume, h.totalConsumed_eq hs', Option.isNone_iff_eq_none]
  by_cases hdone : (x.ec = none ∧ x.bytesTransferred = 0) ∨
      c.empty (c.consume s x.bytesTransferred) = true
  · rw [if_pos hdone]
    refine Or.inl ⟨_, rfl, Or.inl ⟨rfl, ?_⟩⟩
    exact hdone.imp_right fun hend => Or.inl (hempty.mp hend)
  · rw [if_neg hdone]
    rw [not_or, hempty] at hdone
    have hlt : n + x.bytesTransferred < xs.length := lt_of_le_of_ne hx hdone.2
    by_cases hzero : condition x.ec (n + x.bytesTransferred) = 0
    · rw [if_pos hzero]
      exact Or.inl ⟨_, rfl, Or.inl ⟨rfl, Or.inr (Or.inr hzero)⟩⟩
    · rw [if_neg hzero]
      by_cases hcancelled : x.cancelled = true
      · rw [if_pos hcancelled]
        exact Or.inl ⟨_, rfl, Or.inr ⟨rfl, hcancelled, hlt⟩⟩
      · rw [if_neg hcancelled]
        exact Or.inr ⟨rfl, hdone.1, hlt, hzero⟩

/-- How far a composed operation is when it has transferred `out`. -/
inductive Progress (c : Consumer σ α) (condition : Option ε → ℕ → ℕ) (operationAborted : ε)
    (Holds : σ → List α → ℕ → Prop) (xs : List α) :
    ComposedOp σ α ε → List (Transfer ε) → List α → Prop
  /-- Nothing is transferred yet. -/
  | start {s : σ} (holds : Holds s xs 0) :
    Progress c condition operationAborted Holds xs (.start c condition s) [] []
  /-- A part is transferred, and the condition wants more. -/
  | waits {s : σ} {n : ℕ} {es : List (Transfer ε)} {x : Transfer ε} (holds : Holds s xs n)
    (lt : n < xs.length) (more : condition x.ec n ≠ 0)
    (length_le : StopsOnError condition → (es ++ [x]).length ≤ n) :
    Progress c condition operationAborted Holds xs
      (.waits s (c.prepare s (condition x.ec n))) (es ++ [x]) (xs.take n)
  /-- The handler was called. -/
  | called {n : ℕ} {ec : Option ε} {es : List (Transfer ε)} {x : Transfer ε} (le : n ≤ xs.length)
    (finishes : Finishes condition operationAborted x xs.length n ec)
    (length_le : StopsOnError condition → (es ++ [x]).length ≤ n + 1) :
    Progress c condition operationAborted Holds xs (.called ec n) (es ++ [x]) (xs.take n)

/-- A transfer from a position. -/
lemma Progress.of_waits (h : c.Represents Holds) (hs : Holds s xs n) {m : ℕ} {x : Transfer ε}
    {o : List α} (hlength : StopsOnError condition → es.length ≤ n)
    (hstep : ComposedOp.step c condition operationAborted (.waits s (c.prepare s m)) x =
      some (op', o)) :
    Progress c condition operationAborted Holds xs op' (es ++ [x]) (xs.take n ++ o) := by
  simp only [ComposedOp.step] at hstep
  split_ifs at hstep with hle
  obtain ⟨rfl, rfl⟩ := Prod.mk.inj (Option.some.inj hstep)
  have hbound := h.add_le_of_le_prepare hs hle
  rw [h.take_append_take_prepare hs hle]
  obtain ⟨ec, heq, hfinishes⟩ | ⟨heq, hmoved, hlt, hmore⟩ :=
    resume_cases condition operationAborted h hs hbound
  · rw [heq]
    refine .called hbound hfinishes fun hstops => ?_
    have hes := hlength hstops
    rw [List.length_append, List.length_singleton]
    omega
  · rw [heq]
    refine .waits (h.consume hs hbound) hlt hmore fun hstops => ?_
    -- an error would have satisfied the condition, and an empty transfer has no more to come
    have hec : x.ec = none := by
      rcases hec : x.ec with _ | e
      · rfl
      · rw [hec, hstops] at hmore
        exact absurd rfl hmore
    have hes := hlength hstops
    have hpos : x.bytesTransferred ≠ 0 := fun hzero => hmoved ⟨hec, hzero⟩
    rw [List.length_append, List.length_singleton]
    omega

/-- Every transfer brings the operation forward. -/
lemma Progress.step (h : c.Represents Holds)
    (hop : Progress c condition operationAborted Holds xs op es out) {x : Transfer ε} {o : List α}
    (hstep : op.step c condition operationAborted x = some (op', o)) :
    Progress c condition operationAborted Holds xs op' (es ++ [x]) (out ++ o) := by
  rcases hop with hs | ⟨hs, -, -, hlength⟩ | _
  · exact Progress.of_waits h hs (fun _ => Nat.zero_le _) hstep
  · exact Progress.of_waits h hs hlength hstep
  · cases hstep

/-- How far a composed operation is after any transfers. -/
lemma progress_run (h : c.Represents Holds) (hs : Holds s xs 0)
    (hrun : Machine.run (ComposedOp.step c condition operationAborted)
      (.start c condition s) es = some (op, out)) :
    Progress c condition operationAborted Holds xs op es out :=
  Machine.run_history (I := Progress c condition operationAborted Holds xs) hrun (.start hs)
    fun _ _ _ _ _ _ hop hstep => hop.step h hstep

/-- What was transferred is the beginning of the buffers, after at most one transfer more than there
are bytes. -/
lemma Progress.isPrefix (hop : Progress c condition operationAborted Holds xs op es out) :
    out <+: xs ∧ (StopsOnError condition → es.length ≤ out.length + 1) := by
  rcases hop with _ | ⟨-, hlt, -, hlength⟩ | ⟨hle, -, hlength⟩
  · exact ⟨List.nil_prefix, fun _ => Nat.zero_le _⟩
  · rw [List.length_take_of_le hlt.le]
    exact ⟨List.take_prefix _ _, fun hstops => (hlength hstops).trans (Nat.le_succ _)⟩
  · rw [List.length_take_of_le hle]
    exact ⟨List.take_prefix _ _, hlength⟩

/-- The handler is called with the number of the transferred bytes, for a reason. -/
lemma Progress.finishes {ec : Option ε} {total : ℕ}
    (hop : Progress c condition operationAborted Holds xs (.called ec total) es out) :
    total = out.length ∧
      ∃ x ∈ es, Finishes condition operationAborted x xs.length total ec := by
  generalize hcalled : ComposedOp.called ec total = op at hop
  rcases hop with _ | _ | @⟨n, ec', es, x, hle, hfinishes, -⟩
  · cases hcalled
  · cases hcalled
  · obtain ⟨rfl, rfl⟩ := ComposedOp.called.inj hcalled
    exact ⟨(List.length_take_of_le hle).symm, x,
      List.mem_append_right _ (List.mem_singleton_self x), hfinishes⟩

/-- A handler that is called without an error finds everything transferred or the condition
satisfied, unless the stream has transferred nothing without an error. -/
lemma Progress.success {total : ℕ}
    (hop : Progress c condition operationAborted Holds xs (.called none total) es out) :
    out = xs ∨ condition none out.length = 0 ∨ ∃ x ∈ es, x.ec = none ∧ x.bytesTransferred = 0 := by
  obtain ⟨rfl, x, hx, ⟨hec, hzero | hall | hcondition⟩ | ⟨hec, -⟩⟩ := hop.finishes
  · exact Or.inr (Or.inr ⟨x, hx, hzero⟩)
  · exact Or.inl (hop.isPrefix.1.eq_of_length hall)
  · rw [← hec] at hcondition
    exact Or.inr (Or.inl hcondition)
  · cases hec

/-- **All or an error.**  Under `transfer_all`, whatever portions the stream transfers, what was
transferred is always the beginning of the buffers, after at most one transfer more than there are
bytes.  The handler is called with the number of the transferred bytes, without an error only if
these are all or the stream has transferred nothing without an error, and with an error only if the
stream has reported it or the operation was cancelled. -/
theorem transferAll_run (h : c.Represents Holds) (hs : Holds s xs 0)
    (hrun : Machine.run (ComposedOp.step c transferAll operationAborted)
      (.start c transferAll s) es = some (op, out)) :
    out <+: xs ∧ es.length ≤ out.length + 1 ∧
      ∀ ec total, op = .called ec total → total = out.length ∧
        (ec = none → out = xs ∨ ∃ x ∈ es, x.ec = none ∧ x.bytesTransferred = 0) ∧
        ∀ e, ec = some e → (∃ x ∈ es, x.ec = some e) ∨
          (e = operationAborted ∧ ∃ x ∈ es, x.cancelled = true) := by
  obtain ⟨hpre, hlength⟩ := (progress_run h hs hrun).isPrefix
  refine ⟨hpre, hlength stopsOnError_transferAll, ?_⟩
  rintro ec total rfl
  obtain ⟨htotal, x, hx, hfinishes⟩ := (progress_run h hs hrun).finishes
  refine ⟨htotal, ?_, ?_⟩
  · rintro rfl
    rcases (progress_run h hs hrun).success with hall | hcondition | hzero
    · exact Or.inl hall
    · exact absurd hcondition (Nat.succ_ne_zero _)
    · exact Or.inr hzero
  · rintro e rfl
    rcases hfinishes with ⟨hec, -⟩ | ⟨hec, hcancelled, -⟩
    · exact Or.inl ⟨x, hx, hec.symm⟩
    · exact Or.inr ⟨Option.some.inj hec, x, hx, hcancelled⟩

/-- A portion of one byte and a portion of two bytes. -/
def twoPortions : List (Transfer String) := [⟨none, 1, false⟩, ⟨none, 2, false⟩]

/-- Three bytes in two buffers are written in two portions. -/
theorem transferAll_run_twoPortions :
    ∃ op out, Machine.run (ComposedOp.step (consumingBuffers ℕ) transferAll "aborted")
        (.start (consumingBuffers ℕ) transferAll (.new [[1, 2], [3]])) twoPortions =
          some (op, out) ∧
      out <+: [1, 2, 3] ∧ twoPortions.length ≤ out.length + 1 ∧
      ∀ ec total, op = .called ec total → total = out.length ∧
        (ec = none → out = [1, 2, 3] ∨ ∃ x ∈ twoPortions, x.ec = none ∧ x.bytesTransferred = 0) ∧
        ∀ e, ec = some e → (∃ x ∈ twoPortions, x.ec = some e) ∨
          (e = "aborted" ∧ ∃ x ∈ twoPortions, x.cancelled = true) := by
  obtain ⟨⟨op, out⟩, hrun⟩ := Option.isSome_iff_exists.mp
    (show (Machine.run (ComposedOp.step (consumingBuffers ℕ) transferAll "aborted")
      (.start (consumingBuffers ℕ) transferAll (.new [[1, 2], [3]])) twoPortions).isSome
      by decide +kernel)
  exact ⟨op, out, hrun,
    transferAll_run consumingBuffers_represents (ConsumingBuffers.holds_new [[1, 2], [3]]) hrun⟩

/-- A condition that never asks for more than is missing of `size` bytes is never exceeded. -/
lemma length_le_of_run (h : c.Represents Holds) (hs : Holds s xs 0) {size : ℕ}
    (hcondition : ∀ err n, condition err n ≤ size - n)
    (hrun : Machine.run (ComposedOp.step c condition operationAborted)
      (.start c condition s) es = some (op, out)) : out.length ≤ size := by
  have hboth : Progress c condition operationAborted Holds xs op es out ∧ out.length ≤ size := by
    refine Machine.run_history (I := fun t es o =>
      Progress c condition operationAborted Holds xs t es o ∧ o.length ≤ size) hrun
      ⟨.start hs, Nat.zero_le _⟩ ?_
    intro t t' x es o o' ⟨ht, hle⟩ hstep
    refine ⟨ht.step h hstep, ?_⟩
    have hprepared : ∀ {b : σ} {n m : ℕ}, Holds b xs n → m ≤ size - n → o.length = n →
        ComposedOp.step c condition operationAborted (.waits b (c.prepare b m)) x =
          some (t', o') → (o ++ o').length ≤ size := by
      intro b n m hb hm ho hstep
      simp only [ComposedOp.step] at hstep
      split_ifs at hstep
      obtain ⟨-, rfl⟩ := Prod.mk.inj (Option.some.inj hstep)
      have hlength := h.length_prepare_le m hb
      rw [List.length_append, List.length_take]
      omega
    rcases ht with ht | ⟨ht, hlt, -, -⟩ | _
    · refine hprepared ht ?_ rfl hstep
      rw [h.totalConsumed_eq ht]
      exact hcondition _ _
    · exact hprepared ht (hcondition _ _) (List.length_take_of_le hlt.le) hstep
    · cases hstep
  exact hboth.2

/-- **Exactly so many bytes or an error.**  Under `transfer_exactly`, whatever portions the stream
transfers, what was transferred is the beginning of the first `size` bytes of the buffers, and all of
them if the handler is called without an error, unless the stream has transferred nothing without
an error. -/
theorem transferExactly_run (h : c.Represents Holds) (hs : Holds s xs 0) {size : ℕ}
    (hrun : Machine.run (ComposedOp.step c (transferExactly size) operationAborted)
      (.start c (transferExactly size) s) es = some (op, out)) :
    out <+: xs.take size ∧ ∀ total, op = .called none total →
      out = xs.take size ∨ ∃ x ∈ es, x.ec = none ∧ x.bytesTransferred = 0 := by
  have hlength := length_le_of_run h hs (transferExactly_le size) hrun
  have hpre := (progress_run h hs hrun).isPrefix.1
  refine ⟨List.prefix_take_iff.mpr ⟨hpre, hlength⟩, ?_⟩
  rintro total rfl
  rcases (progress_run h hs hrun).success with rfl | hcondition | hzero
  · rw [List.take_of_length_le hlength]
    exact Or.inl rfl
  · rw [transferExactly_eq_zero_iff] at hcondition
    rw [← le_antisymm hlength hcondition]
    exact Or.inl (List.prefix_iff_eq_take.mp hpre)
  · exact Or.inr hzero

/-- Two of three bytes are written, one by one. -/
theorem transferExactly_run_two :
    ∃ op out, Machine.run (ComposedOp.step (consumingBuffers ℕ) (transferExactly 2) "aborted")
        (.start (consumingBuffers ℕ) (transferExactly 2) (.new [[1, 2], [3]]))
        [⟨none, 1, false⟩, ⟨none, 1, false⟩] = some (op, out) ∧
      out <+: [1, 2, 3].take 2 ∧ ∀ total, op = .called none total →
        out = [1, 2, 3].take 2 ∨ ∃ x ∈ [(⟨none, 1, false⟩ : Transfer String), ⟨none, 1, false⟩],
          x.ec = none ∧ x.bytesTransferred = 0 := by
  obtain ⟨⟨op, out⟩, hrun⟩ := Option.isSome_iff_exists.mp
    (show (Machine.run (ComposedOp.step (consumingBuffers ℕ) (transferExactly 2) "aborted")
      (.start (consumingBuffers ℕ) (transferExactly 2) (.new [[1, 2], [3]]))
      [⟨none, 1, false⟩, ⟨none, 1, false⟩]).isSome by decide +kernel)
  exact ⟨op, out, hrun,
    transferExactly_run consumingBuffers_represents (ConsumingBuffers.holds_new [[1, 2], [3]])
      hrun⟩

/-- **At least so many bytes or an error.**  Under `transfer_at_least`, a handler that is called
without an error finds at least `minimum` bytes transferred, or all there are, unless the stream has
transferred nothing without an error. -/
theorem transferAtLeast_run (h : c.Represents Holds) (hs : Holds s xs 0) {minimum total : ℕ}
    (hrun : Machine.run (ComposedOp.step c (transferAtLeast minimum) operationAborted)
      (.start c (transferAtLeast minimum) s) es = some (.called none total, out)) :
    out = xs ∨ minimum ≤ out.length ∨ ∃ x ∈ es, x.ec = none ∧ x.bytesTransferred = 0 := by
  rcases (progress_run h hs hrun).success with hall | hcondition | hzero
  · exact Or.inl hall
  · right
    left
    by_contra hlt
    rw [transferAtLeast, if_neg (by simpa using hlt)] at hcondition
    exact absurd hcondition (Nat.succ_ne_zero _)
  · exact Or.inr (Or.inr hzero)

end Runs

/-! ## Reading -/

section Reading

variable {ι β : Type*} [DecidableEq ι]

/-- Data arrive at the given places, one item after the other. -/
def store : (ι → β) → List ι → List β → ι → β
  | mem, place :: places, b :: data => store (Function.update mem place b) places data
  | mem, _, _ => mem

/-- Places without data keep what they hold. -/
@[simp] lemma store_nil (mem : ι → β) (places : List ι) : store mem places [] = mem := by
  rcases places with _ | ⟨place, places⟩ <;> rfl

/-- Only the first places receive data. -/
lemma store_take (mem : ι → β) (places : List ι) (data : List β) :
    store mem (places.take data.length) data = store mem places data := by
  induction data generalizing mem places with
  | nil => rw [store_nil, store_nil]
  | cons b data ih =>
    rcases places with _ | ⟨place, places⟩
    · rfl
    · rw [List.length_cons, List.take_succ_cons, store, store, ih]

/-- What arrives later goes to the later places. -/
lemma store_append {mem : ι → β} {places : List ι} {data : List β}
    (h : data.length ≤ places.length) (data' : List β) :
    store mem places (data ++ data') =
      store (store mem places data) (places.drop data.length) data' := by
  induction data generalizing mem places with
  | nil => rw [List.nil_append, store_nil, List.length_nil, List.drop_zero]
  | cons b data ih =>
    rcases places with _ | ⟨place, places⟩
    · exact absurd h (Nat.not_succ_le_zero _)
    · exact ih (Nat.le_of_succ_le_succ h)

/-- Other places keep what they hold. -/
lemma store_of_notMem {mem : ι → β} {places : List ι} {i : ι} (h : i ∉ places) (data : List β) :
    store mem places data i = mem i := by
  induction data generalizing mem places with
  | nil => rw [store_nil]
  | cons b data ih =>
    rcases places with _ | ⟨place, places⟩
    · rfl
    · rw [List.mem_cons, not_or] at h
      rw [store, ih h.2, Function.update_of_ne h.1]

/-- Different places hold the data, and behind them what they held before. -/
lemma map_store {places : List ι} (hnodup : places.Nodup) (mem : ι → β) {data : List β}
    (h : data.length ≤ places.length) :
    places.map (store mem places data) = data ++ (places.drop data.length).map mem := by
  induction data generalizing mem places with
  | nil => rw [store_nil, List.nil_append, List.length_nil, List.drop_zero]
  | cons b data ih =>
    rcases places with _ | ⟨place, places⟩
    · exact absurd h (Nat.not_succ_le_zero _)
    · obtain ⟨hplace, hplaces⟩ := List.nodup_cons.mp hnodup
      have hrest : (places.drop data.length).map (Function.update mem place b) =
          (places.drop data.length).map mem := by
        refine List.map_congr_left fun i hi => Function.update_of_ne ?_ b mem
        rintro rfl
        exact hplace (List.mem_of_mem_drop hi)
      rw [store, List.map_cons, ih hplaces _ (Nat.le_of_succ_le_succ h),
        store_of_notMem hplace, Function.update_self, hrest, List.cons_append, List.length_cons,
        List.drop_succ_cons]

/-- How an operation of the stream that reads completes: with data, which arrive in the buffers. -/
structure Arrival (ε β : Type*) where
  ec : Option ε
  data : List β
  cancelled : Bool
  deriving DecidableEq, Repr

/-- The transfer of an arrival. -/
def Arrival.transfer (x : Arrival ε β) : Transfer ε := ⟨x.ec, x.data.length, x.cancelled⟩

variable (c : Consumer σ ι) (condition : Option ε → ℕ → ℕ) (operationAborted : ε)

/-- The stream reads into the prepared buffers: data arrive at their places, and the composed
operation is resumed. -/
def readStep (s : ComposedOp σ ι ε × (ι → β)) (x : Arrival ε β) :
    Option ((ComposedOp σ ι ε × (ι → β)) × List β) :=
  (s.1.step c condition operationAborted x.transfer).map fun r =>
    ((r.1, store s.2 r.2 x.data), x.data)

variable {c condition operationAborted} {Holds : σ → List ι → ℕ → Prop} {s : σ} {xs : List ι}
  {op : ComposedOp σ ι ε} {mem mem' : ι → β} {es : List (Arrival ε β)} {received : List β}

/-- The transfers of a read, and what the memory holds after them. -/
lemma transfers_of_readRun (h : c.Represents Holds) (hs : Holds s xs 0)
    (hrun : Machine.run (readStep c condition operationAborted) (.start c condition s, mem) es =
      some ((op, mem'), received)) :
    Machine.run (ComposedOp.step c condition operationAborted) (.start c condition s)
        (es.map Arrival.transfer) = some (op, xs.take received.length) ∧
      received.length ≤ xs.length ∧ mem' = store mem xs received := by
  refine Machine.run_history (I := fun t es o =>
    Machine.run (ComposedOp.step c condition operationAborted) (.start c condition s)
        (es.map Arrival.transfer) = some (t.1, xs.take o.length) ∧
      o.length ≤ xs.length ∧ t.2 = store mem xs o) hrun ⟨rfl, Nat.zero_le _, ?_⟩ ?_
  · rw [store_nil]
  rintro ⟨t, m⟩ ⟨t', m'⟩ x es o o' ⟨hrun, hle, rfl⟩ hstep
  obtain ⟨⟨t₁, places⟩, hop, heq⟩ := Option.map_eq_some_iff.mp hstep
  obtain ⟨⟨rfl, rfl⟩, rfl⟩ : (t₁ = t' ∧ store (store mem xs o) places x.data = m') ∧ x.data = o' :=
    ⟨⟨congrArg (·.1.1) heq, congrArg (·.1.2) heq⟩, congrArg (·.2) heq⟩
  have hall : Machine.run (ComposedOp.step c condition operationAborted) (.start c condition s)
      ((es ++ [x]).map Arrival.transfer) = some (t₁, xs.take o.length ++ places) := by
    rw [List.map_append]
    exact Machine.run_append_iff.mpr
      ⟨t, _, places, hrun, (Machine.run_singleton _ _).trans hop, rfl⟩
  have hplaces : places.length = x.data.length := by
    unfold ComposedOp.step at hop
    split at hop
    · split_ifs at hop with hprepared
      obtain ⟨-, rfl⟩ := Prod.mk.inj (Option.some.inj hop)
      exact List.length_take_of_le hprepared
    · cases hop
  obtain ⟨rest, hrest⟩ := (progress_run h hs hall).isPrefix.1
  have hlength : (o ++ x.data).length = (xs.take o.length ++ places).length := by
    rw [List.length_append, List.length_append, List.length_take_of_le hle, hplaces]
  have htake : xs.take (o ++ x.data).length = xs.take o.length ++ places := by
    conv_lhs => rw [← hrest, hlength, List.take_left]
  have hbound : (o ++ x.data).length ≤ xs.length := by
    have hxs := congrArg List.length hrest
    rw [List.length_append, ← hlength] at hxs
    omega
  refine ⟨by rw [htake]; exact hall, hbound, ?_⟩
  have hdrop : (xs.drop o.length).take x.data.length = places := by
    rw [List.length_append, List.take_add] at htake
    exact List.append_cancel_left htake
  rw [store_append hle, ← hdrop, store_take]

/-- **Reading in portions.**  Under `transfer_all`, whatever portions arrive, the buffers hold what
has arrived, in its order, and behind it what they held before; nothing else is touched.  The
handler is called with the number of bytes that have arrived, and without an error only if the
buffers are full or the stream has delivered nothing without an error. -/
theorem read_run (h : c.Represents Holds) (hs : Holds s xs 0) (hnodup : xs.Nodup)
    (hrun : Machine.run (readStep c transferAll operationAborted)
      (.start c transferAll s, mem) es = some ((op, mem'), received)) :
    xs.map mem' = received ++ (xs.drop received.length).map mem ∧ (∀ i ∉ xs, mem' i = mem i) ∧
      ∀ ec total, op = .called ec total → total = received.length ∧
        (ec = none → received.length = xs.length ∨ ∃ x ∈ es, x.ec = none ∧ x.data = []) := by
  obtain ⟨htransfers, hle, rfl⟩ := transfers_of_readRun h hs hrun
  refine ⟨map_store hnodup mem hle, fun i hi => store_of_notMem hi received, ?_⟩
  rintro ec total rfl
  have hlength : (xs.take received.length).length = received.length := List.length_take_of_le hle
  refine ⟨(progress_run h hs htransfers).finishes.1.trans hlength, ?_⟩
  rintro rfl
  rcases (progress_run h hs htransfers).success with hall | hcondition | ⟨y, hy, hec, hzero⟩
  · left
    rw [← hlength, hall]
  · exact absurd hcondition (Nat.succ_ne_zero _)
  · obtain ⟨x, hx, rfl⟩ := List.mem_map.mp hy
    exact Or.inr ⟨x, hx, hec, List.eq_nil_of_length_eq_zero hzero⟩

/-- A buffer of three bytes at the places 4, 5, 6 is filled in two portions. -/
theorem read_run_twoPortions :
    ∃ op mem' received, Machine.run (readStep (consumingSingleBuffer ℕ) transferAll "aborted")
        (.start (consumingSingleBuffer ℕ) transferAll (.new [4, 5, 6]), fun _ => 'x')
        [⟨none, ['a'], false⟩, ⟨none, ['b', 'c'], false⟩] = some ((op, mem'), received) ∧
      [4, 5, 6].map mem' = received ++ ([4, 5, 6].drop received.length).map (fun _ => 'x') ∧
      (∀ i ∉ [4, 5, 6], mem' i = 'x') ∧
      ∀ ec total, op = .called ec total → total = received.length ∧
        (ec = none → received.length = [4, 5, 6].length ∨
          ∃ x ∈ [(⟨none, ['a'], false⟩ : Arrival String Char), ⟨none, ['b', 'c'], false⟩],
            x.ec = none ∧ x.data = []) := by
  obtain ⟨⟨⟨op, mem'⟩, received⟩, hrun⟩ := Option.isSome_iff_exists.mp
    (show (Machine.run (readStep (consumingSingleBuffer ℕ) transferAll "aborted")
      (.start (consumingSingleBuffer ℕ) transferAll (.new [4, 5, 6]), fun _ => 'x')
      [⟨none, ['a'], false⟩, ⟨none, ['b', 'c'], false⟩]).isSome by decide +kernel)
  exact ⟨op, mem', received, hrun, read_run consumingSingleBuffer_represents
    ⟨rfl, rfl, Nat.zero_le _⟩ (by decide) hrun⟩

end Reading

/-! ## The blocking operation -/

/-- `write`, and likewise `read_buffer_seq`, from the head of the loop on; `results` are what the
operations of the stream return.  The result is the error, the number of bytes, the bytes and the
results that were not used, or `none` if an operation of the stream has not returned. -/
def blocking (c : Consumer σ α) (condition : Option ε → ℕ → ℕ) :
    σ → Option ε → List (Option ε × ℕ) → Option (Option ε × ℕ × List α × List (Option ε × ℕ))
  | tmp, ec, results =>
    if c.empty tmp then some (ec, c.totalConsumed tmp, [], results)
    else
      let maxSize := condition ec (c.totalConsumed tmp)
      if maxSize = 0 then some (ec, c.totalConsumed tmp, [], results)
      else
        match results with
        | [] => none
        | (ec, n) :: results =>
          let prepared := (c.prepare tmp maxSize).flatten
          if n ≤ prepared.length then
            (blocking c condition (c.consume tmp n) ec results).map fun r =>
              (r.1, r.2.1, prepared.take n ++ r.2.2.1, r.2.2.2)
          else none

section Blocking

variable {c : Consumer σ α} {condition : Option ε → ℕ → ℕ} {operationAborted : ε}
  {Holds : σ → List α → ℕ → Prop} {s : σ} {xs out : List α}

/-- The blocking operation returns at the head of its loop. -/
lemma blocking_of_done (h : c.Represents Holds) {n : ℕ} (hs : Holds s xs n) {ec : Option ε}
    (hdone : n = xs.length ∨ condition ec n = 0) (results : List (Option ε × ℕ)) :
    blocking c condition s ec results = some (ec, n, [], results) := by
  unfold blocking
  simp only [h.totalConsumed_eq hs]
  by_cases hempty : c.empty s = true
  · rw [if_pos hempty]
  · have hzero : condition ec n = 0 :=
      hdone.resolve_left fun hend => hempty ((h.empty_iff hs).mpr hend)
    rw [if_neg hempty, if_pos hzero]

/-- The blocking operation waits for an operation of the stream. -/
lemma blocking_nil_of_more (h : c.Represents Holds) {n : ℕ} (hs : Holds s xs n) {ec : Option ε}
    (hlt : n < xs.length) (hmore : condition ec n ≠ 0) :
    blocking c condition s ec [] = none := by
  have hempty : ¬ c.empty s = true := fun hempty => hlt.ne ((h.empty_iff hs).mp hempty)
  rw [blocking, if_neg hempty]
  simp only [h.totalConsumed_eq hs, if_neg hmore]

/-- The blocking operation goes on when an operation of the stream has returned. -/
lemma blocking_cons_of_more (h : c.Represents Holds) {n : ℕ} (hs : Holds s xs n) {ec ec' : Option ε}
    (hlt : n < xs.length) (hmore : condition ec n ≠ 0) {k : ℕ}
    (hk : k ≤ (c.prepare s (condition ec n)).flatten.length) (results : List (Option ε × ℕ)) :
    blocking c condition s ec ((ec', k) :: results) =
      (blocking c condition (c.consume s k) ec' results).map fun r =>
        (r.1, r.2.1, (c.prepare s (condition ec n)).flatten.take k ++ r.2.2.1, r.2.2.2) := by
  have hempty : ¬ c.empty s = true := fun hempty => hlt.ne ((h.empty_iff hs).mp hempty)
  rw [blocking, if_neg hempty]
  simp only [h.totalConsumed_eq hs, if_neg hmore, if_pos hk]

/-- No operation of a stream transfers more than was prepared. -/
lemma blocking_cons_of_not_le (h : c.Represents Holds) {n : ℕ} (hs : Holds s xs n)
    {ec ec' : Option ε} (hlt : n < xs.length) (hmore : condition ec n ≠ 0) {k : ℕ}
    (hk : ¬ k ≤ (c.prepare s (condition ec n)).flatten.length) (results : List (Option ε × ℕ)) :
    blocking c condition s ec ((ec', k) :: results) = none := by
  have hempty : ¬ c.empty s = true := fun hempty => hlt.ne ((h.empty_iff hs).mp hempty)
  rw [blocking, if_neg hempty]
  simp only [h.totalConsumed_eq hs, if_neg hmore, if_neg hk]

/-- Nothing happens after the handler was called. -/
lemma run_called_iff {ec : Option ε} {n : ℕ} {es : List (Transfer ε)} {op : ComposedOp σ α ε} :
    Machine.run (ComposedOp.step c condition operationAborted) (.called ec n) es = some (op, out) ↔
      es = [] ∧ op = .called ec n ∧ out = [] := by
  rcases es with _ | ⟨x, es⟩
  · rw [Machine.run_nil, Option.some.injEq, Prod.mk.injEq]
    exact ⟨fun h => ⟨rfl, h.1.symm, h.2.symm⟩, fun h => ⟨h.2.1.symm, h.2.2.symm⟩⟩
  · rw [Machine.run_cons_iff]
    constructor
    · rintro ⟨t, o, o', hstep, -⟩
      cases hstep
    · rintro ⟨hnil, -⟩
      cases hnil

/-- From a position at which more is wanted, the two ways of transferring agree. -/
lemma run_iff_blocking (h : c.Represents Holds) {n : ℕ} (hs : Holds s xs n) {ec : Option ε}
    (hlt : n < xs.length) (hmore : condition ec n ≠ 0) {es : List (Transfer ε)}
    (hmoves : ∀ x ∈ es, x.cancelled = false ∧ ¬ (x.ec = none ∧ x.bytesTransferred = 0))
    (ec' : Option ε) (total : ℕ) :
    Machine.run (ComposedOp.step c condition operationAborted)
        (.waits s (c.prepare s (condition ec n))) es = some (.called ec' total, out) ↔
      blocking c condition s ec (es.map fun x => (x.ec, x.bytesTransferred)) =
        some (ec', total, out, []) := by
  induction es generalizing s n ec out with
  | nil =>
    rw [List.map_nil, blocking_nil_of_more h hs hlt hmore]
    simp
  | cons x es ih =>
    obtain ⟨⟨hcancelled, hmoved⟩, hes⟩ := List.forall_mem_cons.mp hmoves
    rw [List.map_cons, Machine.run_cons_iff]
    by_cases hle : x.bytesTransferred ≤ (c.prepare s (condition ec n)).flatten.length
    · have hbound := h.add_le_of_le_prepare hs hle
      have hs' := h.consume hs hbound
      rw [blocking_cons_of_more h hs hlt hmore hle]
      simp only [ComposedOp.step, if_pos hle, Option.some.injEq, Prod.mk.injEq,
        Option.map_eq_some_iff]
      obtain ⟨ec₁, heq, hfinishes⟩ | ⟨heq, -, hlt', hmore'⟩ :=
        resume_cases condition operationAborted h hs hbound
      · -- the handler is called, and the loop of the blocking operation is left
        have hreason : ec₁ = x.ec ∧ (n + x.bytesTransferred = xs.length ∨
            condition x.ec (n + x.bytesTransferred) = 0) := by
          rcases hfinishes with ⟨hec, hreason⟩ | ⟨-, hcancelled', -⟩
          · exact ⟨hec, hreason.resolve_left hmoved⟩
          · rw [hcancelled] at hcancelled'
            cases hcancelled'
        rw [heq, hreason.1, blocking_of_done h hs' hreason.2]
        constructor
        · rintro ⟨op, o, o', ⟨rfl, rfl⟩, hrun, rfl⟩
          obtain ⟨rfl, hop, rfl⟩ := run_called_iff.mp hrun
          obtain ⟨rfl, rfl⟩ := ComposedOp.called.inj hop
          exact ⟨_, rfl, rfl, rfl, rfl, rfl⟩
        · rintro ⟨r, hr, rfl, rfl, rfl, hrest⟩
          obtain rfl := Option.some.inj hr
          exact ⟨_, _, _, ⟨rfl, rfl⟩,
            run_called_iff.mpr ⟨List.map_eq_nil_iff.mp hrest, rfl, rfl⟩, rfl⟩
      · -- both go on
        rw [heq]
        constructor
        · rintro ⟨op, o, o', ⟨rfl, rfl⟩, hrun, rfl⟩
          exact ⟨_, (ih hs' hlt' hmore' hes).mp hrun, rfl, rfl, rfl, rfl⟩
        · rintro ⟨⟨ec₁, total₁, o', rest⟩, hr, rfl, rfl, rfl, rfl⟩
          exact ⟨_, _, _, ⟨rfl, rfl⟩, (ih hs' hlt' hmore' hes).mpr hr, rfl⟩
    · rw [blocking_cons_of_not_le h hs hlt hmore hle]
      simp only [ComposedOp.step, if_neg hle]
      constructor
      · rintro ⟨_, _, _, hstep, -⟩
        cases hstep
      · intro hnone
        cases hnone

/-- **Two ways of transferring.**  If there is something to transfer, the asynchronous operation and
the blocking one transfer the same bytes and report the same error and number, as long as the stream
never transfers nothing without an error and the asynchronous one is not cancelled. -/
theorem async_iff_blocking (h : c.Represents Holds) (hs : Holds s xs 0) (hxs : xs ≠ [])
    (hcondition : condition none 0 ≠ 0) {es : List (Transfer ε)}
    (hmoves : ∀ x ∈ es, x.cancelled = false ∧ ¬ (x.ec = none ∧ x.bytesTransferred = 0))
    (ec : Option ε) (total : ℕ) :
    Machine.run (ComposedOp.step c condition operationAborted) (.start c condition s) es =
        some (.called ec total, out) ↔
      blocking c condition s none (es.map fun x => (x.ec, x.bytesTransferred)) =
        some (ec, total, out, []) := by
  rw [ComposedOp.start, h.totalConsumed_eq hs]
  exact run_iff_blocking h hs (List.length_pos_of_ne_nil hxs) hcondition hmoves ec total

/-- Three bytes in an array of two buffers. -/
theorem async_iff_blocking_twoPortions :
    Machine.run (ComposedOp.step (consumingPair ℕ) transferAll "aborted")
        (.start (consumingPair ℕ) transferAll (.new [1, 2] [3])) twoPortions =
        some (.called none 3, [1, 2, 3]) ↔
      blocking (consumingPair ℕ) transferAll (.new [1, 2] [3]) none
        (twoPortions.map fun x => (x.ec, x.bytesTransferred)) = some (none, 3, [1, 2, 3], []) :=
  async_iff_blocking consumingPair_represents
    (show (ConsumingPair.new [1, 2] [3]).Holds [1, 2, 3] 0 from ⟨rfl, rfl, Nat.zero_le _⟩)
    (by decide) (Nat.succ_ne_zero _) (by decide) none 3

end Blocking

end Asio

end AsioStudy
