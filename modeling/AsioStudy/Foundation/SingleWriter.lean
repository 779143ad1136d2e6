import AsioStudy.Foundation.Machine

/-!
# Writers that send a queue one item at a time

A common pattern of asynchronous programs: items are appended to a queue; when the queue was empty,
a write of its front item is started; when a write has succeeded, the front item is removed and the
next write is started if there is one.  No separate flag says whether a write is in progress, the
emptiness of the queue does.

The front item of an empty queue and its removal are undefined; the machine notes that something
undefined has happened.  `Writer.Inv` is the invariant of the pattern: the items that were written
and those in the queue are all the items in their order, and the write in progress is the write of
the front item.
-/

namespace AsioStudy

namespace SingleWriter

variable {M R : Type*}

/-- The state of a writer. -/
structure Writer (M : Type*) where
  /-- The items that have not been written. -/
  queue : List M
  /-- The writes in progress, each given by its item. -/
  inFlight : List M
  /-- Whether the front of an empty queue was used. -/
  undefined : Bool
  deriving DecidableEq, Repr

/-- A new writer. -/
def Writer.new : Writer M := ⟨[], [], false⟩

/-- What a writer does: it starts a write, a write has succeeded, or it reacts to an error. -/
inductive Output (M R : Type*) where
  | started (m : M)
  | written (m : M)
  | reacted (r : R)
  deriving DecidableEq, Repr

/-- Start the write of the front item. -/
def Writer.start (w : Writer M) : Writer M × List (Output M R) :=
  match w.queue with
  | [] => ({ w with undefined := true }, [])
  | m :: _ => ({ w with inFlight := w.inFlight ++ [m] }, [.started m])

/-- Append an item, and start its write if no write is in progress. -/
def Writer.enqueue (w : Writer M) (m : M) : Writer M × List (Output M R) :=
  let writeInProgress := !w.queue.isEmpty
  let w := { w with queue := w.queue ++ [m] }
  if !writeInProgress then w.start else (w, [])

/-- Remove the front item. -/
def Writer.popFront (w : Writer M) : Writer M :=
  match w.queue with
  | [] => { w with undefined := true }
  | _ :: ms => { w with queue := ms }

/-- The handler of a write: after a success the next one is started, after an error `onError` is
what happens. -/
def Writer.completed (onError : R) (w : Writer M) (ok : Bool) : Writer M × List (Output M R) :=
  if ok then
    let w := w.popFront
    if !w.queue.isEmpty then w.start else (w, [])
  else (w, [.reacted onError])

/-- An item arrives, or the `k`-th write in progress completes and its handler runs. -/
inductive Event (M : Type*) where
  | enqueue (m : M)
  | complete (k : ℕ) (ok : Bool)
  deriving DecidableEq, Repr

/-- The effect of an event. -/
def step (onError : R) (w : Writer M) : Event M → Option (Writer M × List (Output M R))
  | .enqueue m => some (w.enqueue m)
  | .complete k ok =>
    match w.inFlight[k]? with
    | none => none
    | some m =>
      let r := Writer.completed onError { w with inFlight := w.inFlight.eraseIdx k } ok
      some (r.1, (if ok then [.written m] else []) ++ r.2)

/-! ## The record of a run -/

/-- The items that were appended. -/
def enqueued (events : List (Event M)) : List M :=
  events.filterMap fun e =>
    match e with
    | .enqueue m => some m
    | .complete _ _ => none

/-- The items whose writes have succeeded. -/
def written (out : List (Output M R)) : List M :=
  out.filterMap fun x =>
    match x with
    | .written m => some m
    | _ => none

/-- Whether a write has failed. -/
def hasFailed (out : List (Output M R)) : Bool :=
  out.any fun x =>
    match x with
    | .reacted _ => true
    | _ => false

/-- The items of two stretches of a run. -/
@[simp] lemma enqueued_append (es fs : List (Event M)) :
    enqueued (es ++ fs) = enqueued es ++ enqueued fs := List.filterMap_append

/-- The items written in two stretches of a run. -/
@[simp] lemma written_append (out out' : List (Output M R)) :
    written (out ++ out') = written out ++ written out' := List.filterMap_append

/-- Failures in two stretches of a run. -/
@[simp] lemma hasFailed_append (out out' : List (Output M R)) :
    hasFailed (out ++ out') = (hasFailed out || hasFailed out') := List.any_append

/-! ## The invariant -/

/-- The invariant of a writer, with what has happened so far. -/
structure Writer.Inv (w : Writer M) (events : List (Event M)) (out : List (Output M R)) :
    Prop where
  /-- Nothing undefined has happened. -/
  defined : w.undefined = false
  /-- No item is lost, repeated or out of order. -/
  conserved : enqueued events = written out ++ w.queue
  /-- As long as no write has failed, the front item is being written. -/
  inFlight_eq : hasFailed out = false → w.inFlight = w.queue.head?.toList
  /-- After a failure nothing is being written, and the failed item keeps the queue nonempty. -/
  failed : hasFailed out = true → w.inFlight = [] ∧ w.queue ≠ []

/-- The invariant holds initially. -/
lemma inv_new : (Writer.new : Writer M).Inv [] ([] : List (Output M R)) :=
  ⟨rfl, rfl, fun _ => rfl, fun h => by simp [hasFailed] at h⟩

/-- The arrival of an item keeps the invariant. -/
lemma Writer.Inv.enqueue {w : Writer M} {events : List (Event M)} {out : List (Output M R)}
    (h : w.Inv events out) (m : M) :
    (w.enqueue m : Writer M × List (Output M R)).1.Inv (events ++ [.enqueue m])
      (out ++ (w.enqueue m).2) := by
  have hitems : enqueued (events ++ [.enqueue m]) = written out ++ (w.queue ++ [m]) := by
    rw [enqueued_append, h.conserved, List.append_assoc]
    rfl
  cases hqueue : w.queue with
  | nil =>
    -- nothing is in progress, hence nothing has failed
    have hok : hasFailed out = false := by
      rw [← Bool.not_eq_true]
      intro hfail
      exact (h.failed hfail).2 hqueue
    have hflight : w.inFlight = [] := by
      rw [h.inFlight_eq hok, hqueue]
      rfl
    have henq : (w.enqueue m : Writer M × List (Output M R)) =
        (⟨[m], [m], w.undefined⟩, [.started m]) := by
      simp [Writer.enqueue, hqueue, Writer.start, hflight]
    rw [henq]
    refine ⟨h.defined, ?_, fun _ => rfl, fun hfail => ?_⟩
    · rw [hitems, hqueue, written_append]
      simp [written]
    · rw [hasFailed_append, hok] at hfail
      simp [hasFailed] at hfail
  | cons a ms =>
    have henq : (w.enqueue m : Writer M × List (Output M R)) =
        (⟨w.queue ++ [m], w.inFlight, w.undefined⟩, []) := by
      simp [Writer.enqueue, hqueue]
    rw [henq, List.append_nil]
    refine ⟨h.defined, hitems, fun hok => ?_, fun hfail => ⟨(h.failed hfail).1, by simp⟩⟩
    rw [h.inFlight_eq hok, hqueue]
    rfl

/-- What is known when a write completes: it is the only one, of the front item, and none has
failed before. -/
lemma Writer.Inv.of_inFlight {w : Writer M} {events : List (Event M)} {out : List (Output M R)}
    (h : w.Inv events out) {k : ℕ} {m : M} (hm : w.inFlight[k]? = some m) :
    hasFailed out = false ∧ k = 0 ∧ w.inFlight = [m] ∧ ∃ ms, w.queue = m :: ms := by
  have hok : hasFailed out = false := by
    rw [← Bool.not_eq_true]
    intro hfail
    rw [(h.failed hfail).1] at hm
    simp at hm
  have hflight := h.inFlight_eq hok
  cases hqueue : w.queue with
  | nil =>
    rw [hflight, hqueue] at hm
    simp at hm
  | cons a ms =>
    rw [hqueue] at hflight
    have hflight' : w.inFlight = [a] := hflight
    rw [hflight', List.getElem?_singleton] at hm
    split at hm
    · rename_i hk
      have ham : a = m := Option.some.inj hm
      exact ⟨hok, hk, by rw [hflight', ham], ms, by rw [ham]⟩
    · cases hm

/-- The completion of a write keeps the invariant. -/
lemma Writer.Inv.complete {w : Writer M} {events : List (Event M)} {out : List (Output M R)}
    (h : w.Inv events out) (onError : R) {k : ℕ} {m : M} (hm : w.inFlight[k]? = some m)
    (ok : Bool) :
    (Writer.completed onError { w with inFlight := w.inFlight.eraseIdx k } ok).1.Inv
      (events ++ [.complete k ok])
      (out ++ ((if ok then [.written m] else []) ++
        (Writer.completed onError { w with inFlight := w.inFlight.eraseIdx k } ok).2)) := by
  obtain ⟨hok, rfl, hflight, ms, hqueue⟩ := h.of_inFlight hm
  have hitems : enqueued (events ++ [.complete 0 ok]) = written out ++ m :: ms := by
    rw [enqueued_append, h.conserved, hqueue]
    exact List.append_nil _
  have hnone : hasFailed (out ++ [.written m]) = false := by
    rw [hasFailed_append, hok]
    rfl
  cases ok with
  | true =>
    cases ms with
    | nil =>
      have hc : (Writer.completed onError { w with inFlight := w.inFlight.eraseIdx 0 } true) =
          (⟨[], [], w.undefined⟩, []) := by
        simp [Writer.completed, Writer.popFront, hqueue, hflight]
      rw [hc]
      refine ⟨h.defined, ?_, fun _ => rfl, fun hfail => ?_⟩
      · rw [hitems, written_append, List.append_nil]
        rfl
      · rw [if_pos rfl, List.append_nil, hnone] at hfail
        cases hfail
    | cons a ms =>
      have hc : (Writer.completed onError { w with inFlight := w.inFlight.eraseIdx 0 } true) =
          (⟨a :: ms, [a], w.undefined⟩, [.started a]) := by
        simp [Writer.completed, Writer.popFront, hqueue, hflight, Writer.start]
      rw [hc]
      refine ⟨h.defined, ?_, fun _ => rfl, fun hfail => ?_⟩
      · rw [hitems, written_append, List.append_assoc]
        rfl
      · rw [if_pos rfl, ← List.append_assoc, hasFailed_append, hnone] at hfail
        cases hfail
  | false =>
    have hc : (Writer.completed onError { w with inFlight := w.inFlight.eraseIdx 0 } false) =
        (⟨w.queue, [], w.undefined⟩, [.reacted onError]) := by
      simp [Writer.completed, hflight]
    rw [hc]
    refine ⟨h.defined, ?_, fun hnot => ?_, fun _ => ⟨rfl, by simp [hqueue]⟩⟩
    · rw [hitems, written_append, hqueue, List.append_assoc]
      rfl
    · rw [hasFailed_append, hok] at hnot
      simp [hasFailed] at hnot

/-- Every event keeps the invariant. -/
lemma Writer.Inv.step {onError : R} {w w' : Writer M} {events : List (Event M)}
    {out o : List (Output M R)} {e : Event M} (h : w.Inv events out)
    (hstep : step onError w e = some (w', o)) : w'.Inv (events ++ [e]) (out ++ o) := by
  cases e with
  | enqueue m =>
    have heq := Option.some.inj hstep
    have hw : w' = (w.enqueue m : Writer M × List (Output M R)).1 := (congrArg Prod.fst heq).symm
    have ho : o = (w.enqueue m).2 := (congrArg Prod.snd heq).symm
    rw [hw, ho]
    exact h.enqueue m
  | complete k ok =>
    rw [SingleWriter.step] at hstep
    split at hstep
    · cases hstep
    · rename_i m hm
      cases hstep
      exact h.complete onError hm ok

/-- The invariant holds after every run. -/
theorem inv_of_run {onError : R} {events : List (Event M)} {w : Writer M}
    {out : List (Output M R)}
    (hrun : Machine.run (step onError) Writer.new events = some (w, out)) : w.Inv events out :=
  Machine.run_history (I := fun w es out => w.Inv es out) hrun inv_new
    fun _ _ _ _ _ _ h hstep => h.step hstep

/-- A writer whose write has failed never does anything again but append items. -/
lemma run_of_failed {onError : R} {w w' : Writer M} {events : List (Event M)}
    {out : List (Output M R)} (hflight : w.inFlight = []) (hqueue : w.queue ≠ [])
    (hrun : Machine.run (step onError) w events = some (w', out)) :
    out = [] ∧ w'.inFlight = [] ∧ w'.queue ≠ [] := by
  refine Machine.run_history
    (I := fun w _ out => out = [] ∧ w.inFlight = [] ∧ w.queue ≠ []) hrun ⟨rfl, hflight, hqueue⟩ ?_
  intro v v' e _ out' o ⟨hout, hflight, hqueue⟩ hstep
  cases e with
  | enqueue m =>
    have henq : (v.enqueue m : Writer M × List (Output M R)) =
        (⟨v.queue ++ [m], v.inFlight, v.undefined⟩, []) := by
      simp [Writer.enqueue, hqueue]
    rw [step, henq] at hstep
    cases hstep
    exact ⟨by rw [hout, List.append_nil], hflight, by simp⟩
  | complete k ok =>
    rw [step, hflight] at hstep
    simp at hstep

end SingleWriter

end AsioStudy
