import AsioStudy.Asio.TimeTraits
import AsioStudy.Foundation.HeapOrder

/-!
# The queue of timers

`detail/timer_queue.hpp`: the timers on which operations wait are kept in a linked list and, with
their times, in a binary heap, and each of them knows its index in the heap, so that it can be
removed from the middle.  A timer with an infinite time is in the list only.

`TimerQueue.Inv` is what every operation keeps: the heap is ordered, its entries are the active
timers with a finite time, each once and with the right index, and exactly the active timers have
operations.  The operations are described by what they do to the list of entries up to its order.

The linked list is modelled by the list of its elements; a timer is identified by the address of its
data, and a time is a point in time or infinity.
-/

namespace AsioStudy

namespace Asio

open HeapOrder (IsHeap UpOrder DownOrder parent)

/-- A time and the associated timer, `heap_entry`. -/
structure HeapEntry (T τ : Type*) where
  time : T
  timer : τ
  deriving DecidableEq, Repr

/-- The members of `timer_queue`, and those of the `per_timer_data` of all timers. -/
structure TimerQueue (T τ ω : Type*) where
  /-- The linked list of all active timers, `timers_`. -/
  timers : List τ
  /-- The heap of timers, with the earliest timer at the front, `heap_`. -/
  heap : List (HeapEntry T τ)
  /-- The member `heap_index_` of each timer; the largest value of its type is `none`. -/
  heapIndex : τ → Option ℕ
  /-- The operations waiting on each timer, `op_queue_`. -/
  opQueue : τ → List ω

variable {T τ ω : Type*}

/-- The time of the entry at an index; behind the end of the heap, where no index ever points, it is
infinite. -/
def timeAt (heap : List (HeapEntry T τ)) (i : ℕ) : WithTop T :=
  match heap[i]? with
  | some e => e.time
  | none => ⊤

/-- A queue without timers. -/
def TimerQueue.empty : TimerQueue T τ ω := ⟨[], [], fun _ => none, fun _ => []⟩

namespace TimerQueue

section Operations

variable [DecidableEq τ]

/-- Swap two entries in the heap, `swap_heap`. -/
def swapHeap (q : TimerQueue T τ ω) (index1 index2 : ℕ) : TimerQueue T τ ω :=
  match q.heap[index1]?, q.heap[index2]? with
  | some tmp, some entry =>
    { q with
      heap := (q.heap.set index1 entry).set index2 tmp
      heapIndex := Function.update (Function.update q.heapIndex entry.timer (some index1))
        tmp.timer (some index2) }
  | _, _ => q

/-- The size of the heap does not change. -/
@[simp] lemma length_heap_swapHeap (q : TimerQueue T τ ω) (i j : ℕ) :
    (q.swapHeap i j).heap.length = q.heap.length := by
  unfold swapHeap
  split
  · rw [List.length_set, List.length_set]
  · rfl

variable [LinearOrder T]

/-- Move the item at the given index up the heap to its correct position, `up_heap`. -/
def upHeap (q : TimerQueue T τ ω) (index : ℕ) : TimerQueue T τ ω :=
  if 0 < index then
    let parent := (index - 1) / 2
    if ¬ timeAt q.heap index < timeAt q.heap parent then q
    else upHeap (q.swapHeap index parent) parent
  else q
termination_by index

/-- Move the item at the given index down the heap to its correct position, `down_heap`. -/
def downHeap (q : TimerQueue T τ ω) (index : ℕ) : TimerQueue T τ ω :=
  let child := index * 2 + 1
  if child < q.heap.length then
    let minChild :=
      if child + 1 = q.heap.length ∨ timeAt q.heap child < timeAt q.heap (child + 1) then child
      else child + 1
    if timeAt q.heap index < timeAt q.heap minChild then q
    else downHeap (q.swapHeap index minChild) minChild
  else q
termination_by q.heap.length - index
decreasing_by
  rw [length_heap_swapHeap]
  split_ifs <;> omega

/-- Remove a timer from the heap and list of timers, `remove_timer`. -/
def removeTimer (q : TimerQueue T τ ω) (timer : τ) : TimerQueue T τ ω :=
  let q :=
    match q.heapIndex timer with
    | none => q
    | some index =>
      if index < q.heap.length then
        if index = q.heap.length - 1 then
          { q with heapIndex := Function.update q.heapIndex timer none, heap := q.heap.dropLast }
        else
          let q := q.swapHeap index (q.heap.length - 1)
          let q :=
            { q with heapIndex := Function.update q.heapIndex timer none, heap := q.heap.dropLast }
          if 0 < index ∧ timeAt q.heap index < timeAt q.heap ((index - 1) / 2) then q.upHeap index
          else q.downHeap index
      else q
  { q with timers := q.timers.erase timer }

/-- Add a new timer to the queue, `enqueue_timer`.  Returns true if this is the timer that is
earliest in the queue, and the new operation is at the front of its operations: if there were none.
-/
def enqueueTimer (q : TimerQueue T τ ω) (time : WithTop T) (timer : τ) (op : ω) :
    TimerQueue T τ ω × Bool :=
  let q :=
    if timer ∉ q.timers then
      let q : TimerQueue T τ ω :=
        match time with
        | none => { q with heapIndex := Function.update q.heapIndex timer none }
        | some time =>
          upHeap { q with
            heapIndex := Function.update q.heapIndex timer (some q.heap.length)
            heap := q.heap ++ [⟨time, timer⟩] } q.heap.length
      { q with timers := timer :: q.timers }
    else q
  ({ q with opQueue := Function.update q.opQueue timer (q.opQueue timer ++ [op]) },
    q.heapIndex timer = some 0 ∧ (q.opQueue timer).isEmpty)

/-- For how many microseconds the reactor may sleep, `wait_duration_usec`, if the clock shows the
given time. -/
def waitDurationUsec (clock : Clock T) (q : TimerQueue T τ ω) (now : T) (maxDuration : ℤ) : ℤ :=
  match q.heap.head? with
  | none => maxDuration
  | some e => clock.toUsec e.time now maxDuration

/-- The loop of `get_ready_timers`, at most `n` times. -/
def getReadyLoop (now : T) : ℕ → TimerQueue T τ ω → TimerQueue T τ ω × List ω
  | 0, q => (q, [])
  | n + 1, q =>
    match q.heap.head? with
    | none => (q, [])
    | some e =>
      if now < e.time then (q, [])
      else
        let r := getReadyLoop now n
          (removeTimer { q with opQueue := Function.update q.opQueue e.timer [] } e.timer)
        (r.1, q.opQueue e.timer ++ r.2)

/-- Dequeue all timers not later than the current time, `get_ready_timers`.  The loop removes an
entry of the heap each time. -/
def getReadyTimers (q : TimerQueue T τ ω) (now : T) : TimerQueue T τ ω × List ω :=
  getReadyLoop now q.heap.length q

/-- Dequeue all timers, `get_all_timers`.  The timers keep their indices. -/
def getAllTimers (q : TimerQueue T τ ω) : TimerQueue T τ ω × List ω :=
  ({ q with
      timers := []
      heap := []
      opQueue := fun timer => if timer ∈ q.timers then [] else q.opQueue timer },
    q.timers.flatMap q.opQueue)

/-- Cancel and dequeue operations for the given timer, `cancel_timer`; `none` is no bound on their
number. -/
def cancelTimer (q : TimerQueue T τ ω) (timer : τ) (maxCancelled : Option ℕ) :
    TimerQueue T τ ω × List ω :=
  if timer ∈ q.timers then
    let n := maxCancelled.getD (q.opQueue timer).length
    let rest := (q.opQueue timer).drop n
    let q' := { q with opQueue := Function.update q.opQueue timer rest }
    (if rest = [] then q'.removeTimer timer else q', (q.opQueue timer).take n)
  else (q, [])

/-- Cancel and dequeue specific operations for the given timer, `cancel_timer_by_key`; `hasKey` says
whether an operation has the key. -/
def cancelTimerByKey (q : TimerQueue T τ ω) (timer : τ) (hasKey : ω → Bool) :
    TimerQueue T τ ω × List ω :=
  if timer ∈ q.timers then
    let rest := (q.opQueue timer).filter fun op => !hasKey op
    let q' := { q with opQueue := Function.update q.opQueue timer rest }
    (if rest = [] then q'.removeTimer timer else q', (q.opQueue timer).filter hasKey)
  else (q, [])

/-- Move operations from one timer to another, empty timer, `move_timer`. -/
def moveTimer (q : TimerQueue T τ ω) (target source : τ) : TimerQueue T τ ω where
  opQueue := Function.update
    (Function.update q.opQueue target (q.opQueue target ++ q.opQueue source)) source []
  heapIndex := Function.update (Function.update q.heapIndex target (q.heapIndex source)) source none
  heap :=
    match q.heapIndex source with
    | none => q.heap
    | some index => q.heap.modify index fun e => { e with timer := target }
  timers := q.timers.map fun timer => if timer = source then target else timer

end Operations

/-! ## Reordering the heap -/

/-- Each entry of the heap belongs to a timer that knows its index, and each index that a timer
knows is the one of its entry. -/
structure Indexed (q : TimerQueue T τ ω) : Prop where
  index_eq : ∀ {i : ℕ} {e : HeapEntry T τ}, q.heap[i]? = some e → q.heapIndex e.timer = some i
  exists_entry : ∀ {t : τ} {i : ℕ}, q.heapIndex t = some i →
    ∃ e, q.heap[i]? = some e ∧ e.timer = t

/-- The entries of the heap are exchanged, and nothing else happens. -/
structure Reordered (q q' : TimerQueue T τ ω) : Prop where
  perm : q'.heap.Perm q.heap
  indexed : q'.Indexed
  timers_eq : q'.timers = q.timers
  opQueue_eq : q'.opQueue = q.opQueue

variable {q q' q'' : TimerQueue T τ ω} {i j : ℕ} {t : τ}

/-- Nothing was exchanged. -/
lemma Reordered.refl (h : q.Indexed) : Reordered q q := ⟨List.Perm.refl _, h, rfl, rfl⟩

/-- One reordering after another. -/
lemma Reordered.trans (h : Reordered q q') (h' : Reordered q' q'') : Reordered q q'' :=
  ⟨h'.perm.trans h.perm, h'.indexed, h'.timers_eq.trans h.timers_eq,
    h'.opQueue_eq.trans h.opQueue_eq⟩

/-- Entries at different places belong to different timers. -/
lemma Indexed.eq_of_timer_eq (h : q.Indexed) {a b : HeapEntry T τ} (ha : q.heap[i]? = some a)
    (hb : q.heap[j]? = some b) (htimer : a.timer = b.timer) : i = j := by
  have hi := h.index_eq ha
  rw [htimer, h.index_eq hb] at hi
  exact (Option.some.inj hi).symm

section Swap

variable [DecidableEq τ]

/-- What `swap_heap` does to two entries of the heap. -/
lemma swapHeap_eq {a b : HeapEntry T τ} (ha : q.heap[i]? = some a) (hb : q.heap[j]? = some b) :
    q.swapHeap i j = { q with
      heap := (q.heap.set i b).set j a
      heapIndex := Function.update (Function.update q.heapIndex b.timer (some i)) a.timer
        (some j) } := by
  unfold swapHeap
  rw [ha, hb]

/-- The entries after an exchange. -/
lemma getElem?_swapHeap (hi : i < q.heap.length) (hj : j < q.heap.length) (k : ℕ) :
    (q.swapHeap i j).heap[k]? = q.heap[Equiv.swap i j k]? := by
  obtain ⟨a, ha⟩ : ∃ a, q.heap[i]? = some a := ⟨_, List.getElem?_eq_getElem hi⟩
  obtain ⟨b, hb⟩ : ∃ b, q.heap[j]? = some b := ⟨_, List.getElem?_eq_getElem hj⟩
  rw [swapHeap_eq ha hb]
  simp only [List.getElem?_set, List.length_set]
  by_cases hkj : j = k
  · rw [if_pos hkj, ← hkj, if_pos hj, Equiv.swap_apply_right, ha]
  · rw [if_neg hkj]
    by_cases hki : i = k
    · rw [if_pos hki, ← hki, if_pos hi, Equiv.swap_apply_left, hb]
    · rw [if_neg hki, Equiv.swap_apply_of_ne_of_ne (Ne.symm hki) (Ne.symm hkj)]

/-- The times after an exchange. -/
lemma timeAt_swapHeap (hi : i < q.heap.length) (hj : j < q.heap.length) :
    timeAt (q.swapHeap i j).heap = timeAt q.heap ∘ Equiv.swap i j := by
  funext k
  rw [Function.comp_apply, timeAt, timeAt, getElem?_swapHeap hi hj]

/-- An exchange of two entries reorders the heap. -/
lemma reordered_swapHeap (h : q.Indexed) (hi : i < q.heap.length) (hj : j < q.heap.length) :
    Reordered q (q.swapHeap i j) := by
  obtain ⟨a, ha⟩ : ∃ a, q.heap[i]? = some a := ⟨_, List.getElem?_eq_getElem hi⟩
  obtain ⟨b, hb⟩ : ∃ b, q.heap[j]? = some b := ⟨_, List.getElem?_eq_getElem hj⟩
  have hswap := swapHeap_eq ha hb
  have hindex : (q.swapHeap i j).heapIndex = Function.update
      (Function.update q.heapIndex b.timer (some i)) a.timer (some j) := by rw [hswap]
  have hentry := getElem?_swapHeap (q := q) hi hj
  have hentryj : (q.swapHeap i j).heap[j]? = some a := by
    rw [hentry, Equiv.swap_apply_right, ha]
  have hentryi : (q.swapHeap i j).heap[i]? = some b := by
    rw [hentry, Equiv.swap_apply_left, hb]
  refine ⟨?_, ⟨fun {k e} hk => ?_, fun {t k} hk => ?_⟩, by rw [hswap], by rw [hswap]⟩
  · rw [hswap]
    obtain ⟨_, rfl⟩ := List.getElem?_eq_some_iff.mp ha
    obtain ⟨_, rfl⟩ := List.getElem?_eq_some_iff.mp hb
    exact List.set_set_perm hi hj
  · rw [hindex]
    by_cases hkj : k = j
    · rw [hkj, hentryj, Option.some.injEq] at hk
      rw [← hk, Function.update_self, hkj]
    · by_cases hki : k = i
      · rw [hki, hentryi, Option.some.injEq] at hk
        have hne : b.timer ≠ a.timer := fun heq =>
          hkj (hki.trans (h.eq_of_timer_eq hb ha heq).symm)
        rw [← hk, Function.update_of_ne hne, Function.update_self, hki]
      · rw [hentry, Equiv.swap_apply_of_ne_of_ne hki hkj] at hk
        have hnea : e.timer ≠ a.timer := fun heq => hki (h.eq_of_timer_eq hk ha heq)
        have hneb : e.timer ≠ b.timer := fun heq => hkj (h.eq_of_timer_eq hk hb heq)
        rw [Function.update_of_ne hnea, Function.update_of_ne hneb]
        exact h.index_eq hk
  · rw [hindex] at hk
    by_cases hta : t = a.timer
    · rw [hta, Function.update_self, Option.some.injEq] at hk
      exact ⟨a, hk ▸ hentryj, hta.symm⟩
    · rw [Function.update_of_ne hta] at hk
      by_cases htb : t = b.timer
      · rw [htb, Function.update_self, Option.some.injEq] at hk
        exact ⟨b, hk ▸ hentryi, htb.symm⟩
      · rw [Function.update_of_ne htb] at hk
        obtain ⟨e, he, rfl⟩ := h.exists_entry hk
        have hki : k ≠ i := by
          rintro rfl
          rw [ha, Option.some.injEq] at he
          exact hta (congrArg HeapEntry.timer he.symm)
        have hkj : k ≠ j := by
          rintro rfl
          rw [hb, Option.some.injEq] at he
          exact htb (congrArg HeapEntry.timer he.symm)
        exact ⟨e, by rw [hentry, Equiv.swap_apply_of_ne_of_ne hki hkj, he], rfl⟩

variable [LinearOrder T]

/-- The way up: an entry that is out of order only with the one above it ends at a place where the
heap is in order. -/
lemma upHeap_spec (h : q.Indexed) {index : ℕ} (hindex : index < q.heap.length)
    (horder : UpOrder (timeAt q.heap) index) :
    Reordered q (q.upHeap index) ∧ IsHeap (timeAt (q.upHeap index).heap) := by
  induction index using Nat.strong_induction_on generalizing q with
  | _ index ih =>
    rw [upHeap]
    by_cases hpos : 0 < index
    · have hparent := HeapOrder.parent_lt hpos
      rw [if_pos hpos]
      by_cases hlt : timeAt q.heap index < timeAt q.heap (parent index)
      · have hswap := reordered_swapHeap h hindex (hparent.trans hindex)
        have hsift := ih (parent index) hparent (q := q.swapHeap index (parent index))
          hswap.indexed (by rw [length_heap_swapHeap]; exact hparent.trans hindex)
          (by rw [timeAt_swapHeap hindex (hparent.trans hindex)]; exact horder.swap hpos hlt)
        exact (if_neg (not_not.mpr hlt)).symm ▸ ⟨hswap.trans hsift.1, hsift.2⟩
      · exact (if_pos hlt).symm ▸ ⟨.refl h, horder.isHeap fun _ => not_lt.mp hlt⟩
    · rw [if_neg hpos]
      exact ⟨.refl h, horder.isHeap fun hpos' => absurd hpos' hpos⟩

omit [DecidableEq τ] [LinearOrder T] in
/-- Behind the end of the heap the times are infinite. -/
lemma timeAt_of_le (heap : List (HeapEntry T τ)) {i : ℕ} (hi : heap.length ≤ i) :
    timeAt heap i = ⊤ := by
  rw [timeAt, List.getElem?_eq_none hi]

omit [DecidableEq τ] in
/-- The child that `down_heap` chooses is an entry below, and no entry below is earlier. -/
lemma minChild_spec (heap : List (HeapEntry T τ)) {index : ℕ}
    (hchild : index * 2 + 1 < heap.length) :
    let child := index * 2 + 1
    let minChild :=
      if child + 1 = heap.length ∨ timeAt heap child < timeAt heap (child + 1) then child
      else child + 1
    minChild < heap.length ∧ index < minChild ∧ parent minChild = index ∧
      ∀ i, 0 < i → parent i = index → timeAt heap minChild ≤ timeAt heap i := by
  intro child minChild
  by_cases hcase : child + 1 = heap.length ∨ timeAt heap child < timeAt heap (child + 1)
  · have heq : minChild = child := if_pos hcase
    rw [heq]
    refine ⟨hchild, by omega, ?_, fun i hi hparent => ?_⟩
    · rw [HeapOrder.parent_eq_iff (Nat.succ_pos _)]
      omega
    · rcases (HeapOrder.parent_eq_iff hi).mp hparent with hi' | hi'
      · rw [show i = child by omega]
      · rw [show i = child + 1 by omega]
        rcases hcase with hend | hlt
        · rw [timeAt_of_le heap hend.ge]
          exact le_top
        · exact hlt.le
  · have heq : minChild = child + 1 := if_neg hcase
    rw [not_or, not_lt] at hcase
    rw [heq]
    refine ⟨by omega, by omega, ?_, fun i hi hparent => ?_⟩
    · rw [HeapOrder.parent_eq_iff (Nat.succ_pos _)]
      omega
    · rcases (HeapOrder.parent_eq_iff hi).mp hparent with hi' | hi'
      · rw [show i = child by omega]
        exact hcase.2
      · rw [show i = child + 1 by omega]

/-- The way down: an entry that is out of order only with those below it ends at a place where the
heap is in order. -/
lemma downHeap_spec (h : q.Indexed) {index : ℕ} (hindex : index < q.heap.length)
    (horder : DownOrder (timeAt q.heap) index) :
    Reordered q (q.downHeap index) ∧ IsHeap (timeAt (q.downHeap index).heap) := by
  induction hn : q.heap.length - index using Nat.strong_induction_on generalizing q index with
  | _ n ih =>
    rw [downHeap]
    by_cases hchild : index * 2 + 1 < q.heap.length
    · obtain ⟨hlength, hlt, hparent, hmin⟩ := minChild_spec q.heap hchild
      simp only [if_pos hchild]
      generalize (if index * 2 + 1 + 1 = q.heap.length ∨
        timeAt q.heap (index * 2 + 1) < timeAt q.heap (index * 2 + 1 + 1) then index * 2 + 1
        else index * 2 + 1 + 1) = minChild at hlength hlt hparent hmin ⊢
      have hpos : 0 < minChild := (Nat.zero_le _).trans_lt hlt
      by_cases hstop : timeAt q.heap index < timeAt q.heap minChild
      · rw [if_pos hstop]
        exact ⟨.refl h, horder.isHeap fun i hi hi' => hstop.le.trans (hmin i hi hi')⟩
      · rw [if_neg hstop]
        have hswap := reordered_swapHeap h hindex hlength
        have horder' := horder.swap hpos hparent hmin (not_lt.mp hstop)
        rw [← timeAt_swapHeap hindex hlength] at horder'
        have hsift := ih (q.heap.length - minChild) (by omega) hswap.indexed
          (by rw [length_heap_swapHeap]; exact hlength) horder'
          (by rw [length_heap_swapHeap])
        exact ⟨hswap.trans hsift.1, hsift.2⟩
    · simp only [if_neg hchild]
      refine ⟨.refl h, horder.isHeap fun i hi hparent => ?_⟩
      have hi' := (HeapOrder.parent_eq_iff hi).mp hparent
      have htop : timeAt q.heap i = ⊤ := timeAt_of_le q.heap (by omega)
      rw [htop]
      exact le_top

end Swap

end TimerQueue

end Asio

end AsioStudy
