import AsioStudy.Asio.TimerQueue

/-!
# What the queue of timers keeps

Every operation of `timer_queue` keeps the invariant `TimerQueue.Inv`, and is described here by what
it does to the set of the entries of the heap, to the list of active timers and to the operations
that wait on them.
-/

namespace AsioStudy

namespace Asio

open HeapOrder (IsHeap UpOrder DownOrder parent)

namespace TimerQueue

variable {T τ ω : Type*} {q q' : TimerQueue T τ ω} {t : τ}

/-- Different entries belong to different timers. -/
lemma Indexed.nodup (h : q.Indexed) : (q.heap.map HeapEntry.timer).Nodup := by
  rw [List.nodup_iff_getElem?_ne_getElem?]
  intro i j hij hj heq
  rw [List.length_map] at hj
  rw [List.getElem?_map, List.getElem?_map, List.getElem?_eq_getElem hj,
    List.getElem?_eq_getElem (hij.trans hj), Option.map_some, Option.map_some,
    Option.some.injEq] at heq
  exact hij.ne (h.eq_of_timer_eq (List.getElem?_eq_getElem _) (List.getElem?_eq_getElem hj) heq)

/-- A timer without an index has no entry. -/
lemma Indexed.timer_ne (h : q.Indexed) (ht : q.heapIndex t = none) {e : HeapEntry T τ}
    (he : e ∈ q.heap) : e.timer ≠ t := by
  rintro rfl
  obtain ⟨i, hi⟩ := List.getElem?_of_mem he
  rw [h.index_eq hi] at ht
  cases ht

section Remove

variable [DecidableEq τ]

/-- The other entries are those of the other timers. -/
lemma Indexed.perm_filter (h : q.Indexed) {e : HeapEntry T τ} {rest : List (HeapEntry T τ)}
    (hperm : q.heap.Perm (e :: rest)) :
    rest.Perm (q.heap.filter fun x => x.timer ≠ e.timer) := by
  have hnodup := (hperm.map HeapEntry.timer).nodup_iff.mp h.nodup
  rw [List.map_cons, List.nodup_cons] at hnodup
  have hrest : rest.filter (fun x => decide (x.timer ≠ e.timer)) = rest := by
    rw [List.filter_eq_self]
    intro x hx
    exact decide_eq_true fun heq => hnodup.1 (heq ▸ List.mem_map_of_mem hx)
  have hfilter := hperm.filter fun x => decide (x.timer ≠ e.timer)
  rw [List.filter_cons, if_neg (by simp), hrest] at hfilter
  exact hfilter.symm

/-- The queue without the last entry of the heap, which belongs to `t`. -/
def popBack (q : TimerQueue T τ ω) (t : τ) : TimerQueue T τ ω :=
  { q with heapIndex := Function.update q.heapIndex t none, heap := q.heap.dropLast }

/-- Removing the last entry keeps the indices. -/
lemma Indexed.popBack (h : q.Indexed) {e : HeapEntry T τ}
    (he : q.heap[q.heap.length - 1]? = some e) : (q.popBack e.timer).Indexed := by
  constructor
  · intro i x hx
    change q.heap.dropLast[i]? = some x at hx
    change Function.update q.heapIndex e.timer none x.timer = some i
    rw [List.getElem?_dropLast] at hx
    split_ifs at hx with hi
    have hne : x.timer ≠ e.timer := fun heq => hi.ne (h.eq_of_timer_eq hx he heq)
    rw [Function.update_of_ne hne]
    exact h.index_eq hx
  · intro t i ht
    change Function.update q.heapIndex e.timer none t = some i at ht
    change ∃ x, q.heap.dropLast[i]? = some x ∧ x.timer = t
    by_cases hte : t = e.timer
    · rw [hte, Function.update_self] at ht
      cases ht
    · rw [Function.update_of_ne hte] at ht
      obtain ⟨x, hx, rfl⟩ := h.exists_entry ht
      have hi : i < q.heap.length := (List.getElem?_eq_some_iff.mp hx).1
      have hlast : i ≠ q.heap.length - 1 := by
        rintro rfl
        rw [he, Option.some.injEq] at hx
        exact hte (congrArg HeapEntry.timer hx.symm)
      refine ⟨x, ?_, rfl⟩
      rw [List.getElem?_dropLast, if_pos (by omega), hx]

/-- The entries that are left, and the removed one. -/
lemma perm_popBack {e : HeapEntry T τ} (he : q.heap[q.heap.length - 1]? = some e) :
    q.heap.Perm (e :: (q.popBack e.timer).heap) := by
  obtain ⟨hlt, hget⟩ := List.getElem?_eq_some_iff.mp he
  have hne : q.heap ≠ [] := List.ne_nil_of_length_pos (by omega)
  have hlast : q.heap.getLast hne = e := by rw [List.getLast_eq_getElem, hget]
  conv_lhs => rw [← List.dropLast_append_getLast hne, hlast]
  exact List.perm_append_singleton _ _

/-- The times of the entries that are left. -/
lemma timeAt_popBack (q : TimerQueue T τ ω) (t : τ) (i : ℕ) :
    timeAt (q.popBack t).heap i = if i < q.heap.length - 1 then timeAt q.heap i else ⊤ := by
  change timeAt q.heap.dropLast i = _
  unfold timeAt
  rw [List.getElem?_dropLast]
  split_ifs
  · rfl
  · rfl

variable [LinearOrder T]

/-- What `remove_timer` does. -/
structure Removed (q q' : TimerQueue T τ ω) (t : τ) : Prop where
  indexed : q'.Indexed
  isHeap : IsHeap (timeAt q'.heap)
  perm : q'.heap.Perm (q.heap.filter fun e => e.timer ≠ t)
  timers_eq : q'.timers = q.timers.erase t
  opQueue_eq : q'.opQueue = q.opQueue

omit [LinearOrder T] in
/-- The time that an arbitrary entry of a heap gets when the last entry is put in its place. -/
lemma timeAt_popBack_swapHeap {i : ℕ} (hi : i < q.heap.length - 1) (k : ℕ) (hk : k ≠ i) :
    timeAt ((q.swapHeap i (q.heap.length - 1)).popBack t).heap k =
      timeAt (q.popBack t).heap k := by
  rw [timeAt_popBack, timeAt_popBack, length_heap_swapHeap,
    timeAt_swapHeap (by omega) (by omega)]
  split_ifs with hlt
  · exact HeapOrder.comp_swap_of_ne hk hlt.ne
  · rfl

/-- The heap without its last entry is in order. -/
lemma isHeap_popBack (h : IsHeap (timeAt q.heap)) (t : τ) :
    IsHeap (timeAt (q.popBack t).heap) := by
  refine h.pop (k := q.heap.length - 1) (fun i hi => ?_) ?_
    fun i hi => timeAt_of_le q.heap (by omega)
  · rw [timeAt_popBack]
    split_ifs with hlt
    · rfl
    · rw [timeAt_of_le q.heap (by omega)]
  · rw [timeAt_popBack, if_neg (lt_irrefl _)]

/-- An arbitrary entry in the place of another one is brought to its correct position. -/
lemma repair_spec (h : q.Indexed) {index : ℕ} (hindex : index < q.heap.length)
    {key : ℕ → WithTop T} (hkey : IsHeap key)
    (hother : ∀ k, k ≠ index → timeAt q.heap k = key k) :
    Reordered q (if 0 < index ∧ timeAt q.heap index < timeAt q.heap ((index - 1) / 2)
        then q.upHeap index else q.downHeap index) ∧
      IsHeap (timeAt (if 0 < index ∧ timeAt q.heap index < timeAt q.heap ((index - 1) / 2)
        then q.upHeap index else q.downHeap index).heap) := by
  obtain ⟨hup, hdown⟩ := hkey.repair hother
  split_ifs with hcase
  · exact upHeap_spec h hindex (hup hcase)
  · exact downHeap_spec h hindex (hdown hcase)

/-- `remove_timer` removes the timer from the heap, wherever its entry is, and from the list. -/
lemma removeTimer_spec (h : q.Indexed) (hheap : IsHeap (timeAt q.heap)) (t : τ) :
    Removed q (q.removeTimer t) t := by
  unfold removeTimer
  rcases hindex : q.heapIndex t with _ | index
  · have hfilter : q.heap.filter (fun e => decide (e.timer ≠ t)) = q.heap := by
      rw [List.filter_eq_self]
      exact fun e he => decide_eq_true (h.timer_ne hindex he)
    exact ⟨⟨h.index_eq, h.exists_entry⟩, hheap, by rw [hfilter], rfl, rfl⟩
  · obtain ⟨e, he, rfl⟩ := h.exists_entry hindex
    have hlt : index < q.heap.length := (List.getElem?_eq_some_iff.mp he).1
    simp only [if_pos hlt]
    by_cases hlast : index = q.heap.length - 1
    · -- the last entry is removed as it is
      rw [if_pos hlast]
      rw [hlast] at he
      have hpop := h.popBack he
      exact ⟨⟨hpop.index_eq, hpop.exists_entry⟩, isHeap_popBack hheap e.timer,
        h.perm_filter (perm_popBack he), rfl, rfl⟩
    · -- the last entry is put in the place of the removed one
      rw [if_neg hlast]
      have hswap := reordered_swapHeap h hlt (j := q.heap.length - 1) (by omega)
      have he' : (q.swapHeap index (q.heap.length - 1)).heap[
          (q.swapHeap index (q.heap.length - 1)).heap.length - 1]? = some e := by
        rw [length_heap_swapHeap, getElem?_swapHeap hlt (by omega), Equiv.swap_apply_right, he]
      have hlt' : index < ((q.swapHeap index (q.heap.length - 1)).popBack e.timer).heap.length := by
        change index < (q.swapHeap index (q.heap.length - 1)).heap.dropLast.length
        rw [List.length_dropLast, length_heap_swapHeap]
        omega
      obtain ⟨hreordered, hsorted⟩ := repair_spec (hswap.indexed.popBack he') hlt'
        (isHeap_popBack hheap e.timer)
        (fun k hk => timeAt_popBack_swapHeap (by omega) k hk)
      have hperm := h.perm_filter
        (hswap.perm.symm.trans ((perm_popBack he').trans (hreordered.perm.symm.cons e)))
      exact ⟨⟨hreordered.indexed.index_eq, hreordered.indexed.exists_entry⟩, hsorted, hperm,
        congrArg (List.erase · e.timer) (hreordered.timers_eq.trans hswap.timers_eq),
        hreordered.opQueue_eq.trans hswap.opQueue_eq⟩

end Remove

/-! ## The invariant -/

/-- The heap is ordered, its entries are those of active timers, and the active timers are those on
which operations wait. -/
structure Inv [LinearOrder T] (q : TimerQueue T τ ω) : Prop where
  indexed : q.Indexed
  isHeap : IsHeap (timeAt q.heap)
  nodup : q.timers.Nodup
  mem_iff : ∀ t, t ∈ q.timers ↔ q.opQueue t ≠ []
  active : ∀ e ∈ q.heap, e.timer ∈ q.timers

/-- All operations that wait. -/
def pending (q : TimerQueue T τ ω) : List ω := q.timers.flatMap q.opQueue

section Keep

variable [LinearOrder T]

/-- A queue without timers. -/
lemma inv_empty : (TimerQueue.empty : TimerQueue T τ ω).Inv where
  indexed := ⟨fun h => by simp [TimerQueue.empty] at h, fun h => by simp [TimerQueue.empty] at h⟩
  isHeap i _ := le_rfl
  nodup := List.nodup_nil
  mem_iff t := by simp [TimerQueue.empty]
  active e he := by simp [TimerQueue.empty] at he

/-- A timer on which no operation waits has no entry. -/
lemma Inv.heapIndex_eq_none (h : q.Inv) (ht : t ∉ q.timers) : q.heapIndex t = none := by
  rcases hindex : q.heapIndex t with _ | i
  · rfl
  · obtain ⟨e, he, rfl⟩ := h.indexed.exists_entry hindex
    exact absurd (h.active e (List.mem_of_getElem? he)) ht

variable [DecidableEq τ]

/-- The queue when some operations of a timer are dequeued: the timer is removed if none are left. -/
def dequeue (q : TimerQueue T τ ω) (t : τ) (rest : List ω) : TimerQueue T τ ω :=
  let q' : TimerQueue T τ ω := { q with opQueue := Function.update q.opQueue t rest }
  if rest = [] then q'.removeTimer t else q'

/-- What dequeuing operations of a timer does. -/
structure Dequeued (q q' : TimerQueue T τ ω) (t : τ) (rest : List ω) : Prop where
  inv : q'.Inv
  opQueue_eq : q'.opQueue = Function.update q.opQueue t rest
  timers_eq : q'.timers = if rest = [] then q.timers.erase t else q.timers
  perm : q'.heap.Perm (if rest = [] then q.heap.filter fun e => e.timer ≠ t else q.heap)

/-- Operations are dequeued from an active timer. -/
lemma Inv.dequeue (h : q.Inv) (t : τ) {rest : List ω} (hrest : rest ≠ [] → t ∈ q.timers) :
    Dequeued q (q.dequeue t rest) t rest := by
  unfold TimerQueue.dequeue
  split_ifs with hnil
  · obtain ⟨hindexed, hheap, hperm, htimers, hopQueue⟩ := removeTimer_spec
      (q := { q with opQueue := Function.update q.opQueue t rest })
      ⟨h.indexed.index_eq, h.indexed.exists_entry⟩ h.isHeap t
    refine ⟨⟨hindexed, hheap, ?_, fun s => ?_, fun e he => ?_⟩, hopQueue, ?_, ?_⟩
    · rw [htimers]
      exact h.nodup.erase t
    · rw [htimers, hopQueue, h.nodup.mem_erase_iff]
      by_cases hst : s = t
      · simp [hst, hnil]
      · simp only [ne_eq, hst, not_false_eq_true, true_and, Function.update_of_ne hst]
        exact h.mem_iff s
    · have he' := (hperm.mem_iff).mp he
      rw [List.mem_filter, decide_eq_true_iff] at he'
      rw [htimers, h.nodup.mem_erase_iff]
      exact ⟨he'.2, h.active e he'.1⟩
    · rw [htimers, if_pos hnil]
    · rw [if_pos hnil]
      exact hperm
  · refine ⟨⟨⟨h.indexed.index_eq, h.indexed.exists_entry⟩, h.isHeap, h.nodup, fun s => ?_,
      h.active⟩, rfl, by rw [if_neg hnil], by rw [if_neg hnil]⟩
    by_cases hst : s = t
    · simp [hst, hnil, hrest hnil]
    · simp only [Function.update_of_ne hst]
      exact h.mem_iff s

/-- All operations of a timer are dequeued. -/
lemma Inv.dequeue_all (h : q.Inv) (t : τ) : Dequeued q (q.dequeue t []) t [] :=
  h.dequeue t fun hne => absurd rfl hne

omit [DecidableEq τ] in
/-- No operation waits on a timer that is not active. -/
lemma Inv.opQueue_eq_nil (h : q.Inv) (ht : t ∉ q.timers) : q.opQueue t = [] := by
  by_contra hne
  exact ht ((h.mem_iff t).mpr hne)

/-- An inactive timer has nothing to dequeue. -/
lemma Inv.dequeue_of_notMem (h : q.Inv) (ht : t ∉ q.timers) : Dequeued q q t [] := by
  refine ⟨h, ?_, ?_, ?_⟩
  · rw [← h.opQueue_eq_nil ht, Function.update_eq_self]
  · rw [if_pos rfl, List.erase_of_not_mem ht]
  · rw [if_pos rfl, List.filter_eq_self.mpr]
    exact fun e he => decide_eq_true fun heq => ht (heq ▸ h.active e he)

/-- The operations of the other timers are still those of the other timers. -/
lemma flatMap_update_of_notMem {timers : List τ} (ht : t ∉ timers) (opQueue : τ → List ω)
    (ops : List ω) :
    timers.flatMap (Function.update opQueue t ops) = timers.flatMap opQueue := by
  rw [List.flatMap, List.flatMap, List.map_congr_left]
  intro s hs
  rw [Function.update_of_ne]
  rintro rfl
  exact ht hs

/-- All operations that wait are those of one timer and those of the others. -/
lemma Inv.pending_perm (h : q.Inv) (t : τ) :
    q.pending.Perm (q.opQueue t ++ (q.timers.erase t).flatMap q.opQueue) := by
  by_cases ht : t ∈ q.timers
  · exact (List.perm_cons_erase ht).flatMap_right q.opQueue
  · rw [h.opQueue_eq_nil ht, List.erase_of_not_mem ht, List.nil_append]
    exact List.Perm.refl _

/-- Dequeued operations do not wait any more, and the others do. -/
lemma Dequeued.pending_perm (h : q.Inv) {rest taken : List ω} (hq : Dequeued q q' t rest)
    (htaken : (taken ++ rest).Perm (q.opQueue t)) :
    (taken ++ q'.pending).Perm q.pending := by
  have hothers : (q'.timers.erase t).flatMap q'.opQueue = (q.timers.erase t).flatMap q.opQueue := by
    have hnotMem : t ∉ q.timers.erase t := h.nodup.not_mem_erase
    rw [hq.opQueue_eq, hq.timers_eq]
    split_ifs
    · rw [List.erase_of_not_mem hnotMem, flatMap_update_of_notMem hnotMem]
    · rw [flatMap_update_of_notMem hnotMem]
  have hrest : q'.opQueue t = rest := by rw [hq.opQueue_eq, Function.update_self]
  have hq' := hq.inv.pending_perm t
  rw [hothers, hrest] at hq'
  calc (taken ++ q'.pending).Perm (taken ++ (rest ++ (q.timers.erase t).flatMap q.opQueue)) :=
        hq'.append_left taken
    _ = ((taken ++ rest) ++ (q.timers.erase t).flatMap q.opQueue) := (List.append_assoc _ _ _).symm
    List.Perm _ (q.opQueue t ++ (q.timers.erase t).flatMap q.opQueue) := htaken.append_right _
    List.Perm _ q.pending := (h.pending_perm t).symm

/-- `cancel_timer` dequeues the first operations of the timer. -/
lemma Inv.cancelTimer (h : q.Inv) (t : τ) (maxCancelled : Option ℕ) :
    let n := maxCancelled.getD (q.opQueue t).length
    (q.cancelTimer t maxCancelled).2 = (q.opQueue t).take n ∧
      Dequeued q (q.cancelTimer t maxCancelled).1 t ((q.opQueue t).drop n) := by
  intro n
  unfold TimerQueue.cancelTimer
  by_cases ht : t ∈ q.timers
  · rw [if_pos ht]
    exact ⟨rfl, h.dequeue t fun _ => ht⟩
  · rw [if_neg ht]
    have hnil := h.opQueue_eq_nil ht
    rw [hnil, List.take_nil, List.drop_nil]
    exact ⟨rfl, h.dequeue_of_notMem ht⟩

/-- `cancel_timer_by_key` dequeues the operations of the timer with the key. -/
lemma Inv.cancelTimerByKey (h : q.Inv) (t : τ) (hasKey : ω → Bool) :
    (q.cancelTimerByKey t hasKey).2 = (q.opQueue t).filter hasKey ∧
      Dequeued q (q.cancelTimerByKey t hasKey).1 t
        ((q.opQueue t).filter fun op => !hasKey op) := by
  unfold TimerQueue.cancelTimerByKey
  by_cases ht : t ∈ q.timers
  · rw [if_pos ht]
    exact ⟨rfl, h.dequeue t fun _ => ht⟩
  · rw [if_neg ht]
    have hnil := h.opQueue_eq_nil ht
    rw [hnil, List.filter_nil, List.filter_nil]
    exact ⟨rfl, h.dequeue_of_notMem ht⟩

/-! ## Timers that have expired -/

omit [DecidableEq τ] in
/-- The first entry of the heap is a smallest one. -/
lemma Inv.head_le (h : q.Inv) {e : HeapEntry T τ} (he : q.heap.head? = some e)
    {x : HeapEntry T τ} (hx : x ∈ q.heap) : e.time ≤ x.time := by
  obtain ⟨i, hi⟩ := List.getElem?_of_mem hx
  have hle := h.isHeap.zero_le i
  rw [List.head?_eq_getElem?] at he
  rw [timeAt, timeAt, he, hi] at hle
  exact WithTop.coe_le_coe.mp hle

/-- What `get_ready_timers` has done: the operations of the entries `es`, which are in the order of
their times, are dequeued. -/
structure Expired (q q' : TimerQueue T τ ω) (now : T) (ops : List ω) (es : List (HeapEntry T τ)) :
    Prop where
  inv : q'.Inv
  perm : q.heap.Perm (es ++ q'.heap)
  le_now : ∀ e ∈ es, e.time ≤ now
  sorted : es.Pairwise fun a b => a.time ≤ b.time
  ops_eq : ops = es.flatMap fun e => q.opQueue e.timer
  opQueue_eq : ∀ t, q'.opQueue t = if t ∈ es.map HeapEntry.timer then [] else q.opQueue t
  pending_perm : (ops ++ q'.pending).Perm q.pending

/-- The heap is its first entry and what is left when its timer is removed. -/
lemma Inv.perm_dequeue_head (h : q.Inv) {e : HeapEntry T τ} (he : e ∈ q.heap) :
    q.heap.Perm (e :: (q.dequeue e.timer []).heap) := by
  have hperm := (h.dequeue_all e.timer).perm
  rw [if_pos rfl] at hperm
  have hothers := h.indexed.perm_filter (List.perm_cons_erase he)
  exact (List.perm_cons_erase he).trans ((hothers.trans hperm.symm).cons e)

/-- One round of `get_ready_timers` before the others. -/
lemma Expired.cons (h : q.Inv) {now : T} {e : HeapEntry T τ} (he : q.heap.head? = some e)
    (hnow : e.time ≤ now) {ops : List ω} {es : List (HeapEntry T τ)}
    (hrest : Expired (q.dequeue e.timer []) q' now ops es) :
    Expired q q' now (q.opQueue e.timer ++ ops) (e :: es) := by
  have hmem : e ∈ q.heap := List.mem_of_head? he
  have hperm := h.perm_dequeue_head hmem
  have hdequeued := h.dequeue_all e.timer
  have hes : ∀ x ∈ es, x ∈ (q.dequeue e.timer []).heap := fun x hx =>
    hrest.perm.mem_iff.mpr (List.mem_append_left _ hx)
  have hother : ∀ x ∈ (q.dequeue e.timer []).heap, x ∈ q.heap ∧ x.timer ≠ e.timer := by
    intro x hx
    have hx' := hdequeued.perm.mem_iff.mp hx
    rw [if_pos rfl, List.mem_filter, decide_eq_true_iff] at hx'
    exact hx'
  have hopQueue : ∀ t, t ≠ e.timer → (q.dequeue e.timer []).opQueue t = q.opQueue t := by
    intro t ht
    rw [hdequeued.opQueue_eq, Function.update_of_ne ht]
  refine ⟨hrest.inv, hperm.trans (hrest.perm.cons e), ?_, ?_, ?_, fun t => ?_, ?_⟩
  · exact List.forall_mem_cons.mpr ⟨hnow, hrest.le_now⟩
  · exact List.pairwise_cons.mpr
      ⟨fun x hx => h.head_le he (hother x (hes x hx)).1, hrest.sorted⟩
  · rw [List.flatMap_cons, hrest.ops_eq]
    refine congrArg (q.opQueue e.timer ++ ·) ?_
    rw [List.flatMap, List.flatMap, List.map_congr_left]
    exact fun x hx => hopQueue _ (hother x (hes x hx)).2
  · rw [hrest.opQueue_eq, List.map_cons]
    by_cases ht : t = e.timer
    · rw [if_pos (List.mem_cons.mpr (Or.inl ht)), ht, hdequeued.opQueue_eq,
        Function.update_self, ite_self]
    · rw [hopQueue t ht]
      simp only [List.mem_cons, ht, false_or]
  · rw [List.append_assoc]
    refine (hrest.pending_perm.append_left _).trans (hdequeued.pending_perm h ?_)
    rw [List.append_nil]

/-- The loop of `get_ready_timers` dequeues the operations of expired timers, in the order of their
times, and goes on until none is left if it may be repeated as often as there are entries. -/
lemma Inv.getReadyLoop (h : q.Inv) (now : T) (n : ℕ) :
    (∃ es, Expired q (getReadyLoop now n q).1 now (getReadyLoop now n q).2 es) ∧
      (q.heap.length ≤ n → ∀ e ∈ (TimerQueue.getReadyLoop now n q).1.heap, now < e.time) := by
  have hstop : ∀ {q : TimerQueue T τ ω}, q.Inv → ∃ es, Expired q q now ([] : List ω) es :=
    fun h => ⟨[], h, List.Perm.refl _, by simp, List.Pairwise.nil, rfl, by simp, List.Perm.refl _⟩
  induction n generalizing q with
  | zero =>
    refine ⟨hstop h, fun hle e he => ?_⟩
    rw [Nat.le_zero, List.length_eq_zero_iff] at hle
    rw [TimerQueue.getReadyLoop, hle] at he
    cases he
  | succ n ih =>
    rw [TimerQueue.getReadyLoop]
    rcases hhead : q.heap.head? with _ | e
    · refine ⟨hstop h, fun _ e he => ?_⟩
      rw [List.head?_eq_none_iff] at hhead
      rw [hhead] at he
      cases he
    · by_cases hlt : now < e.time
      · simp only [if_pos hlt]
        exact ⟨hstop h, fun _ x hx => hlt.trans_le (h.head_le hhead hx)⟩
      · simp only [if_neg hlt]
        have hdequeued := h.dequeue_all e.timer
        obtain ⟨⟨es, hes⟩, hdone⟩ := ih hdequeued.inv
        refine ⟨⟨e :: es, Expired.cons h hhead (not_lt.mp hlt) hes⟩, fun hle => hdone ?_⟩
        have hlength := (h.perm_dequeue_head (List.mem_of_head? hhead)).length_eq
        rw [List.length_cons] at hlength
        omega

/-- `get_ready_timers` dequeues all operations of all expired timers, in the order of their times.
-/
lemma Inv.getReadyTimers (h : q.Inv) (now : T) :
    (∃ es, Expired q (q.getReadyTimers now).1 now (q.getReadyTimers now).2 es) ∧
      ∀ e ∈ (q.getReadyTimers now).1.heap, now < e.time := by
  obtain ⟨hexpired, hdone⟩ := h.getReadyLoop now q.heap.length
  exact ⟨hexpired, hdone le_rfl⟩

/-! ## Moving and shutting down -/

/-- A timer takes the place of another one. -/
def replaceTimer (target source t : τ) : τ := if t = source then target else t

/-- The entry of a timer becomes the entry of another one. -/
def HeapEntry.move (target source : τ) (e : HeapEntry T τ) : HeapEntry T τ :=
  { e with timer := replaceTimer target source e.timer }

omit [LinearOrder T] in
/-- `move_timer` changes the one entry of the source, if there is one. -/
lemma Indexed.heap_moveTimer (h : q.Indexed) (target source : τ) :
    (q.moveTimer target source).heap = q.heap.map (HeapEntry.move target source) := by
  unfold TimerQueue.moveTimer
  simp only
  rcases hindex : q.heapIndex source with _ | index
  · have hid : ∀ e ∈ q.heap, HeapEntry.move target source e = e := by
      intro e he
      rw [HeapEntry.move, replaceTimer, if_neg (h.timer_ne hindex he)]
    rw [List.map_congr_left hid, List.map_id']
  · obtain ⟨e, he, hsource⟩ := h.exists_entry hindex
    apply List.ext_getElem?
    intro i
    rw [List.getElem?_modify, List.getElem?_map]
    rcases hx : q.heap[i]? with _ | x
    · rfl
    · refine congrArg some ?_
      change (if index = i then { x with timer := target } else x) = HeapEntry.move target source x
      by_cases hi : index = i
      · subst hi
        rw [he, Option.some.injEq] at hx
        rw [if_pos rfl, ← hx, HeapEntry.move, replaceTimer, if_pos hsource]
      · have hne : x.timer ≠ source := fun heq =>
          hi (h.eq_of_timer_eq he hx (hsource.trans heq.symm))
        rw [if_neg hi, HeapEntry.move, replaceTimer, if_neg hne]

/-- The timers that are active when the source has been replaced by the target. -/
lemma mem_map_replaceTimer {timers : List τ} {target source : τ} (htarget : target ∉ timers)
    (t : τ) : t ∈ timers.map (replaceTimer target source) ↔
      (t = target ∧ source ∈ timers) ∨ (t ≠ target ∧ t ≠ source ∧ t ∈ timers) := by
  simp only [List.mem_map, replaceTimer]
  constructor
  · rintro ⟨s, hs, rfl⟩
    split_ifs with hsource
    · exact Or.inl ⟨rfl, hsource ▸ hs⟩
    · exact Or.inr ⟨fun heq => htarget (heq ▸ hs), hsource, hs⟩
  · rintro (⟨rfl, hs⟩ | ⟨-, hsource, ht⟩)
    · exact ⟨source, hs, if_pos rfl⟩
    · exact ⟨t, ht, if_neg hsource⟩

omit [LinearOrder T] in
/-- The timers remember their indices when the source is replaced by a target that has no entry. -/
lemma Indexed.moveTimer (h : q.Indexed) {target source : τ}
    (htarget : ∀ e ∈ q.heap, e.timer ≠ target) (hne : target ≠ source) :
    (q.moveTimer target source).Indexed := by
  have hheap := h.heap_moveTimer target source
  have hindex : (q.moveTimer target source).heapIndex =
      Function.update (Function.update q.heapIndex target (q.heapIndex source)) source none := rfl
  refine ⟨fun {i e} he => ?_, fun {t i} ht => ?_⟩
  · rw [hheap, List.getElem?_map, Option.map_eq_some_iff] at he
    obtain ⟨x, hx, rfl⟩ := he
    have hxi := h.index_eq hx
    rw [hindex, HeapEntry.move, replaceTimer]
    split_ifs with hsource
    · rw [Function.update_of_ne hne, Function.update_self, ← hsource, hxi]
    · rw [Function.update_of_ne hsource,
        Function.update_of_ne (htarget x (List.mem_of_getElem? hx)), hxi]
  · have hentry : ∃ x, q.heap[i]? = some x ∧ replaceTimer target source x.timer = t := by
      rw [hindex] at ht
      by_cases hsource : t = source
      · rw [hsource, Function.update_self] at ht
        cases ht
      · rw [Function.update_of_ne hsource] at ht
        by_cases htt : t = target
        · rw [htt, Function.update_self] at ht
          obtain ⟨x, hx, hxs⟩ := h.exists_entry ht
          exact ⟨x, hx, by rw [replaceTimer, if_pos hxs, htt]⟩
        · rw [Function.update_of_ne htt] at ht
          obtain ⟨x, hx, rfl⟩ := h.exists_entry ht
          exact ⟨x, hx, by rw [replaceTimer, if_neg hsource]⟩
    obtain ⟨x, hx, rfl⟩ := hentry
    rw [hheap, List.getElem?_map, hx]
    exact ⟨_, rfl, rfl⟩

/-- What `move_timer` does. -/
structure Moved (q q' : TimerQueue T τ ω) (target source : τ) : Prop where
  inv : q'.Inv
  opQueue_eq : q'.opQueue =
    Function.update (Function.update q.opQueue target (q.opQueue source)) source []
  timers_eq : q'.timers = q.timers.map (replaceTimer target source)
  heap_eq : q'.heap = q.heap.map (HeapEntry.move target source)

/-- `move_timer` moves the operations of the source and its time to an inactive target. -/
lemma Inv.moveTimer (h : q.Inv) {target source : τ} (htarget : target ∉ q.timers)
    (hne : target ≠ source) : Moved q (q.moveTimer target source) target source := by
  have hheap := h.indexed.heap_moveTimer target source
  have hindexed : (q.moveTimer target source).Indexed :=
    h.indexed.moveTimer (fun e he heq => htarget (heq ▸ h.active e he)) hne
  have hopQueue : (q.moveTimer target source).opQueue =
      Function.update (Function.update q.opQueue target (q.opQueue source)) source [] := by
    unfold TimerQueue.moveTimer
    rw [h.opQueue_eq_nil htarget, List.nil_append]
  have htimers : (q.moveTimer target source).timers = q.timers.map (replaceTimer target source) :=
    rfl
  refine ⟨⟨hindexed, ?_, ?_, fun t => ?_, fun e he => ?_⟩, hopQueue, rfl, hheap⟩
  · have htimes : timeAt (q.moveTimer target source).heap = timeAt q.heap := by
      funext i
      rw [timeAt, timeAt, hheap, List.getElem?_map]
      rcases q.heap[i]? with _ | x
      · rfl
      · rfl
    rw [htimes]
    exact h.isHeap
  · rw [htimers]
    refine h.nodup.map_on fun s hs t ht heq => ?_
    unfold replaceTimer at heq
    split_ifs at heq with h₁ h₂ h₂
    · rw [h₁, h₂]
    · exact absurd (heq ▸ ht) htarget
    · exact absurd (heq ▸ hs) htarget
    · exact heq
  · rw [htimers, mem_map_replaceTimer htarget, hopQueue]
    by_cases hsource : t = source
    · simp [hsource, hne.symm]
    · by_cases htt : t = target
      · simp [htt, hne, h.mem_iff source]
      · simp [hsource, htt, h.mem_iff t]
  · rw [hheap] at he
    obtain ⟨x, hx, rfl⟩ := List.mem_map.mp he
    rw [htimers]
    exact List.mem_map_of_mem (h.active x hx)

/-- The operations of a timer that was moved still wait. -/
lemma Moved.pending_eq {target source : τ} (htarget : target ∉ q.timers)
    (hq : Moved q q' target source) : q'.pending = q.pending := by
  rw [pending, pending, hq.timers_eq, List.flatMap_map, List.flatMap, List.flatMap,
    List.map_congr_left]
  intro t ht
  have htt : t ≠ target := by
    rintro rfl
    exact htarget ht
  rw [hq.opQueue_eq, replaceTimer]
  split_ifs with hsource
  · have hts : target ≠ source := fun heq => htt (hsource.trans heq.symm)
    rw [Function.update_of_ne hts, Function.update_self, hsource]
  · rw [Function.update_of_ne hsource, Function.update_of_ne htt]

/-- The queue after `get_all_timers`: nothing is left but the indices that some timers still have.
-/
structure Cleared (q : TimerQueue T τ ω) : Prop where
  timers_eq : q.timers = []
  heap_eq : q.heap = []
  opQueue_eq : ∀ t, q.opQueue t = []

/-- `get_all_timers` dequeues all operations. -/
lemma Inv.getAllTimers (h : q.Inv) :
    q.getAllTimers.1.Cleared ∧ q.getAllTimers.2 = q.timers.flatMap q.opQueue := by
  refine ⟨⟨rfl, rfl, fun t => ?_⟩, rfl⟩
  change (if t ∈ q.timers then [] else q.opQueue t) = []
  split_ifs with ht
  · rfl
  · exact h.opQueue_eq_nil ht

/-- Nothing can be cancelled any more. -/
lemma Cleared.cancelTimer (h : q.Cleared) (t : τ) (maxCancelled : Option ℕ) :
    q.cancelTimer t maxCancelled = (q, []) := by
  rw [TimerQueue.cancelTimer, if_neg (by rw [h.timers_eq]; exact List.not_mem_nil)]

/-- Nothing can be cancelled by its key any more. -/
lemma Cleared.cancelTimerByKey (h : q.Cleared) (t : τ) (hasKey : ω → Bool) :
    q.cancelTimerByKey t hasKey = (q, []) := by
  rw [TimerQueue.cancelTimerByKey, if_neg (by rw [h.timers_eq]; exact List.not_mem_nil)]

/-- Nothing expires any more. -/
lemma Cleared.getReadyTimers (h : q.Cleared) (now : T) : q.getReadyTimers now = (q, []) := by
  rw [TimerQueue.getReadyTimers, h.heap_eq]
  rfl

omit [LinearOrder T] in
/-- Timers without operations can be moved. -/
lemma Cleared.moveTimer (h : q.Cleared) (target source : τ) :
    (q.moveTimer target source).Cleared where
  timers_eq := by
    change q.timers.map _ = []
    rw [h.timers_eq]
    rfl
  heap_eq := by
    unfold TimerQueue.moveTimer
    simp only [h.heap_eq]
    rcases q.heapIndex source with _ | index
    · rfl
    · exact List.modify_nil _ _
  opQueue_eq t := by
    change Function.update (Function.update q.opQueue target
      (q.opQueue target ++ q.opQueue source)) source [] t = []
    simp only [Function.update_apply, h.opQueue_eq, List.append_nil, ite_self]

omit [LinearOrder T] in
/-- Nothing is left to be dequeued. -/
lemma Cleared.getAllTimers (h : q.Cleared) :
    q.getAllTimers.1.Cleared ∧ q.getAllTimers.2 = [] := by
  refine ⟨⟨rfl, rfl, fun t => ?_⟩, ?_⟩
  · change (if t ∈ q.timers then [] else q.opQueue t) = []
    rw [h.opQueue_eq, ite_self]
  · change q.timers.flatMap q.opQueue = []
    rw [h.timers_eq]
    rfl

/-! ## New operations -/

omit [LinearOrder T] in
/-- A new entry at the end of the heap keeps the indices. -/
lemma Indexed.push (h : q.Indexed) {e : HeapEntry T τ} (he : q.heapIndex e.timer = none) :
    Indexed { q with
      heapIndex := Function.update q.heapIndex e.timer (some q.heap.length)
      heap := q.heap ++ [e] } := by
  constructor
  · intro i x hx
    change (q.heap ++ [e])[i]? = some x at hx
    change Function.update q.heapIndex e.timer (some q.heap.length) x.timer = some i
    rcases lt_or_ge i q.heap.length with hi | hi
    · rw [List.getElem?_append_left hi] at hx
      rw [Function.update_of_ne (h.timer_ne he (List.mem_of_getElem? hx))]
      exact h.index_eq hx
    · rw [List.getElem?_append_right hi, List.getElem?_singleton] at hx
      split_ifs at hx with hzero
      rw [← Option.some.inj hx, Function.update_self, Option.some.injEq]
      omega
  · intro t i ht
    change Function.update q.heapIndex e.timer (some q.heap.length) t = some i at ht
    change ∃ x, (q.heap ++ [e])[i]? = some x ∧ x.timer = t
    by_cases hte : t = e.timer
    · rw [hte, Function.update_self, Option.some.injEq] at ht
      rw [← ht, List.getElem?_concat_length]
      exact ⟨e, rfl, hte.symm⟩
    · rw [Function.update_of_ne hte] at ht
      obtain ⟨x, hx, rfl⟩ := h.exists_entry ht
      have hi : i < q.heap.length := (List.getElem?_eq_some_iff.mp hx).1
      exact ⟨x, by rw [List.getElem?_append_left hi, hx], rfl⟩

/-- The entries of the heap when a timer with a time becomes active. -/
def entries (heap : List (HeapEntry T τ)) (time : WithTop T) (t : τ) : List (HeapEntry T τ) :=
  match time with
  | none => heap
  | some d => ⟨d, t⟩ :: heap

/-- The timer becomes active, as far as the heap is concerned. -/
def activate (q : TimerQueue T τ ω) (time : WithTop T) (t : τ) : TimerQueue T τ ω :=
  match time with
  | none => { q with heapIndex := Function.update q.heapIndex t none }
  | some d =>
    upHeap { q with
      heapIndex := Function.update q.heapIndex t (some q.heap.length)
      heap := q.heap ++ [⟨d, t⟩] } q.heap.length

/-- The entry of a timer that becomes active is put into its place in the heap. -/
lemma Inv.activate (h : q.Inv) (time : WithTop T) (ht : t ∉ q.timers) :
    (q.activate time t).Indexed ∧ IsHeap (timeAt (q.activate time t).heap) ∧
      (q.activate time t).heap.Perm (entries q.heap time t) ∧
      (q.activate time t).timers = q.timers ∧ (q.activate time t).opQueue = q.opQueue := by
  have hindex := h.heapIndex_eq_none ht
  rcases time with _ | d
  · have hq : q.activate none t = q := by
      rw [TimerQueue.activate, ← hindex, Function.update_eq_self]
    exact hq.symm ▸ ⟨h.indexed, h.isHeap, List.Perm.refl _, rfl, rfl⟩
  · have hpush := h.indexed.push (e := ⟨d, t⟩) hindex
    have horder : UpOrder (timeAt (q.heap ++ [⟨d, t⟩])) q.heap.length := by
      refine h.isHeap.push (fun i hi => ?_) fun i hi => timeAt_of_le q.heap hi
      unfold timeAt
      rcases lt_or_gt_of_ne hi with hlt | hgt
      · rw [List.getElem?_append_left hlt]
      · rw [List.getElem?_eq_none hgt.le, List.getElem?_eq_none]
        rw [List.length_append, List.length_singleton]
        exact hgt
    obtain ⟨hreordered, hheap⟩ := upHeap_spec hpush
      (show q.heap.length < (q.heap ++ [(⟨d, t⟩ : HeapEntry T τ)]).length by
        rw [List.length_append, List.length_singleton]
        exact Nat.lt_succ_self _) horder
    exact ⟨hreordered.indexed, hheap, hreordered.perm.trans (List.perm_append_singleton _ _),
      hreordered.timers_eq, hreordered.opQueue_eq⟩

/-- What `enqueue_timer` does. -/
structure Enqueued (q q' : TimerQueue T τ ω) (time : WithTop T) (t : τ) (op : ω) : Prop where
  inv : q'.Inv
  opQueue_eq : q'.opQueue = Function.update q.opQueue t (q.opQueue t ++ [op])
  timers_eq : q'.timers = if t ∈ q.timers then q.timers else t :: q.timers
  perm : q'.heap.Perm (if t ∈ q.timers then q.heap else entries q.heap time t)

/-- `enqueue_timer` adds the operation, and the timer with its time if it is not active. -/
lemma Inv.enqueueTimer (h : q.Inv) (time : WithTop T) (t : τ) (op : ω) :
    Enqueued q (q.enqueueTimer time t op).1 time t op := by
  unfold TimerQueue.enqueueTimer
  by_cases ht : t ∈ q.timers
  · simp only [ht, not_true_eq_false, if_false]
    refine ⟨⟨⟨h.indexed.index_eq, h.indexed.exists_entry⟩, h.isHeap, h.nodup, fun s => ?_,
      h.active⟩, rfl, by rw [if_pos ht], by rw [if_pos ht]⟩
    by_cases hst : s = t
    · simp [hst, ht]
    · simp only [Function.update_of_ne hst]
      exact h.mem_iff s
  · simp only [ht, not_false_eq_true, if_true]
    obtain ⟨hindexed, hheap, hperm, htimers, hopQueue⟩ := h.activate time ht
    change Enqueued q { q.activate time t with
      timers := t :: (q.activate time t).timers
      opQueue := Function.update (q.activate time t).opQueue t
        ((q.activate time t).opQueue t ++ [op]) } time t op
    rw [htimers, hopQueue]
    refine ⟨⟨⟨hindexed.index_eq, hindexed.exists_entry⟩, hheap, ?_, fun s => ?_, fun e he => ?_⟩,
      rfl, by rw [if_neg ht], by rw [if_neg ht]; exact hperm⟩
    · exact List.nodup_cons.mpr ⟨ht, h.nodup⟩
    · by_cases hst : s = t
      · simp [hst]
      · simp only [List.mem_cons, hst, false_or, Function.update_of_ne hst]
        exact h.mem_iff s
    · have he' := hperm.mem_iff.mp he
      rcases time with _ | d
      · exact List.mem_cons_of_mem _ (h.active e he')
      · rcases List.mem_cons.mp he' with rfl | he''
        · exact List.mem_cons_self
        · exact List.mem_cons_of_mem _ (h.active e he'')

/-- The result of `enqueue_timer` for a timer that was not active. -/
lemma Inv.enqueueTimer_snd (h : q.Inv) (ht : t ∉ q.timers) (time : WithTop T) (op : ω) :
    (q.enqueueTimer time t op).2 =
      decide ((q.enqueueTimer time t op).1.heapIndex t = some 0) := by
  have hresult : (q.enqueueTimer time t op).2 =
      decide ((q.enqueueTimer time t op).1.heapIndex t = some 0 ∧
        ((q.activate time t).opQueue t).isEmpty) := by
    unfold TimerQueue.enqueueTimer
    simp only [ht, not_false_eq_true, if_true]
    rfl
  rw [hresult, (h.activate time ht).2.2.2.2, h.opQueue_eq_nil ht]
  simp

/-- The new operation waits, and so do the others. -/
lemma Enqueued.pending_perm (h : q.Inv) {time : WithTop T} {op : ω}
    (hq : Enqueued q q' time t op) : q'.pending.Perm (op :: q.pending) := by
  have hothers : (q'.timers.erase t).flatMap q'.opQueue = (q.timers.erase t).flatMap q.opQueue := by
    have hnotMem : t ∉ q.timers.erase t := h.nodup.not_mem_erase
    rw [hq.opQueue_eq, hq.timers_eq]
    split_ifs with ht
    · rw [flatMap_update_of_notMem hnotMem]
    · rw [List.erase_cons_head, flatMap_update_of_notMem ht, List.erase_of_not_mem ht]
  have hop : q'.opQueue t = q.opQueue t ++ [op] := by rw [hq.opQueue_eq, Function.update_self]
  have hq' := hq.inv.pending_perm t
  rw [hothers, hop, List.append_assoc, List.singleton_append] at hq'
  exact hq'.trans (List.perm_middle.trans ((h.pending_perm t).symm.cons op))

/-- If `enqueue_timer` returns false, then the new timer is not earlier than all the others. -/
lemma Inv.enqueueTimer_false (h : q.Inv) {time : WithTop T} {op : ω}
    (hfalse : (q.enqueueTimer time t op).2 = false) :
    ∀ e ∈ (q.enqueueTimer time t op).1.heap, ∃ x ∈ q.heap, x.time ≤ e.time := by
  have hq := h.enqueueTimer time t op
  intro e he
  obtain ⟨x, hx⟩ : ∃ x, (q.enqueueTimer time t op).1.heap.head? = some x :=
    ⟨_, List.head?_eq_some_head (List.ne_nil_of_mem he)⟩
  refine ⟨x, ?_, hq.inv.head_le hx he⟩
  have hperm := hq.perm
  by_cases ht : t ∈ q.timers
  · rw [if_pos ht] at hperm
    exact hperm.mem_iff.mp (List.mem_of_head? hx)
  · -- the first entry is not the new one
    rw [if_neg ht] at hperm
    have hindex := hq.inv.indexed.index_eq (List.head?_eq_getElem?.symm.trans hx)
    have hne : x.timer ≠ t := by
      rintro rfl
      rw [h.enqueueTimer_snd ht, decide_eq_false_iff_not] at hfalse
      exact hfalse hindex
    have hmem := hperm.mem_iff.mp (List.mem_of_head? hx)
    rcases time with _ | d
    · exact hmem
    · rcases List.mem_cons.mp hmem with rfl | hmem
      · exact absurd rfl hne
      · exact hmem

end Keep

end TimerQueue

end Asio

end AsioStudy
