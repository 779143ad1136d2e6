import AsioStudy.Socks.Request

/-!
# The relay

`do_read` is called after the reply of the server, and is meant to pass on the bytes that arrive on
either of the two sockets.  The sockets are synchronous: a `receive` blocks until something has
arrived.  What arrives is given by a schedule, which says for every call on a socket what arrives
before it is made; a call that blocks waits for what arrives before the later calls.

A `receive` into an empty buffer is the exception, it returns at once, and the buffers of `do_read`
are empty.  The main result is `relayForwards_iff`.
-/

namespace AsioStudy

namespace Socks

/-- The two sockets: `in_socket_` of the client and `out_socket_` of the target. -/
inductive Side where
  | inSocket
  | outSocket
  deriving DecidableEq, Repr

/-- Whether a socket has reached the end of its stream or failed. -/
inductive Status where
  | isOpen
  | ended
  | failed
  deriving DecidableEq, Repr

/-- A socket, with a record of what has happened on it. -/
structure Socket where
  /-- What has arrived and was not received. -/
  inbox : Bytes
  /-- Whether anything can still arrive. -/
  status : Status
  /-- What has arrived while both sockets were open. -/
  arrived : Bytes
  /-- What `receive` has returned. -/
  received : Bytes
  /-- What was written. -/
  written : Bytes
  deriving DecidableEq, Repr

/-- The two sockets. -/
abbrev Sockets := Side → Socket

/-- The sockets when `do_read` is called for the first time. -/
def Sockets.start : Sockets := fun _ => ⟨[], .isOpen, [], [], []⟩

/-- What arrives on a socket. -/
inductive Arrival where
  | data (side : Side) (bytes : Bytes)
  | ended (side : Side)
  | failed (side : Side)
  deriving DecidableEq, Repr

/-- The bytes of an arrival. -/
def Arrival.bytes : Arrival → Bytes
  | .data _ bytes => bytes
  | _ => []

/-- The socket on which something arrives. -/
def Arrival.side : Arrival → Side
  | .data side _ => side
  | .ended side => side
  | .failed side => side

/-- What becomes of the socket on which something arrives. -/
def Arrival.status : Arrival → Status
  | .data _ _ => .isOpen
  | .ended _ => .ended
  | .failed _ => .failed

/-- Whether both sockets are open. -/
def Sockets.bothOpen (s : Sockets) : Bool :=
  (s .inSocket).status = .isOpen ∧ (s .outSocket).status = .isOpen

/-- Something arrives; nothing does on a socket that has ended or failed. -/
def Sockets.arrive (s : Sockets) (a : Arrival) : Sockets :=
  if (s a.side).status = .isOpen then
    Function.update s a.side
      { s a.side with
        inbox := (s a.side).inbox ++ a.bytes
        status := a.status
        arrived := (s a.side).arrived ++ if s.bothOpen then a.bytes else [] }
  else s

/-- What happens on the sockets in the future: for every call what arrives before it. -/
abbrev Schedule := List (List Arrival)

/-- A program that uses the sockets: it returns or throws, or it never does (`none`). -/
abbrev RelayM := ExceptT Exception (StateT (Sockets × Schedule) Option)

/-- What arrives before a call. -/
def advance : RelayM Unit := fun (s, schedule) =>
  some (.ok (), ((schedule.headD []).foldl Sockets.arrive s, schedule.tail))

/-- Wait until something can be received, or the stream has ended, or the socket has failed. -/
def waitReadable (side : Side) (s : Sockets) : Schedule → Option (Sockets × Schedule)
  | [] => if (s side).inbox ≠ [] ∨ (s side).status ≠ .isOpen then some (s, []) else none
  | batch :: schedule =>
    if (s side).inbox ≠ [] ∨ (s side).status ≠ .isOpen then some (s, batch :: schedule)
    else waitReadable side (batch.foldl Sockets.arrive s) schedule

/-- `receive` into a buffer of `size` bytes. -/
def receive (side : Side) (size : ℕ) : RelayM Bytes := do
  advance
  fun (s, schedule) =>
    if size = 0 then some (.ok [], (s, schedule))
    else
      (waitReadable side s schedule).map fun (s, schedule) =>
        if (s side).inbox = [] then
          (.error (if (s side).status = .ended then .eof else .failed), (s, schedule))
        else
          (.ok ((s side).inbox.take size),
            (Function.update s side
              { s side with
                inbox := (s side).inbox.drop size
                received := (s side).received ++ (s side).inbox.take size }, schedule))

/-- `boost::asio::write`. -/
def write (side : Side) (bytes : Bytes) : RelayM Unit := do
  advance
  fun (s, schedule) =>
    if (s side).status = .failed then some (.error .failed, (s, schedule))
    else
      some (.ok (),
        (Function.update s side { s side with written := (s side).written ++ bytes }, schedule))

/-- One of the two branches of `do_read`, which calls `again` after it has passed something on. -/
def forward (source sink : Side) (again : RelayM Unit) : RelayM Unit := do
  -- `std::vector<std::int8_t> buffer`
  let buffer : Bytes := []
  let data ← receive source buffer.length
  if data.length > 0 then
    write sink data
    again

/-- `do_read`, with a bound on the depth of its recursion. -/
def doRead : ℕ → ℕ → RelayM Unit
  | 0, _ => fun _ => none
  | fuel + 1, direction => do
    if direction &&& 0x1 ≠ 0 then
      forward .inSocket .outSocket (doRead fuel 2)
    if direction &&& 0x2 ≠ 0 then
      forward .outSocket .inSocket (doRead fuel 2)

/-! ## What `do_read` does -/

/-- `do_read` returns after its two calls of `receive`, before which something may arrive. -/
lemma doRead_eq (fuel : ℕ) (s : Sockets) (schedule : Schedule) :
    doRead (fuel + 1) 3 (s, schedule) =
      some (.ok (), ((schedule.take 2).flatten.foldl Sockets.arrive s, schedule.drop 2)) := by
  have hrun : doRead (fuel + 1) 3 (s, schedule) =
      some (.ok (), ((schedule.tail.headD []).foldl Sockets.arrive
        ((schedule.headD []).foldl Sockets.arrive s), schedule.tail.tail)) := rfl
  rw [hrun]
  match schedule with
  | [] => rfl
  | [batch] => simp
  | batch :: batch' :: schedule => simp

/-! ## What `do_read` should do -/

/-- What a relay guarantees when it ends. -/
structure ForwardsEverything (s : Sockets) : Prop where
  /-- A socket has reached the end of its stream or failed. -/
  closed : s.bothOpen = false
  /-- What was received from the client was written to the target. -/
  to_target : (s .outSocket).written = (s .inSocket).received
  /-- What was received from the target was written to the client. -/
  to_client : (s .inSocket).written = (s .outSocket).received
  /-- What has arrived from the client while both sockets were open was passed on. -/
  arrived_to_target : (s .inSocket).arrived <+: (s .outSocket).written
  /-- What has arrived from the target while both sockets were open was passed on. -/
  arrived_to_client : (s .outSocket).arrived <+: (s .inSocket).written

/-- Whenever the call of `do_read` in `handle_client` returns or throws, everything was passed
on. -/
def RelayForwards (schedule : Schedule) : Prop :=
  ∀ fuel r s schedule', doRead fuel 3 (Sockets.start, schedule) = some (r, (s, schedule')) →
    ForwardsEverything s

/-- A socket ends or fails before any byte has arrived. -/
def ClosedUnused (arrivals : List Arrival) : Prop :=
  ∃ before a after, arrivals = before ++ a :: after ∧ a.status ≠ .isOpen ∧
    ∀ b ∈ before, b.bytes = []

/-- The arrival of bytes changes nothing that was received or written. -/
lemma arrive_record (s : Sockets) (a : Arrival) (side : Side) :
    (s.arrive a side).received = (s side).received ∧
      (s.arrive a side).written = (s side).written := by
  unfold Sockets.arrive
  split
  · by_cases h : side = a.side
    · subst h
      simp
    · simp [h]
  · exact ⟨rfl, rfl⟩

/-- Arrivals change nothing that was received or written. -/
lemma foldl_arrive_record (arrivals : List Arrival) (s : Sockets) (side : Side) :
    (arrivals.foldl Sockets.arrive s side).received = (s side).received ∧
      (arrivals.foldl Sockets.arrive s side).written = (s side).written := by
  induction arrivals generalizing s with
  | nil => exact ⟨rfl, rfl⟩
  | cons a arrivals ih =>
    obtain ⟨hreceived, hwritten⟩ := arrive_record s a side
    obtain ⟨hreceived', hwritten'⟩ := ih (s.arrive a)
    exact ⟨hreceived'.trans hreceived, hwritten'.trans hwritten⟩

/-- One of the sockets is closed. -/
lemma bothOpen_eq_false_iff {s : Sockets} :
    s.bothOpen = false ↔ ∃ side, (s side).status ≠ .isOpen := by
  unfold Sockets.bothOpen
  rw [decide_eq_false_iff_not, not_and_or]
  constructor
  · rintro (h | h)
    · exact ⟨.inSocket, h⟩
    · exact ⟨.outSocket, h⟩
  · rintro ⟨side, h⟩
    cases side with
    | inSocket => exact Or.inl h
    | outSocket => exact Or.inr h

/-- Both sockets are open. -/
lemma status_of_bothOpen {s : Sockets} (h : s.bothOpen = true) (side : Side) :
    (s side).status = .isOpen := by
  by_contra hne
  rw [bothOpen_eq_false_iff.mpr ⟨side, hne⟩] at h
  cases h

/-- When a socket is closed, it stays closed, and nothing more arrives while both are open. -/
lemma arrive_of_closed {s : Sockets} (h : s.bothOpen = false) (a : Arrival) :
    (s.arrive a).bothOpen = false ∧ ∀ side, (s.arrive a side).arrived = (s side).arrived := by
  obtain ⟨closed, hclosed⟩ := bothOpen_eq_false_iff.mp h
  unfold Sockets.arrive
  split
  · rename_i hopen
    refine ⟨bothOpen_eq_false_iff.mpr ⟨closed, ?_⟩, fun side => ?_⟩
    · have hne : closed ≠ a.side := by
        rintro rfl
        exact hclosed hopen
      rw [Function.update_of_ne hne]
      exact hclosed
    · by_cases hside : side = a.side
      · subst hside
        simp [h]
      · simp [hside]
  · exact ⟨h, fun _ => rfl⟩

/-- What has arrived on open sockets. -/
lemma arrive_of_open {s : Sockets} (h : s.bothOpen = true) (a : Arrival) :
    ((s.arrive a).bothOpen = true ↔ a.status = .isOpen) ∧
      ∀ side, (s.arrive a side).arrived =
        (s side).arrived ++ if side = a.side then a.bytes else [] := by
  have hopen := status_of_bothOpen h
  unfold Sockets.arrive
  rw [if_pos (hopen a.side)]
  refine ⟨⟨fun hboth => ?_, fun hstatus => ?_⟩, fun side => ?_⟩
  · have hside := status_of_bothOpen hboth a.side
    rw [Function.update_self] at hside
    exact hside
  · by_contra hclosed
    obtain ⟨side, hside⟩ := bothOpen_eq_false_iff.mp (Bool.eq_false_of_not_eq_true hclosed)
    by_cases heq : side = a.side
    · subst heq
      rw [Function.update_self] at hside
      exact hside hstatus
    · rw [Function.update_of_ne heq] at hside
      exact hside (hopen side)
  · by_cases heq : side = a.side
    · subst heq
      simp [h]
    · simp [heq]

/-- Arrivals on sockets of which one is closed. -/
lemma foldl_arrive_of_closed (arrivals : List Arrival) {s : Sockets} (h : s.bothOpen = false) :
    (arrivals.foldl Sockets.arrive s).bothOpen = false ∧
      ∀ side, (arrivals.foldl Sockets.arrive s side).arrived = (s side).arrived := by
  induction arrivals generalizing s with
  | nil => exact ⟨h, fun _ => rfl⟩
  | cons a arrivals ih =>
    obtain ⟨hclosed, harrived⟩ := arrive_of_closed h a
    obtain ⟨hclosed', harrived'⟩ := ih hclosed
    exact ⟨hclosed', fun side => (harrived' side).trans (harrived side)⟩

/-- What has arrived is not forgotten. -/
lemma foldl_arrive_isPrefix (arrivals : List Arrival) (s : Sockets) (side : Side) :
    (s side).arrived <+: (arrivals.foldl Sockets.arrive s side).arrived := by
  induction arrivals generalizing s with
  | nil => exact List.prefix_rfl
  | cons a arrivals ih =>
    refine List.IsPrefix.trans ?_ (ih (s.arrive a))
    rcases Bool.eq_false_or_eq_true s.bothOpen with h | h
    · rw [(arrive_of_open h a).2]
      exact List.prefix_append _ _
    · rw [(arrive_of_closed h a).2]

/-- An arrival without bytes that leaves both sockets open plays no role. -/
lemma closedUnused_cons {a : Arrival} (hbytes : a.bytes = []) (hstatus : a.status = .isOpen)
    (arrivals : List Arrival) : ClosedUnused (a :: arrivals) ↔ ClosedUnused arrivals := by
  constructor
  · rintro ⟨before, b, after, heq, hclose, hempty⟩
    cases before with
    | nil =>
      rw [List.nil_append] at heq
      obtain ⟨rfl, -⟩ := List.cons.inj heq
      exact absurd hstatus hclose
    | cons c before =>
      obtain ⟨-, hrest⟩ := List.cons.inj heq
      exact ⟨before, b, after, hrest, hclose, fun x hx => hempty x (List.mem_cons_of_mem _ hx)⟩
  · rintro ⟨before, b, after, rfl, hclose, hempty⟩
    refine ⟨a :: before, b, after, rfl, hclose, ?_⟩
    intro x hx
    rcases List.mem_cons.mp hx with rfl | hx
    · exact hbytes
    · exact hempty x hx

/-- From open sockets on which nothing has arrived, a socket closes before any byte has arrived
exactly if in the end one is closed and nothing has arrived while both were open. -/
lemma closedUnused_iff (arrivals : List Arrival) {s : Sockets} (hopen : s.bothOpen = true)
    (hempty : ∀ side, (s side).arrived = []) :
    ((arrivals.foldl Sockets.arrive s).bothOpen = false ∧
      ∀ side, (arrivals.foldl Sockets.arrive s side).arrived = []) ↔ ClosedUnused arrivals := by
  induction arrivals generalizing s with
  | nil =>
    constructor
    · rintro ⟨hclosed, -⟩
      rw [List.foldl_nil, hopen] at hclosed
      cases hclosed
    · rintro ⟨before, a, after, heq, -⟩
      simp at heq
  | cons a arrivals ih =>
    obtain ⟨hstatus, harrived⟩ := arrive_of_open hopen a
    rw [List.foldl_cons]
    by_cases hbytes : a.bytes = []
    · have hempty' : ∀ side, (s.arrive a side).arrived = [] := by
        intro side
        rw [harrived, hempty, hbytes, ite_self, List.append_nil]
      by_cases hstay : a.status = .isOpen
      · rw [closedUnused_cons hbytes hstay]
        exact ih (hstatus.mpr hstay) hempty'
      · -- the socket closes here
        have hclosed : (s.arrive a).bothOpen = false :=
          Bool.eq_false_of_not_eq_true fun h => hstay (hstatus.mp h)
        obtain ⟨hclosed', harrived'⟩ := foldl_arrive_of_closed arrivals hclosed
        refine iff_of_true ⟨hclosed', fun side => ?_⟩ ⟨[], a, arrivals, rfl, hstay, by simp⟩
        rw [harrived', hempty']
    · -- bytes arrive while both sockets are open
      have hdata : a.status = .isOpen := by
        cases a with
        | data side bytes => rfl
        | ended side => exact absurd rfl hbytes
        | failed side => exact absurd rfl hbytes
      refine iff_of_false ?_ ?_
      · rintro ⟨-, hnone⟩
        have hprefix := foldl_arrive_isPrefix arrivals (s.arrive a) a.side
        rw [hnone, harrived, if_pos rfl, hempty, List.nil_append] at hprefix
        exact hbytes (List.prefix_nil.mp hprefix)
      · rintro ⟨before, b, after, heq, hclose, hnone⟩
        cases before with
        | nil =>
          obtain ⟨rfl, -⟩ := List.cons.inj heq
          exact hclose hdata
        | cons c before =>
          obtain ⟨rfl, -⟩ := List.cons.inj heq
          exact hbytes (hnone a List.mem_cons_self)

/-- **The relay.**  The call of `do_read` passes on everything exactly if one of the sockets has
ended or failed before any byte has arrived and before the second of its two calls of `receive`. -/
theorem relayForwards_iff (schedule : Schedule) :
    RelayForwards schedule ↔ ClosedUnused (schedule.take 2).flatten := by
  have hrecord := foldl_arrive_record (schedule.take 2).flatten Sockets.start
  have hiff := closedUnused_iff (schedule.take 2).flatten (s := Sockets.start) rfl fun _ => rfl
  rw [← hiff]
  constructor
  · intro h
    have hforwards := h 1 _ _ _ (doRead_eq 0 Sockets.start schedule)
    refine ⟨hforwards.closed, fun side => ?_⟩
    cases side with
    | inSocket =>
      have hprefix := hforwards.arrived_to_target
      rw [(hrecord .outSocket).2] at hprefix
      exact List.prefix_nil.mp hprefix
    | outSocket =>
      have hprefix := hforwards.arrived_to_client
      rw [(hrecord .inSocket).2] at hprefix
      exact List.prefix_nil.mp hprefix
  · rintro ⟨hclosed, harrived⟩ fuel r s schedule' hrun
    cases fuel with
    | zero => cases hrun
    | succ fuel =>
      rw [doRead_eq] at hrun
      cases hrun
      refine ⟨hclosed, ?_, ?_, ?_, ?_⟩
      · rw [(hrecord .outSocket).2, (hrecord .inSocket).1]
        rfl
      · rw [(hrecord .inSocket).2, (hrecord .outSocket).1]
        rfl
      · rw [harrived]
        exact List.nil_prefix
      · rw [harrived]
        exact List.nil_prefix

/-- The client has sent three bytes before `do_read` is called, and both sides stay connected:
`do_read` returns at once and nothing is passed on. -/
theorem not_relayForwards_request : ¬ RelayForwards [[.data .inSocket (bytes "GET")]] := by
  intro h
  have hclosed := (h 1 _ _ _ rfl).closed
  revert hclosed
  decide

end Socks

end AsioStudy
