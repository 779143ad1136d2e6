import AsioStudy.Ssl.Endpoints

/-!
# The echo comes back intact

`Session.At` and `Client.At` say what the two sides have done in any run, whatever the other side
sends: the session has at most one operation outstanding and echoes what it has received, and the
client sends its line and collects as many bytes as it has sent.  The streams between them keep the
order, so that the bytes collected are those of the line.

The main result is `echo_intact`.
-/

namespace AsioStudy

namespace Ssl

open Machine

/-! ## The session -/

/-- The event is not the failure of an operation. -/
def SessionEvent.ok : SessionEvent → Bool
  | .read _ ok => ok
  | .written _ ok => ok
  | _ => true

/-- What the session has done: one operation is outstanding, and what it has received is what it has
echoed and what is still in `data_`; or an operation has failed, and none is outstanding. -/
inductive Session.At (s : Session) (es : List SessionEvent) (out : List SessionOutput) : Prop
  | reading (reads_eq : s.reads = [none]) (writes_eq : s.writes = [])
      (taken_eq : sessionPort.taken es = sessionPort.put out)
  | complete (n : ℕ) (reads_eq : s.reads = [some n]) (writes_eq : s.writes = [])
      (le : n ≤ maxLength) (taken_eq : sessionPort.taken es = sessionPort.put out ++ s.data.take n)
  | writing (op : Transfer) (reads_eq : s.reads = []) (writes_eq : s.writes = [op])
      (le : op.done ≤ op.length)
      (taken_eq : sessionPort.taken es =
        sessionPort.put out ++ (s.data.take op.length).drop op.done)
  | ended (reads_eq : s.reads = []) (writes_eq : s.writes = [])
      (put_isPrefix : sessionPort.put out <+: sessionPort.taken es)
      (failed : ∃ e ∈ es, e.ok = false)

/-- At most one operation of the session is outstanding. -/
lemma Session.At.operations_le {s : Session} {es : List SessionEvent} {out : List SessionOutput}
    (h : s.At es out) : s.reads.length + s.writes.length ≤ 1 := by
  cases h with
  | reading hr hw | complete _ hr hw | writing _ hr hw | ended hr hw => simp [hr, hw]

/-- While the session waits for bytes, it has echoed everything. -/
lemma Session.At.of_reading {s : Session} {es : List SessionEvent} {out : List SessionOutput}
    (h : s.At es out) (hreads : s.reads = [none]) :
    sessionPort.taken es = sessionPort.put out := by
  cases h with
  | reading _ _ htaken => exact htaken
  | complete n hr | writing _ hr | ended hr => simp [hr] at hreads

/-- Bytes that have arrived are at the beginning of `data_`. -/
lemma Session.At.of_complete {s : Session} {es : List SessionEvent} {out : List SessionOutput}
    {n : ℕ} (h : s.At es out) (hreads : s.reads = [some n]) :
    n ≤ maxLength ∧ sessionPort.taken es = sessionPort.put out ++ s.data.take n := by
  cases h with
  | complete m hr _ hle htaken =>
    obtain rfl : m = n := by simpa [hr] using hreads
    exact ⟨hle, htaken⟩
  | reading hr | writing _ hr | ended hr => simp [hr] at hreads

/-- While the session writes, the rest of what it has received is still in `data_`. -/
lemma Session.At.of_writing {s : Session} {es : List SessionEvent} {out : List SessionOutput}
    {op : Transfer} (h : s.At es out) (hwrites : s.writes = [op]) :
    op.done ≤ op.length ∧ sessionPort.taken es =
      sessionPort.put out ++ (s.data.take op.length).drop op.done := by
  cases h with
  | writing op' _ hw hle htaken =>
    obtain rfl : op' = op := by simpa [hw] using hwrites
    exact ⟨hle, htaken⟩
  | reading _ hw | complete _ _ hw | ended _ hw => simp [hw] at hwrites

/-- What the session has echoed is a prefix of what it has received. -/
lemma Session.At.put_isPrefix {s : Session} {es : List SessionEvent} {out : List SessionOutput}
    (h : s.At es out) : sessionPort.put out <+: sessionPort.taken es := by
  cases h with
  | reading _ _ htaken => rw [htaken]
  | complete _ _ _ _ htaken | writing _ _ _ _ htaken =>
    rw [htaken]
    exact List.prefix_append _ _
  | ended _ _ hprefix => exact hprefix

/-- When at most one operation is outstanding, an operation that is found is the only one. -/
lemma only_operation {α β : Type} {ops : List α} {others : List β} {i : ℕ} {op : α}
    (hone : ops.length + others.length ≤ 1) (h : ops[i]? = some op) :
    i = 0 ∧ ops = [op] ∧ others = [] := by
  obtain ⟨hi, hop⟩ := List.getElem?_eq_some_iff.mp h
  obtain rfl : i = 0 := by omega
  obtain ⟨op', rfl⟩ : ∃ op', ops = [op'] := List.length_eq_one_iff.mp (by omega)
  rw [List.length_singleton] at hone
  exact ⟨rfl, by rw [← hop]; rfl, List.eq_nil_of_length_eq_zero (by omega)⟩

/-- What a step of the session can do when at most one operation is outstanding. -/
lemma session_step_cases {s s' : Session} {o : List SessionOutput} {e : SessionEvent}
    (hone : s.reads.length + s.writes.length ≤ 1) (he : s.step e = some (s', o)) :
    (∃ bytes, e = .readSome 0 bytes ∧ s.reads = [none] ∧ s.writes = [] ∧ bytes ≠ [] ∧
        bytes.length ≤ maxLength ∧ o = [] ∧
        s' = ⟨overwrite s.data 0 bytes, [some bytes.length], []⟩) ∨
      (∃ n, e = .read 0 true ∧ s.reads = [some n] ∧ s.writes = [] ∧ o = [] ∧
        s' = ⟨s.data, [], [⟨bufferSize n, 0⟩]⟩) ∨
      (∃ op k, e = .writeSome 0 k ∧ s.reads = [] ∧ s.writes = [op] ∧ 1 ≤ k ∧
        op.done + k ≤ op.length ∧ o = [.echoed ((s.data.drop op.done).take k)] ∧
        s' = ⟨s.data, [], [⟨op.length, op.done + k⟩]⟩) ∨
      (∃ op, e = .written 0 true ∧ s.reads = [] ∧ s.writes = [op] ∧ op.done = op.length ∧
        o = [] ∧ s' = ⟨s.data, [none], []⟩) ∨
      (e.ok = false ∧ s.reads.length + s.writes.length = 1 ∧ sessionPort.takes e = [] ∧ o = [] ∧
        s' = ⟨s.data, [], []⟩) := by
  obtain ⟨data, reads, writes⟩ := s
  cases e with
  | readSome i bytes =>
    obtain ⟨⟨hr, hne, hle⟩, heq⟩ := Option.ite_none_right_eq_some.mp he
    obtain ⟨rfl, rfl, rfl⟩ := only_operation hone hr
    obtain ⟨rfl, rfl⟩ := Prod.mk.inj (Option.some.inj heq)
    exact Or.inl ⟨bytes, rfl, rfl, rfl, hne, hle, rfl, rfl⟩
  | read i ok =>
    simp only [Session.step] at he
    cases hr : reads[i]? with
    | none =>
      rw [hr] at he
      cases he
    | some r =>
      obtain ⟨rfl, rfl, rfl⟩ := only_operation hone hr
      cases r with
      | none =>
        cases ok with
        | true => cases he
        | false =>
          obtain ⟨rfl, rfl⟩ := Prod.mk.inj (Option.some.inj he)
          exact Or.inr (Or.inr (Or.inr (Or.inr ⟨rfl, rfl, rfl, rfl, rfl⟩)))
      | some n =>
        cases ok with
        | false => cases he
        | true =>
          obtain ⟨rfl, rfl⟩ := Prod.mk.inj (Option.some.inj he)
          exact Or.inr (Or.inl ⟨n, rfl, rfl, rfl, rfl, rfl⟩)
  | writeSome i k =>
    simp only [Session.step] at he
    cases hop : writes[i]? with
    | none =>
      rw [hop] at he
      cases he
    | some op =>
      obtain ⟨rfl, rfl, rfl⟩ := only_operation (by rwa [Nat.add_comm] at hone) hop
      obtain ⟨⟨hk, hle⟩, heq⟩ := Option.ite_none_right_eq_some.mp he
      obtain ⟨rfl, rfl⟩ := Prod.mk.inj (Option.some.inj heq)
      exact Or.inr (Or.inr (Or.inl ⟨op, k, rfl, rfl, rfl, hk, hle, rfl, rfl⟩))
  | written i ok =>
    simp only [Session.step] at he
    cases hop : writes[i]? with
    | none =>
      rw [hop] at he
      cases he
    | some op =>
      obtain ⟨rfl, rfl, rfl⟩ := only_operation (by rwa [Nat.add_comm] at hone) hop
      cases ok with
      | true =>
        obtain ⟨hdone, heq⟩ := Option.ite_none_right_eq_some.mp he
        obtain ⟨rfl, rfl⟩ := Prod.mk.inj (Option.some.inj heq)
        exact Or.inr (Or.inr (Or.inr (Or.inl ⟨op, rfl, rfl, rfl, hdone, rfl, rfl⟩)))
      | false =>
        obtain ⟨rfl, rfl⟩ := Prod.mk.inj (Option.some.inj he)
        exact Or.inr (Or.inr (Or.inr (Or.inr ⟨rfl, rfl, rfl, rfl, rfl⟩)))

/-- The bytes of a stretch of a run come after those before it. -/
lemma sessionPort_append (es : List SessionEvent) (e : SessionEvent)
    (out o : List SessionOutput) :
    sessionPort.taken (es ++ [e]) = sessionPort.taken es ++ sessionPort.takes e ∧
      sessionPort.put (out ++ o) = sessionPort.put out ++ sessionPort.put o := by
  simp [Duplex.Port.taken, Duplex.Port.put]

/-- A portion of what an operation has to transfer. -/
lemma take_drop_eq_append (data : Bytes) {op : Transfer} {k : ℕ} (h : op.done + k ≤ op.length) :
    (data.take op.length).drop op.done =
      (data.drop op.done).take k ++ (data.take op.length).drop (op.done + k) := by
  have hcut := (List.take_append_drop k ((data.take op.length).drop op.done)).symm
  rwa [List.drop_drop, List.drop_take, List.take_take, Nat.min_eq_left (by omega),
    ← List.drop_take] at hcut

/-- **One step of the session.** -/
lemma Session.At.step {s s' : Session} {es : List SessionEvent} {out o : List SessionOutput}
    {e : SessionEvent} (h : s.At es out) (he : s.step e = some (s', o)) :
    s'.At (es ++ [e]) (out ++ o) := by
  obtain ⟨htaken, hput⟩ := sessionPort_append es e out o
  rcases session_step_cases h.operations_le he with
    ⟨bytes, rfl, hr, hw, hne, hle, rfl, rfl⟩ | ⟨n, rfl, hr, hw, rfl, rfl⟩ |
    ⟨op, k, rfl, hr, hw, hk, hle, rfl, rfl⟩ | ⟨op, rfl, hr, hw, hdone, rfl, rfl⟩ |
    ⟨hok, -, htakes, rfl, rfl⟩
  · -- what arrives is at the beginning of `data_`
    refine .complete bytes.length rfl rfl hle ?_
    have hdata := take_drop_overwrite (Nat.zero_le s.data.length) bytes
    rw [List.drop_zero] at hdata
    rw [htaken, hput, h.of_reading hr, hdata]
    simp [sessionPort, Duplex.Port.put]
  · obtain ⟨hn, hall⟩ := h.of_complete hr
    have hsize : bufferSize n = n := Nat.min_eq_right hn
    refine .writing _ rfl rfl (Nat.zero_le _) ?_
    rw [htaken, hput, hall, hsize]
    simp [sessionPort, Duplex.Port.put]
  · obtain ⟨-, hall⟩ := h.of_writing hw
    refine .writing _ rfl rfl hle ?_
    rw [htaken, hput, hall, take_drop_eq_append _ hle]
    simp [sessionPort, Duplex.Port.put]
  · obtain ⟨-, hall⟩ := h.of_writing hw
    refine .reading rfl rfl ?_
    have hlen : (s.data.take op.length).length ≤ op.done := by
      rw [hdone]
      exact List.length_take_le _ _
    rw [htaken, hput, hall, List.drop_of_length_le hlen]
    simp [sessionPort, Duplex.Port.put]
  · refine .ended rfl rfl ?_ ⟨e, List.mem_append_right _ (List.mem_singleton.mpr rfl), hok⟩
    rw [htaken, hput, htakes]
    simpa [Duplex.Port.put] using h.put_isPrefix

/-- **The session.**  In every run it has at most one operation outstanding, and it echoes what it
has received. -/
lemma session_run {content : Bytes} {s : Session} {es : List SessionEvent}
    {out : List SessionOutput}
    (hrun : run Session.step (Session.start content) es = some (s, out)) : s.At es out := by
  have hstart : (Session.start content).At [] [] := .reading rfl rfl rfl
  exact run_history hrun hstart fun _ _ _ _ _ _ h he => h.step he

/-- While a write is outstanding, no step changes `data_`. -/
lemma session_data_unchanged {s s' : Session} {o : List SessionOutput} {e : SessionEvent}
    (hone : s.reads.length + s.writes.length ≤ 1) (hwrites : s.writes ≠ [])
    (he : s.step e = some (s', o)) : s'.data = s.data := by
  rcases session_step_cases hone he with
    ⟨bytes, -, -, hw, -⟩ | ⟨n, -, -, -, -, rfl⟩ | ⟨op, k, -, -, -, -, -, -, rfl⟩ |
    ⟨op, -, -, -, -, -, rfl⟩ | ⟨-, -, -, -, rfl⟩
  · exact absurd hw hwrites
  · rfl
  · rfl
  · rfl
  · rfl

/-! ## The client -/

/-- The event is not the failure of an operation. -/
def ClientEvent.ok : ClientEvent → Bool
  | .written _ ok => ok
  | .read _ ok => ok
  | _ => true

/-- The replies that are printed. -/
def printedReplies (out : List ClientOutput) : List Bytes :=
  out.filterMap fun o =>
    match o with
    | .printed bytes => some bytes
    | _ => none

/-- What the client has done with a line: it is sending it, or collecting as many bytes as the line
has, or it has printed them; or an operation has failed. -/
inductive Client.At (line : Bytes) (c : Client) (es : List ClientEvent) (out : List ClientOutput) :
    Prop
  | writing (op : Transfer) (writes_eq : c.writes = [op]) (reads_eq : c.reads = [])
      (length_eq : op.length = line.length) (le : op.done ≤ op.length)
      (put_eq : clientPort.put out = line.take op.done) (taken_eq : clientPort.taken es = [])
      (printed_eq : printedReplies out = [])
  | reading (op : Transfer) (writes_eq : c.writes = []) (reads_eq : c.reads = [op])
      (length_eq : op.length = line.length) (le : op.done ≤ op.length)
      (put_eq : clientPort.put out = line) (length_taken : (clientPort.taken es).length = op.done)
      (reply_eq : c.reply.take op.done = clientPort.taken es) (printed_eq : printedReplies out = [])
  | printed (writes_eq : c.writes = []) (reads_eq : c.reads = [])
      (put_eq : clientPort.put out = line)
      (length_taken : (clientPort.taken es).length = line.length)
      (printed_eq : printedReplies out = [clientPort.taken es])
  | ended (writes_eq : c.writes = []) (reads_eq : c.reads = [])
      (put_isPrefix : clientPort.put out <+: line) (printed_eq : printedReplies out = [])
      (failed : ∃ e ∈ es, e.ok = false)

/-- What holds of a run of the client that sends a line of at most 1023 bytes. -/
structure Client.Sends (line : Bytes) (c : Client) (es : List ClientEvent)
    (out : List ClientOutput) : Prop where
  /-- The line is at the beginning of `request_`. -/
  request_eq : c.request.take line.length = line
  /-- What the client has done. -/
  at_state : c.At line es out
  /-- The arguments of `receive_response`. -/
  responses : ∀ length, .receiveResponse length ∈ out → length = line.length

/-- At most one operation of the client is outstanding. -/
lemma Client.At.operations_le {line : Bytes} {c : Client} {es : List ClientEvent}
    {out : List ClientOutput} (h : c.At line es out) : c.writes.length + c.reads.length ≤ 1 := by
  cases h with
  | writing _ hw hr | reading _ hw hr | printed hw hr | ended hw hr => simp [hw, hr]

/-- What a step of the client can do when at most one operation is outstanding. -/
lemma client_step_cases {c c' : Client} {o : List ClientOutput} {e : ClientEvent}
    (hone : c.writes.length + c.reads.length ≤ 1) (he : c.step e = some (c', o)) :
    (∃ op k, e = .writeSome 0 k ∧ c.writes = [op] ∧ c.reads = [] ∧ 1 ≤ k ∧
        op.done + k ≤ op.length ∧ o = [.sent ((c.request.drop op.done).take k)] ∧
        c' = ⟨c.request, c.reply, [⟨op.length, op.done + k⟩], []⟩) ∨
      (∃ op, e = .written 0 true ∧ c.writes = [op] ∧ c.reads = [] ∧ op.done = op.length ∧
        o = [.receiveResponse op.done] ∧
        c' = ⟨c.request, c.reply, [], [⟨bufferSize op.done, 0⟩]⟩) ∨
      (∃ op bytes, e = .readSome 0 bytes ∧ c.writes = [] ∧ c.reads = [op] ∧ bytes ≠ [] ∧
        op.done + bytes.length ≤ op.length ∧ o = [] ∧
        c' = ⟨c.request, overwrite c.reply op.done bytes, [],
          [⟨op.length, op.done + bytes.length⟩]⟩) ∨
      (∃ op, e = .read 0 true ∧ c.writes = [] ∧ c.reads = [op] ∧ op.done = op.length ∧
        o = [.printed (c.reply.take op.done)] ∧ c' = ⟨c.request, c.reply, [], []⟩) ∨
      (e.ok = false ∧ c.writes.length + c.reads.length = 1 ∧ clientPort.takes e = [] ∧
        (o = [.writeRequestFailed] ∨ o = [.readResponseFailed]) ∧
        c' = ⟨c.request, c.reply, [], []⟩) := by
  obtain ⟨request, reply, writes, reads⟩ := c
  cases e with
  | writeSome i k =>
    simp only [Client.step] at he
    cases hop : writes[i]? with
    | none =>
      rw [hop] at he
      cases he
    | some op =>
      obtain ⟨rfl, rfl, rfl⟩ := only_operation hone hop
      obtain ⟨⟨hk, hle⟩, heq⟩ := Option.ite_none_right_eq_some.mp he
      obtain ⟨rfl, rfl⟩ := Prod.mk.inj (Option.some.inj heq)
      exact Or.inl ⟨op, k, rfl, rfl, rfl, hk, hle, rfl, rfl⟩
  | written i ok =>
    simp only [Client.step] at he
    cases hop : writes[i]? with
    | none =>
      rw [hop] at he
      cases he
    | some op =>
      obtain ⟨rfl, rfl, rfl⟩ := only_operation hone hop
      cases ok with
      | true =>
        obtain ⟨hdone, heq⟩ := Option.ite_none_right_eq_some.mp he
        obtain ⟨rfl, rfl⟩ := Prod.mk.inj (Option.some.inj heq)
        exact Or.inr (Or.inl ⟨op, rfl, rfl, rfl, hdone, rfl, rfl⟩)
      | false =>
        obtain ⟨rfl, rfl⟩ := Prod.mk.inj (Option.some.inj he)
        exact Or.inr (Or.inr (Or.inr (Or.inr ⟨rfl, rfl, rfl, Or.inl rfl, rfl⟩)))
  | readSome i bytes =>
    simp only [Client.step] at he
    cases hop : reads[i]? with
    | none =>
      rw [hop] at he
      cases he
    | some op =>
      obtain ⟨rfl, rfl, rfl⟩ := only_operation (by rwa [Nat.add_comm] at hone) hop
      obtain ⟨⟨hne, hle⟩, heq⟩ := Option.ite_none_right_eq_some.mp he
      obtain ⟨rfl, rfl⟩ := Prod.mk.inj (Option.some.inj heq)
      exact Or.inr (Or.inr (Or.inl ⟨op, bytes, rfl, rfl, rfl, hne, hle, rfl, rfl⟩))
  | read i ok =>
    simp only [Client.step] at he
    cases hop : reads[i]? with
    | none =>
      rw [hop] at he
      cases he
    | some op =>
      obtain ⟨rfl, rfl, rfl⟩ := only_operation (by rwa [Nat.add_comm] at hone) hop
      cases ok with
      | true =>
        obtain ⟨hdone, heq⟩ := Option.ite_none_right_eq_some.mp he
        obtain ⟨rfl, rfl⟩ := Prod.mk.inj (Option.some.inj heq)
        exact Or.inr (Or.inr (Or.inr (Or.inl ⟨op, rfl, rfl, rfl, hdone, rfl, rfl⟩)))
      | false =>
        obtain ⟨rfl, rfl⟩ := Prod.mk.inj (Option.some.inj he)
        exact Or.inr (Or.inr (Or.inr (Or.inr ⟨rfl, rfl, rfl, Or.inr rfl, rfl⟩)))

/-- The bytes and the replies of a stretch of a run come after those before it. -/
lemma clientPort_append (es : List ClientEvent) (e : ClientEvent) (out o : List ClientOutput) :
    clientPort.taken (es ++ [e]) = clientPort.taken es ++ clientPort.takes e ∧
      clientPort.put (out ++ o) = clientPort.put out ++ clientPort.put o ∧
      printedReplies (out ++ o) = printedReplies out ++ printedReplies o := by
  simp [Duplex.Port.taken, Duplex.Port.put, printedReplies]

/-- While the client sends, the line has been sent up to where the operation is. -/
lemma Client.At.of_writing {line : Bytes} {c : Client} {es : List ClientEvent}
    {out : List ClientOutput} {op : Transfer} (h : c.At line es out) (hwrites : c.writes = [op]) :
    op.length = line.length ∧ op.done ≤ op.length ∧ clientPort.put out = line.take op.done ∧
      clientPort.taken es = [] ∧ printedReplies out = [] := by
  cases h with
  | writing op' hw _ hlen hle hput htaken hprinted =>
    obtain rfl : op' = op := by simpa [hw] using hwrites
    exact ⟨hlen, hle, hput, htaken, hprinted⟩
  | reading _ hw | printed hw | ended hw => simp [hw] at hwrites

/-- While the client reads, it has what it has received in `reply_`. -/
lemma Client.At.of_reading {line : Bytes} {c : Client} {es : List ClientEvent}
    {out : List ClientOutput} {op : Transfer} (h : c.At line es out) (hreads : c.reads = [op]) :
    op.length = line.length ∧ op.done ≤ op.length ∧ clientPort.put out = line ∧
      (clientPort.taken es).length = op.done ∧ c.reply.take op.done = clientPort.taken es ∧
      printedReplies out = [] := by
  cases h with
  | reading op' _ hr hlen hle hput hlength hreply hprinted =>
    obtain rfl : op' = op := by simpa [hr] using hreads
    exact ⟨hlen, hle, hput, hlength, hreply, hprinted⟩
  | writing _ _ hr | printed _ hr | ended _ hr => simp [hr] at hreads

/-- What the client has sent is a prefix of the line. -/
lemma Client.At.put_isPrefix {line : Bytes} {c : Client} {es : List ClientEvent}
    {out : List ClientOutput} (h : c.At line es out) : clientPort.put out <+: line := by
  cases h with
  | writing _ _ _ _ _ hput =>
    rw [hput]
    exact List.take_prefix _ _
  | reading _ _ _ _ _ hput | printed _ _ hput => rw [hput]
  | ended _ _ hprefix => exact hprefix

/-- **One step of the client.** -/
lemma Client.Sends.step {line : Bytes} {c c' : Client} {es : List ClientEvent}
    {out o : List ClientOutput} {e : ClientEvent} (hline : line.length ≤ maxLength)
    (h : c.Sends line es out) (he : c.step e = some (c', o)) :
    c'.Sends line (es ++ [e]) (out ++ o) := by
  obtain ⟨htaken, hput, hprinted⟩ := clientPort_append es e out o
  have hresponses : (∀ length, .receiveResponse length ∈ o → length = line.length) →
      ∀ length, .receiveResponse length ∈ out ++ o → length = line.length := by
    intro ho length hmem
    rcases List.mem_append.mp hmem with hmem | hmem
    · exact h.responses length hmem
    · exact ho length hmem
  rcases client_step_cases h.at_state.operations_le he with
    ⟨op, k, rfl, hw, hr, hk, hle, rfl, rfl⟩ | ⟨op, rfl, hw, hr, hdone, rfl, rfl⟩ |
    ⟨op, bytes, rfl, hw, hr, hne, hle, rfl, rfl⟩ | ⟨op, rfl, hw, hr, hdone, rfl, rfl⟩ |
    ⟨hok, hbusy, htakes, ho, rfl⟩
  · obtain ⟨hlen, -, hsent, hnone, hnot⟩ := h.at_state.of_writing hw
    refine ⟨h.request_eq, .writing _ rfl rfl hlen hle ?_ ?_ ?_, hresponses (by simp)⟩
    · -- the portion is the next one of the line
      have hportion : (c.request.drop op.done).take k = (line.drop op.done).take k := by
        conv_rhs => rw [← h.request_eq, ← hlen, List.drop_take, List.take_take,
          Nat.min_eq_left (by omega)]
      rw [hput, hsent, hportion, List.take_add]
      simp [clientPort, Duplex.Port.put]
    · rw [htaken, hnone]
      rfl
    · rw [hprinted, hnot]
      rfl
  · obtain ⟨hlen, -, hsent, hnone, hnot⟩ := h.at_state.of_writing hw
    have hsize : bufferSize op.done = line.length := by
      rw [hdone, hlen]
      exact Nat.min_eq_right hline
    refine ⟨h.request_eq, .reading _ rfl rfl hsize (Nat.zero_le _) ?_ ?_ ?_ ?_, hresponses ?_⟩
    · rw [hput, hsent, hdone, hlen, List.take_length]
      simp [clientPort, Duplex.Port.put]
    · rw [htaken, hnone]
      rfl
    · rw [htaken, hnone]
      rfl
    · rw [hprinted, hnot]
      rfl
    · intro length hmem
      obtain rfl : length = op.done := by simpa using hmem
      rw [hdone, hlen]
  · obtain ⟨hlen, -, hsent, hlength, hreply, hnot⟩ := h.at_state.of_reading hr
    refine ⟨h.request_eq, .reading _ rfl rfl hlen hle ?_ ?_ ?_ ?_, hresponses (by simp)⟩
    · rw [hput, hsent]
      simp [Duplex.Port.put]
    · rw [htaken, List.length_append, hlength]
      rfl
    · -- the bytes are put behind those that are there
      have hpos : op.done ≤ c.reply.length := by
        rw [← hreply, List.length_take] at hlength
        omega
      rw [htaken, List.take_add, take_overwrite hpos, take_drop_overwrite hpos, hreply]
      rfl
    · rw [hprinted, hnot]
      rfl
  · obtain ⟨hlen, -, hsent, hlength, hreply, hnot⟩ := h.at_state.of_reading hr
    refine ⟨h.request_eq, .printed rfl rfl ?_ ?_ ?_, hresponses (by simp)⟩
    · rw [hput, hsent]
      simp [clientPort, Duplex.Port.put]
    · rw [htaken, List.length_append, hlength, hdone, hlen]
      rfl
    · rw [hprinted, hnot, htaken, hreply]
      simp [printedReplies, clientPort]
  · have hnot : printedReplies out = [] := by
      cases h.at_state with
      | writing _ _ _ _ _ _ _ hnot | reading _ _ _ _ _ _ _ _ hnot | ended _ _ _ hnot => exact hnot
      | printed hw hr => simp [hw, hr] at hbusy
    have hquiet : clientPort.put o = [] ∧ printedReplies o = [] ∧
        ∀ length, .receiveResponse length ∉ o := by
      rcases ho with rfl | rfl <;> simp [clientPort, Duplex.Port.put, printedReplies]
    refine ⟨h.request_eq, .ended rfl rfl ?_ ?_
      ⟨e, List.mem_append_right _ (List.mem_singleton.mpr rfl), hok⟩, hresponses ?_⟩
    · rw [hput, hquiet.1, List.append_nil]
      exact h.at_state.put_isPrefix
    · rw [hprinted, hnot, hquiet.2.1]
      rfl
    · exact fun length hmem => absurd hmem (hquiet.2.2 length)

/-- The request of a line of at most 1023 bytes other than NUL is the line. -/
lemma sendRequest_eq (content content' : Bytes) {input : Bytes}
    (hlen : (inputLine input).length < maxLength)
    (hnul : 0 ∉ inputLine input) :
    ∃ request, request.take (inputLine input).length = inputLine input ∧
      Client.sendRequest content content' input =
        ⟨request, content', [⟨(inputLine input).length, 0⟩], []⟩ := by
  have htake : (inputLine input).take (maxLength - 1) = inputLine input :=
    List.take_of_length_le (by omega)
  have hrequest : getline content maxLength input =
      inputLine input ++ (0 :: content.drop ((inputLine input).length + 1)) := by
    simp [getline, htake, overwrite]
  have hstrlen : (cString (getline content maxLength input)).length = (inputLine input).length := by
    rw [hrequest, cString_append hnul]
    simp [cString]
  refine ⟨getline content maxLength input, ?_, ?_⟩
  · rw [hrequest, List.take_left]
  · have hsize : bufferSize (inputLine input).length = (inputLine input).length :=
      Nat.min_eq_right (le_of_lt hlen)
    simp only [Client.sendRequest, hstrlen, hsize]

/-- **The client.**  In every run it sends its line, collects as many bytes as the line has, and
prints what it has collected. -/
lemma client_run {content content' input : Bytes} (hlen : (inputLine input).length < maxLength)
    (hnul : 0 ∉ inputLine input) {c : Client} {es : List ClientEvent} {out : List ClientOutput}
    (hrun : run Client.step (Client.sendRequest content content' input) es = some (c, out)) :
    c.Sends (inputLine input) es out := by
  obtain ⟨request, hrequest, hstart⟩ := sendRequest_eq content content' hlen hnul
  rw [hstart] at hrun
  refine run_history hrun ⟨hrequest, ?_, by simp⟩ fun _ _ _ _ _ _ h he => h.step (le_of_lt hlen) he
  exact .writing ⟨(inputLine input).length, 0⟩ rfl rfl rfl (Nat.zero_le _) rfl rfl rfl

/-! ## How long a run can be -/

/-- What the client still has to do: every byte that it has to send costs six steps at most, until
it is in `reply_`. -/
def Client.work (c : Client) : ℕ :=
  (c.writes.map fun op => 6 * (op.length - op.done) + 2).sum + c.reads.length

/-- What the session still has to do. -/
def Session.work (s : Session) : ℕ :=
  (s.reads.map fun r => r.elim 1 fun n => 2 * n + 3).sum +
    (s.writes.map fun op => 2 * (op.length - op.done) + 2).sum

/-- What is still to be done at both sides and with the bytes on the way. -/
def Echo.work (s : Echo) : ℕ :=
  s.first.work + 5 * s.toSecond.length + s.second.work + s.toFirst.length

/-- Every outstanding operation of the client is some work. -/
lemma operations_le_client_work (c : Client) : c.writes.length + c.reads.length ≤ c.work := by
  have hsum := List.length_le_sum_of_one_le (c.writes.map fun op => 6 * (op.length - op.done) + 2)
    (by simp)
  rw [List.length_map] at hsum
  exact Nat.add_le_add_right hsum _

/-- Every outstanding operation of the session is some work. -/
lemma operations_le_session_work (s : Session) : s.reads.length + s.writes.length ≤ s.work := by
  have hreads := List.length_le_sum_of_one_le (s.reads.map fun r => r.elim 1 fun n => 2 * n + 3)
    (by
      intro i hi
      obtain ⟨r, -, rfl⟩ := List.mem_map.mp hi
      cases r with
      | none => exact le_refl 1
      | some n => exact Nat.succ_le_succ (Nat.zero_le _))
  have hwrites := List.length_le_sum_of_one_le
    (s.writes.map fun op => 2 * (op.length - op.done) + 2) (by simp)
  rw [List.length_map] at hreads hwrites
  exact Nat.add_le_add hreads hwrites

/-- A step of the client brings its work down, counting bytes that it sends and receives. -/
lemma client_work_lt {c c' : Client} {o : List ClientOutput} {e : ClientEvent}
    (hone : c.writes.length + c.reads.length ≤ 1) (he : c.step e = some (c', o)) :
    c'.work + 5 * (clientPort.put o).length < c.work + (clientPort.takes e).length := by
  rcases client_step_cases hone he with
    ⟨op, k, rfl, hw, hr, hk, hle, rfl, rfl⟩ | ⟨op, rfl, hw, hr, hdone, rfl, rfl⟩ |
    ⟨op, bytes, rfl, hw, hr, hne, hle, rfl, rfl⟩ | ⟨op, rfl, hw, hr, hdone, rfl, rfl⟩ |
    ⟨hok, hbusy, htakes, ho, rfl⟩
  · have hwork : c.work = 6 * (op.length - op.done) + 2 := by
      simp [Client.work, hw, hr]
    have hwork' : Client.work ⟨c.request, c.reply, [⟨op.length, op.done + k⟩], []⟩ =
        6 * (op.length - (op.done + k)) + 2 := by
      simp [Client.work]
    have hput : (clientPort.put [.sent ((c.request.drop op.done).take k)]).length ≤ k := by
      simp [clientPort, Duplex.Port.put]
    omega
  · have hwork : c.work = 2 := by
      simp [Client.work, hw, hr, hdone]
    rw [hwork]
    exact Nat.lt_succ_self 1
  · have hwork : c.work = 1 := by
      simp [Client.work, hw, hr]
    have hpos := List.length_pos_of_ne_nil hne
    rw [hwork]
    exact Nat.add_lt_add_left hpos 1
  · have hwork : c.work = 1 := by
      simp [Client.work, hw, hr]
    rw [hwork]
    exact Nat.lt_succ_self 0
  · have hpos := operations_le_client_work c
    have hput : clientPort.put o = [] := by
      rcases ho with rfl | rfl <;> rfl
    have hwork' : Client.work ⟨c.request, c.reply, [], []⟩ = 0 := rfl
    rw [hwork', hput, htakes, List.length_nil]
    omega

/-- A step of the session brings its work down, counting bytes that it receives and echoes. -/
lemma session_work_lt {s s' : Session} {o : List SessionOutput} {e : SessionEvent}
    (hone : s.reads.length + s.writes.length ≤ 1) (he : s.step e = some (s', o)) :
    s'.work + (sessionPort.put o).length < s.work + 5 * (sessionPort.takes e).length := by
  rcases session_step_cases hone he with
    ⟨bytes, rfl, hr, hw, hne, hle, rfl, rfl⟩ | ⟨n, rfl, hr, hw, rfl, rfl⟩ |
    ⟨op, k, rfl, hr, hw, hk, hle, rfl, rfl⟩ | ⟨op, rfl, hr, hw, hdone, rfl, rfl⟩ |
    ⟨hok, hbusy, htakes, rfl, rfl⟩
  · have hwork : s.work = 1 := by
      simp [Session.work, hw, hr]
    have hwork' : Session.work ⟨overwrite s.data 0 bytes, [some bytes.length], []⟩ =
        2 * bytes.length + 3 := rfl
    have hput : (sessionPort.put []).length = 0 := rfl
    have htakes : sessionPort.takes (.readSome 0 bytes) = bytes := rfl
    have hpos := List.length_pos_of_ne_nil hne
    rw [hwork, hwork', hput, htakes]
    omega
  · have hwork : s.work = 2 * n + 3 := by
      simp [Session.work, hw, hr]
    have hwork' : Session.work ⟨s.data, [], [⟨bufferSize n, 0⟩]⟩ = 2 * bufferSize n + 2 := by
      simp [Session.work]
    have hsize : bufferSize n ≤ n := Nat.min_le_right _ _
    have hput : (sessionPort.put []).length = 0 := rfl
    rw [hwork, hwork', hput]
    omega
  · have hwork : s.work = 2 * (op.length - op.done) + 2 := by
      simp [Session.work, hw, hr]
    have hwork' : Session.work ⟨s.data, [], [⟨op.length, op.done + k⟩]⟩ =
        2 * (op.length - (op.done + k)) + 2 := by
      simp [Session.work]
    have hput : (sessionPort.put [.echoed ((s.data.drop op.done).take k)]).length ≤ k := by
      simp [sessionPort, Duplex.Port.put]
    omega
  · have hwork : s.work = 2 := by
      simp [Session.work, hw, hr, hdone]
    rw [hwork]
    exact Nat.lt_succ_self 1
  · have hpos := operations_le_session_work s
    have hwork' : Session.work ⟨s.data, [], []⟩ = 0 := rfl
    have hput : (sessionPort.put []).length = 0 := rfl
    rw [hwork', hput, htakes, List.length_nil]
    omega

/-- What is known of the two sides in every state of a run. -/
def Echo.Sound (line : Bytes) (s : Echo) : Prop :=
  (∃ es out, s.first.Sends line es out) ∧ ∃ es out, s.second.At es out

/-- **One step of the pair** keeps what is known of the sides and brings the work down. -/
lemma Echo.Sound.step {line : Bytes} {s s' : Echo} {e : EchoEvent} {o : List EchoOutput}
    (hline : line.length ≤ maxLength) (h : s.Sound line) (he : s.step e = some (s', o)) :
    s'.Sound line ∧ s'.work < s.work := by
  obtain ⟨⟨es, out, hclient⟩, es', out', hsession⟩ := h
  cases e with
  | inl e =>
    obtain ⟨c, o, rest, hrest, hstep, rfl, -⟩ := Duplex.step_inl_iff.mp he
    refine ⟨⟨⟨_, _, hclient.step hline hstep⟩, es', out', hsession⟩, ?_⟩
    have hlt := client_work_lt hclient.at_state.operations_le hstep
    simp only [Echo.work, hrest, List.length_append]
    omega
  | inr e =>
    obtain ⟨c, o, rest, hrest, hstep, rfl, -⟩ := Duplex.step_inr_iff.mp he
    refine ⟨⟨⟨es, out, hclient⟩, _, _, hsession.step hstep⟩, ?_⟩
    have hlt := session_work_lt hsession.operations_le hstep
    simp only [Echo.work, hrest, List.length_append]
    omega

/-! ## The two together -/

/-- The event is not the failure of an operation. -/
def EchoEvent.ok : EchoEvent → Bool := Sum.elim ClientEvent.ok SessionEvent.ok

/-- What holds after a run in which the client has sent a line. -/
structure EchoIntact (line : Bytes) (events : List EchoEvent) (s : Echo)
    (out : List EchoOutput) : Prop where
  /-- The session has no read outstanding together with a write. -/
  one_operation : s.second.reads = [] ∨ s.second.writes = []
  /-- While a write from `data_` is outstanding, no step changes `data_`. -/
  data_unchanged : ∀ e s' o, s.second.writes ≠ [] → s.step e = some (s', o) →
    s'.second.data = s.second.data
  /-- The bytes echoed are a prefix of the bytes received. -/
  echoed_isPrefix : sessionPort.put (Duplex.seconds out) <+:
    sessionPort.taken (Duplex.seconds events)
  /-- The length for which `receive_response` is called does not exceed the size of `reply_`. -/
  response_le : ∀ length, .inl (.receiveResponse length) ∈ out → length ≤ maxLength
  /-- What the client reads does not exceed the size of `reply_`. -/
  read_le : ∀ op ∈ s.first.reads, op.length ≤ maxLength
  /-- The client prints nothing but the line. -/
  printed_eq : ∀ bytes, .inl (.printed bytes) ∈ out → bytes = line
  /-- If no operation has failed and none can go on, the client has printed the line. -/
  prints : (∀ e ∈ events, e.ok = true) → (∀ e, e.ok = true → s.step e = none) →
    printedReplies (Duplex.firsts out) = [line]
  /-- No run is much longer than the line. -/
  length_le : events.length ≤ 6 * line.length + 3

/-- The events of one side are events of the pair. -/
lemma mem_of_mem_sides {α γ : Type} {xs : List (α ⊕ γ)} :
    (∀ {a}, a ∈ Duplex.firsts xs ↔ Sum.inl a ∈ xs) ∧
      ∀ {c}, c ∈ Duplex.seconds xs ↔ Sum.inr c ∈ xs := by
  simp [Duplex.firsts, Duplex.seconds, List.mem_filterMap, Sum.getLeft?_eq_some_iff,
    Sum.getRight?_eq_some_iff]

/-- What the client receives is what it has sent, as far as the echo has come. -/
lemma taken_isPrefix {line : Bytes} {c : Client} {t : Session} {s : Echo} {events : List EchoEvent}
    {out : List EchoOutput} (hrun : run Echo.step ⟨c, t, [], []⟩ events = some (s, out))
    (hclient : s.first.Sends line (Duplex.firsts events) (Duplex.firsts out))
    (hsession : s.second.At (Duplex.seconds events) (Duplex.seconds out)) :
    clientPort.taken (Duplex.firsts events) <+: line := by
  obtain ⟨hsecond, hfirst⟩ := Duplex.run_conservation hrun
  calc clientPort.taken (Duplex.firsts events)
      <+: sessionPort.put (Duplex.seconds out) := ⟨_, hfirst.symm⟩
    _ <+: sessionPort.taken (Duplex.seconds events) := hsession.put_isPrefix
    _ <+: clientPort.put (Duplex.firsts out) := ⟨_, hsecond.symm⟩
    _ <+: line := hclient.at_state.put_isPrefix

/-- A transfer that is not complete goes on, and a complete one has a handler to run. -/
lemma transfer_can_go_on {op : Transfer} (hle : op.done ≤ op.length) :
    op.done = op.length ∨ op.done + 1 ≤ op.length := by
  omega

/-- When no event of the client is possible, it waits for bytes. -/
lemma client_stuck {line : Bytes} {c : Client} {es : List ClientEvent} {out : List ClientOutput}
    (incoming : Bytes) (h : c.At line es out) (hok : ∀ e ∈ es, e.ok = true)
    (hstuck : ∀ e : ClientEvent, e.ok = true → clientPort.takes e <+: incoming → c.step e = none) :
    (∃ op, c.reads = [op] ∧ op.done < op.length ∧ incoming = []) ∨
      printedReplies out = [clientPort.taken es] := by
  cases h with
  | writing op hw _ _ hle =>
    exfalso
    rcases transfer_can_go_on hle with hdone | hmore
    · have hnone := hstuck (.written 0 true) rfl List.nil_prefix
      simp [Client.step, hw, hdone] at hnone
    · have hnone := hstuck (.writeSome 0 1) rfl List.nil_prefix
      simp [Client.step, hw, hmore] at hnone
  | reading op hw hr _ hle =>
    rcases transfer_can_go_on hle with hdone | hmore
    · have hnone := hstuck (.read 0 true) rfl List.nil_prefix
      simp [Client.step, hr, hdone] at hnone
    · refine Or.inl ⟨op, hr, hmore, ?_⟩
      cases incoming with
      | nil => rfl
      | cons b rest =>
        have hnone := hstuck (.readSome 0 [b]) rfl (List.prefix_append [b] rest)
        simp [Client.step, hr, hmore] at hnone
  | printed _ _ _ _ hprinted => exact Or.inr hprinted
  | ended _ _ _ _ hfailed =>
    obtain ⟨e, he, hfalse⟩ := hfailed
    rw [hok e he] at hfalse
    cases hfalse

/-- When no event of the session is possible, it has echoed everything and waits for bytes. -/
lemma session_stuck {t : Session} {es : List SessionEvent} {out : List SessionOutput}
    (incoming : Bytes) (h : t.At es out) (hok : ∀ e ∈ es, e.ok = true)
    (hstuck : ∀ e : SessionEvent, e.ok = true → sessionPort.takes e <+: incoming →
      t.step e = none) : sessionPort.taken es = sessionPort.put out ∧ incoming = [] := by
  cases h with
  | reading hr _ htaken =>
    refine ⟨htaken, ?_⟩
    cases incoming with
    | nil => rfl
    | cons b rest =>
      have hnone := hstuck (.readSome 0 [b]) rfl (List.prefix_append [b] rest)
      simp [Session.step, hr, maxLength] at hnone
  | complete n hr =>
    have hnone := hstuck (.read 0 true) rfl List.nil_prefix
    simp [Session.step, hr] at hnone
  | writing op _ hw hle =>
    rcases transfer_can_go_on hle with hdone | hmore
    · have hnone := hstuck (.written 0 true) rfl List.nil_prefix
      simp [Session.step, hw, hdone] at hnone
    · have hnone := hstuck (.writeSome 0 1) rfl List.nil_prefix
      simp [Session.step, hw, hmore] at hnone
  | ended _ _ _ hfailed =>
    obtain ⟨e, he, hfalse⟩ := hfailed
    rw [hok e he] at hfalse
    cases hfalse

/-- A run without failures that cannot go on has printed the line. -/
lemma prints_of_stuck {line : Bytes} {c : Client} {t : Session} {s : Echo}
    {events : List EchoEvent} {out : List EchoOutput}
    (hrun : run Echo.step ⟨c, t, [], []⟩ events = some (s, out))
    (hclient : s.first.Sends line (Duplex.firsts events) (Duplex.firsts out))
    (hsession : s.second.At (Duplex.seconds events) (Duplex.seconds out))
    (hok : ∀ e ∈ events, e.ok = true) (hstuck : ∀ e, e.ok = true → s.step e = none) :
    printedReplies (Duplex.firsts out) = [line] := by
  obtain ⟨hsecond, hfirst⟩ := Duplex.run_conservation hrun
  have hprefix := taken_isPrefix hrun hclient hsession
  have hwait := client_stuck s.toFirst hclient.at_state
    (fun e he => hok (.inl e) (mem_of_mem_sides.1.mp he))
    (fun e he htakes => Duplex.first_eq_none_of_step (hstuck (.inl e) he) htakes)
  rcases hwait with ⟨op, hr, hlt, hempty⟩ | hprinted
  · -- everything has come back, so that the client cannot wait for more
    obtain ⟨hechoed, hempty'⟩ := session_stuck s.toSecond hsession
      (fun e he => hok (.inr e) (mem_of_mem_sides.2.mp he))
      (fun e he htakes => Duplex.second_eq_none_of_step (hstuck (.inr e) he) htakes)
    obtain ⟨hlen, -, hput, hlength, -, -⟩ := hclient.at_state.of_reading hr
    have hback : clientPort.taken (Duplex.firsts events) = line := by
      rw [← hput, hsecond, hempty', List.append_nil, hechoed, hfirst, hempty, List.append_nil]
    rw [hback, ← hlen] at hlength
    omega
  · cases hclient.at_state with
    | printed _ _ _ hlength =>
      rw [hprinted, hprefix.eq_of_length hlength]
    | writing _ _ _ _ _ _ _ hnone | reading _ _ _ _ _ _ _ _ hnone | ended _ _ _ hnone =>
      rw [hnone] at hprinted
      cases hprinted

/-- **The echo comes back intact.**  The client sends a line of at most 1023 bytes other than NUL.
In every run the session has one operation outstanding at most and echoes a prefix of what it has
received; the client reads no more than fits into `reply_` and prints nothing but the line; and when
no operation has failed and none can go on, it has printed the line, after a bounded number of
events. -/
theorem echo_intact {input : Bytes} (hlen : (inputLine input).length ≤ 1023)
    (hnul : 0 ∉ inputLine input) (content content' content'' : Bytes) {events : List EchoEvent}
    {s : Echo} {out : List EchoOutput}
    (hrun : run Echo.step (Echo.start content content' content'' input) events = some (s, out)) :
    EchoIntact (inputLine input) events s out := by
  have hlt : (inputLine input).length < maxLength := Nat.lt_succ_of_le hlen
  have hclient : s.first.Sends (inputLine input) (Duplex.firsts events) (Duplex.firsts out) :=
    client_run hlt hnul (Duplex.run_first hrun)
  have hsession : s.second.At (Duplex.seconds events) (Duplex.seconds out) :=
    session_run (Duplex.run_second hrun)
  have hone := hsession.operations_le
  refine ⟨?_, ?_, hsession.put_isPrefix, ?_, ?_, ?_, ?_, ?_⟩
  · rcases Nat.eq_zero_or_pos s.second.reads.length with hzero | hpos
    · exact Or.inl (List.eq_nil_of_length_eq_zero hzero)
    · exact Or.inr (List.eq_nil_of_length_eq_zero (by omega))
  · intro e s' o hwrites he
    cases e with
    | inl e =>
      obtain ⟨c, o, rest, -, -, rfl, -⟩ := Duplex.step_inl_iff.mp he
      rfl
    | inr e =>
      obtain ⟨t, o, rest, -, hstep, rfl, -⟩ := Duplex.step_inr_iff.mp he
      exact session_data_unchanged hone hwrites hstep
  · intro length hmem
    rw [hclient.responses length (mem_of_mem_sides.1.mpr hmem)]
    exact le_of_lt hlt
  · intro op hop
    obtain ⟨i, hi⟩ := List.mem_iff_getElem?.mp hop
    have hclientOne := hclient.at_state.operations_le
    obtain ⟨-, hr, -⟩ := only_operation (by rwa [Nat.add_comm] at hclientOne) hi
    rw [(hclient.at_state.of_reading hr).1]
    exact le_of_lt hlt
  · intro bytes hmem
    have hmem : bytes ∈ printedReplies (Duplex.firsts out) :=
      List.mem_filterMap.mpr ⟨_, mem_of_mem_sides.1.mpr hmem, rfl⟩
    have hprefix := taken_isPrefix hrun hclient hsession
    cases hclient.at_state with
    | printed _ _ _ hlength hprinted =>
      rw [hprinted, List.mem_singleton] at hmem
      rw [hmem, hprefix.eq_of_length hlength]
    | writing _ _ _ _ _ _ _ hnone | reading _ _ _ _ _ _ _ _ hnone | ended _ _ _ hnone =>
      rw [hnone] at hmem
      cases hmem
  · exact prints_of_stuck hrun hclient hsession
  · have hstart : (Echo.start content content' content'' input).Sound (inputLine input) :=
      ⟨⟨[], [], client_run hlt hnul rfl⟩, [], [], session_run rfl⟩
    have hwork : (Echo.start content content' content'' input).work =
        6 * (inputLine input).length + 3 := by
      obtain ⟨request, -, hrequest⟩ := sendRequest_eq content content' hlt hnul
      simp [Echo.work, Echo.start, hrequest, Client.work, Session.work, Session.start,
        Session.doRead]
    rw [← hwork]
    exact le_trans (Nat.le_add_right _ _)
      (run_length_add_le (fun _ _ _ _ h he => h.step (le_of_lt hlt) he) hrun hstart)

/-- A run in which two bytes are sent at once and come back in two portions. -/
def twoPortions : List EchoEvent :=
  [.inl (.writeSome 0 2), .inr (.readSome 0 (bytes "h")), .inr (.read 0 true),
    .inl (.written 0 true), .inr (.writeSome 0 1), .inl (.readSome 0 (bytes "h")),
    .inr (.written 0 true), .inr (.readSome 0 (bytes "i")), .inr (.read 0 true),
    .inr (.writeSome 0 1), .inl (.readSome 0 (bytes "i")), .inl (.read 0 true)]

/-- The two bytes are printed. -/
theorem echo_intact_two_portions : ∃ s out,
    run Echo.step (Echo.start (List.replicate 1024 0) (List.replicate 1024 0)
      (List.replicate 1024 0) (bytes "hi\nho\n")) twoPortions = some (s, out) ∧
    printedReplies (Duplex.firsts out) = [bytes "hi"] ∧
    EchoIntact (inputLine (bytes "hi\nho\n")) twoPortions s out := by
  have hprinted : ((run Echo.step (Echo.start (List.replicate 1024 0) (List.replicate 1024 0)
      (List.replicate 1024 0) (bytes "hi\nho\n")) twoPortions).map fun r =>
        printedReplies (Duplex.firsts r.2)) = some [bytes "hi"] := by
    decide +kernel
  obtain ⟨⟨s, out⟩, hrun, hout⟩ := Option.map_eq_some_iff.mp hprinted
  refine ⟨s, out, hrun, hout, ?_⟩
  exact echo_intact (by decide) (by decide) _ _ _ hrun

end Ssl

end AsioStudy
